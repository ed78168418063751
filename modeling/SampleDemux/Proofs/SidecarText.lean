import SampleDemux.Output.Sidecar
import Mathlib.Data.List.Basic
import Mathlib.Data.Nat.Basic

/-!
# Texts of descriptions

A mapping is written entry by entry, so whatever the name of a file and the identity of a stream
are, the container, the type of the values and the number of samples stand on three lines of a
description, one after the other.
-/

namespace SampleDemux

namespace Yaml

/-- The entries of a mapping are written one after the other. -/
theorem writeEntries_eq_flatMap (entries : List (Scalar × Tree)) :
    writeEntries 0 true entries = entries.flatMap fun entry => writeEntries 0 true [entry] := by
  induction entries with
  | nil => rw [writeEntries, List.flatMap_nil]
  | cons entry entries ih =>
    rcases entry with ⟨key, value⟩
    rw [List.flatMap_cons, ← ih, writeEntries, writeEntries, writeEntries, List.append_nil]

/-- A closed line ends in a line end. -/
theorem exists_getLast?_closeLine (chars : List Char) :
    ∃ last, (closeLine chars).getLast? = some last ∧ isBreak last = true := by
  rw [closeLine]
  split
  · rename_i hbreak
    exact (Option.any_eq_true _ _).mp hbreak
  · exact ⟨'\n', List.getLast?_concat, rfl⟩

/-- An entry with a scalar ends in a line end. -/
theorem getLast?_writeEntries_scalar (key value : Scalar) :
    (writeEntries 0 true [(key, .scalar value)]).getLast?.any isBreak = true := by
  obtain ⟨last, hlast, hbreak⟩ := exists_getLast?_closeLine (' ' :: value.write 2)
  rw [writeEntries, writeEntries, List.append_nil, List.getLast?_append, Tree.writeAfterColon,
    hlast, Option.some_or, Option.any_some, hbreak]

/-- Digits do not end a line. -/
theorem isBreak_of_isDigit {c : Char} (h : c.isDigit = true) : isBreak c = false := by
  refine decide_eq_false fun hbreak => ?_
  rcases hbreak with rfl | rfl | rfl | rfl | rfl <;> revert h <;> decide

/-- A number in decimal digits is written with a line end behind it. -/
theorem closeLine_toString (front : List Char) (count : ℕ) :
    closeLine (front ++ (toString count).toList) = front ++ (toString count).toList ++ ['\n'] := by
  have hdigits : (toString count).toList = Nat.toDigits 10 count := by
    rw [Nat.toString_eq_ofList_toDigits, String.toList_ofList]
  have hlast : (front ++ (toString count).toList).getLast?.any isBreak = false := by
    rw [hdigits, List.getLast?_append_of_ne_nil _ Nat.toDigits_ne_nil,
      List.getLast?_eq_some_getLast Nat.toDigits_ne_nil, Option.any_some]
    exact isBreak_of_isDigit (Nat.isDigit_of_mem_toDigits (by decide) (by decide)
      (List.getLast_mem Nat.toDigits_ne_nil))
  rw [closeLine, hlast, if_neg Bool.false_ne_true]

end Yaml

namespace Sidecar

open Yaml

/-- What a description says of the container, of the type of the values and of the number of
samples. -/
def summary (sidecar : Sidecar) : String :=
  "container: " ++ sidecar.container.name ++ "\n" ++
    "sample_type: " ++ sidecar.sampleType.name ++ "\n" ++
    "samples: " ++ toString sidecar.samples ++ "\n"

/-- The container is written on a line of its own. -/
theorem writeEntries_container (container : Container) :
    writeEntries 0 true [(.text "container", .text container.name)] =
      ("container: " ++ container.name ++ "\n").toList := by
  cases container <;> with_unfolding_all decide

/-- The type of the values is written on a line of its own. -/
theorem writeEntries_sampleType (type : SampleType) :
    writeEntries 0 true [(.text "sample_type", .text type.name)] =
      ("sample_type: " ++ type.name ++ "\n").toList := by
  cases type <;> with_unfolding_all decide

/-- The number of samples is written on a line of its own. -/
theorem writeEntries_samples (count : ℕ) :
    writeEntries 0 true [(.text "samples", .count count)] =
      ("samples: " ++ toString count ++ "\n").toList := by
  have hkey : (Scalar.text "samples").isSimpleKey = true ∧
      (Scalar.text "samples").write 2 = "samples".toList := by with_unfolding_all decide
  have hvalue : Tree.writeAfterColon 0 false (.count count) =
      ' ' :: (toString count).toList ++ ['\n'] := closeLine_toString [' '] count
  rw [writeEntries, writeEntries, hkey.1, hkey.2, if_pos rfl, if_pos rfl, Bool.not_true, hvalue]
  simp only [String.toList_append, List.append_assoc, List.append_nil, spaces, List.replicate_zero]
  rfl

/-- A description has its summary as lines of its own. -/
theorem exists_render_eq (sidecar : Sidecar) :
    ∃ front back, sidecar.render.toList = front ++ sidecar.summary.toList ++ back ∧
      front.getLast?.any isBreak = true := by
  refine ⟨writeEntries 0 true [(.text "file", .text sidecar.file)],
    writeEntries 0 true [(.text "stream", sidecar.stream.tree)], ?_,
    getLast?_writeEntries_scalar _ _⟩
  rw [render, tree, Tree.record]
  simp only [List.map_cons, List.map_nil]
  rw [Tree.render, String.toList_ofList, writeEntries_eq_flatMap]
  simp only [List.flatMap_cons, List.flatMap_nil]
  unfold summary
  simp only [writeEntries_container, writeEntries_sampleType, writeEntries_samples,
    String.toList_append, List.append_assoc, List.append_nil]

end Sidecar

end SampleDemux
