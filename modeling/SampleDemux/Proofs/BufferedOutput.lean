import SampleDemux.Output.BufferedWriter
import Mathlib.Data.Nat.Basic
import Mathlib.Data.List.Basic

/-!
# What buffered writers write

A writer at the end of a content appends all it is given, in order, whatever it holds back in the
meantime; flushing it brings the content up to date. A writer that goes to another place, writes
there and goes on to a third place has replaced the bytes at the second one.
-/

namespace SampleDemux

/-- Bytes that are put at the end of a content come after it. -/
theorem overlay_length (content data : List UInt8) :
    overlay content content.length data = content ++ data := by
  by_cases hdata : data = []
  · rw [overlay, if_pos hdata, hdata, List.append_nil]
  · rw [overlay, if_neg hdata, List.take_length, Nat.sub_self, List.replicate_zero,
      List.append_nil, List.drop_eq_nil_of_le (Nat.le_add_right ..), List.append_nil]

/-- Bytes that are put over as many others take their place. -/
theorem overlay_append (before : List UInt8) {old data : List UInt8}
    (h : old.length = data.length) (behind : List UInt8) :
    overlay (before ++ old ++ behind) before.length data = before ++ data ++ behind := by
  by_cases hdata : data = []
  · rw [hdata, List.length_nil, List.length_eq_zero_iff] at h
    rw [overlay, if_pos hdata, hdata, h]
  · have hgap : before.length - (before ++ old ++ behind).length = 0 := by
      rw [List.length_append, List.length_append]
      omega
    have hend : before.length + data.length = (before ++ old).length := by
      rw [List.length_append, h]
    rw [overlay, if_neg hdata, hgap, List.replicate_zero, List.append_nil, hend,
      List.drop_left, List.append_assoc before old, List.take_left]

namespace BufferedWriter

/-- A writer at the end of a content has written bytes: those in the content, and then those that it
holds back. -/
structure Appended (writer : BufferedWriter) (content written : List UInt8) : Prop where
  /-- The writer is at the end of the content. -/
  offset_eq : writer.offset = content.length
  /-- The content and what is held back are what was written. -/
  append_pending : content ++ writer.pending.toList = written

/-- A new writer has written nothing into an empty content. -/
theorem appended_new : ({} : BufferedWriter).Appended [] [] := ⟨rfl, rfl⟩

namespace Appended

variable {writer : BufferedWriter} {content written : List UInt8}

/-- The next byte goes behind all that was written. -/
theorem position_eq (h : writer.Appended content written) : writer.position = written.length := by
  rw [position, h.offset_eq, ← h.append_pending, List.length_append,
    ← Array.length_toList]

/-- A writer may hold nothing back. -/
theorem of_length (written : List UInt8) :
    (⟨written.length, #[]⟩ : BufferedWriter).Appended written written := ⟨rfl, List.append_nil _⟩

/-- Flushing leaves what was written as the content. -/
theorem flush_eq (h : writer.Appended content written) :
    writer.flush content = (⟨written.length, #[]⟩, written) := by
  rw [BufferedWriter.flush, ← position, h.position_eq, h.offset_eq, overlay_length,
    h.append_pending]

/-- A writer is at the end after flushing. -/
theorem flush (h : writer.Appended content written) :
    (writer.flush content).1.Appended (writer.flush content).2 written := by
  rw [h.flush_eq]
  exact of_length written

/-- Going to another place leaves what was written as the content. -/
theorem seek_eq (h : writer.Appended content written) (offset : ℕ) :
    writer.seek offset content = (⟨offset, #[]⟩, written) := by
  rw [seek, h.flush_eq]

/-- Bytes that are put into the content past the buffer come behind what was written before. -/
theorem write_through (h : writer.Appended content written) (data : List UInt8) :
    (⟨(writer.flush content).1.offset + data.length, #[]⟩ : BufferedWriter).Appended
      (overlay (writer.flush content).2 (writer.flush content).1.offset data)
      (written ++ data) := by
  rw [h.flush_eq, overlay_length]
  exact ⟨(List.length_append ..).symm, List.append_nil _⟩

/-- Bytes that are held back come behind what was written before. -/
theorem hold (h : writer.Appended content written) (data : List UInt8) :
    ({ writer with pending := writer.pending ++ data.toArray } : BufferedWriter).Appended content
      (written ++ data) := by
  refine ⟨h.offset_eq, ?_⟩
  rw [Array.toList_append, ← List.append_assoc, h.append_pending]

/-- What is written comes behind what was written before. -/
theorem write (h : writer.Appended content written) (data : List UInt8) :
    (writer.write data content).1.Appended (writer.write data content).2 (written ++ data) := by
  have hready : (if bufferCapacity - writer.pending.size < data.length then writer.flush content
        else (writer, content)).1.Appended
      (if bufferCapacity - writer.pending.size < data.length then writer.flush content
        else (writer, content)).2 written := by
    split
    · exact h.flush
    · exact h
  rw [BufferedWriter.write]
  generalize (if bufferCapacity - writer.pending.size < data.length then writer.flush content
    else (writer, content)) = ready at hready ⊢
  rcases ready with ⟨ready, content⟩
  dsimp only
  split
  · exact hready.write_through data
  · exact hready.hold data

/-- Writing leaves some writer at the end of some content. -/
theorem exists_write (h : writer.Appended content written) (data : List UInt8) :
    ∃ next later, writer.write data content = (next, later) ∧
      next.Appended later (written ++ data) := ⟨_, _, rfl, h.write data⟩

end Appended

/-- A writer that holds nothing back, writes and goes on to another place has put its bytes over
those at its place. -/
theorem seek_write (offset next : ℕ) (data content : List UInt8) :
    ((⟨offset, #[]⟩ : BufferedWriter).write data content).1.seek next
        ((⟨offset, #[]⟩ : BufferedWriter).write data content).2 =
      (⟨next, #[]⟩, overlay content offset data) := by
  have hflush : ∀ (offset : ℕ) (content : List UInt8),
      (⟨offset, #[]⟩ : BufferedWriter).flush content = (⟨offset, #[]⟩, content) :=
    fun _ _ => rfl
  rw [write, hflush, ite_self]
  dsimp only
  split
  · rw [hflush, seek, hflush]
  · rw [seek, flush]
    simp only [Array.empty_append, List.toList_toArray]

end BufferedWriter

end SampleDemux
