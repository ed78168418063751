import Mathlib.Data.List.DropRight
import SampleDemux.Proofs.SinkAccount

/-!
# Calls with their answers

The history of a registry has an entry for each call, with the answer to it and with what was done
with sinks meanwhile. What happened since the registry was last cleared says which streams have
sinks and records, and so what the next entry can be.
-/

namespace SampleDemux

variable {W S : Type}

namespace Registry

/-- A call with its answer and what was done with sinks to serve it. -/
structure Entry where
  /-- The call. -/
  call : Call
  /-- The answer. -/
  answer : Answer
  /-- What was done with sinks meanwhile, in order. -/
  deeds : List Deed

/-- A call that a registry serves. -/
def entry (kind : SinkKind W S) (registry : Registry (Logged W) (ℕ × S)) (call : Call) : Entry where
  call
  answer := (registry.serve kind.logged call).1
  deeds := (registry.serve kind.logged call).2.world.log.drop registry.world.log.length

/-- The calls that a registry serves, one after the other. -/
def entries (kind : SinkKind W S) (registry : Registry (Logged W) (ℕ × S)) :
    List Call → List Entry
  | [] => []
  | call :: rest =>
    registry.entry kind call :: entries kind (registry.serve kind.logged call).2 rest

/-- The history of a new registry. -/
def history (kind : SinkKind W S) (world : W) (calls : List Call) : List Entry :=
  entries kind { world := { world } } calls

/-- A call that clears the registry. -/
def Call.clears : Call → Bool
  | .clear => true
  | _ => false

/-- The stream that was given a sink, and the number of the sink. -/
def Entry.given? : Entry → Option (String × ℕ)
  | ⟨.sink stream, .sink (.ok number), _⟩ => some (stream, number)
  | _ => none

/-- The record that was offered. -/
def Entry.offered? : Entry → Option StreamRecord
  | ⟨.enter record, _, _⟩ => some record
  | _ => none

/-- The streams that were given sinks. -/
def given (past : List Entry) : List (String × ℕ) := past.filterMap Entry.given?

/-- The records that were offered. -/
def offered (past : List Entry) : List StreamRecord := past.filterMap Entry.offered?

/-- What happened since the registry was last cleared. -/
def sinceClear (past : List Entry) : List Entry := past.rtakeWhile fun entry => !entry.call.clears

/-- What happened up to the last time that the registry was cleared. -/
def untilClear (past : List Entry) : List Entry := past.rdropWhile fun entry => !entry.call.clears

/-- The record of a stream: the first one that was offered since the registry was last cleared. -/
def firstOffered (past : List Entry) (stream : String) : Option StreamRecord :=
  (offered (sinceClear past)).find? (·.id == stream)

/-- What an entry of a history can be, behind what happened before. -/
inductive Explained (past : List Entry) : Entry → Prop
  /-- The stream has a sink, which is given again. -/
  | known {stream : String} {number : ℕ} (hgiven : (stream, number) ∈ given (sinceClear past)) :
      Explained past ⟨.sink stream, .sink (.ok number), []⟩
  /-- The stream has no sink, and one is made. -/
  | made {stream : String} {number : ℕ}
      (hnew : ∀ other, (stream, other) ∉ given (sinceClear past)) :
      Explained past ⟨.sink stream, .sink (.ok number), [.made stream number]⟩
  /-- The stream has no sink, and none can be made. -/
  | refused {stream : String} {cause : Cause}
      (hnew : ∀ other, (stream, other) ∉ given (sinceClear past)) :
      Explained past ⟨.sink stream, .sink (.error (.sink stream cause)), [.refused stream cause]⟩
  /-- The record of the stream is given, which is the offered one if there is none. -/
  | entered (record : StreamRecord) :
      Explained past
        ⟨.enter record, .entered ((firstOffered past record.id).getD record), []⟩
  /-- The record of the stream is looked up. -/
  | found (stream : String) :
      Explained past ⟨.lookUp stream, .found (firstOffered past stream), []⟩
  /-- The records of all streams are listed in the order of the streams. -/
  | listed {records : List StreamRecord} (hascending : records.Pairwise (·.id < ·.id))
      (hrecords : ∀ record, record ∈ records ↔ firstOffered past record.id = some record) :
      Explained past ⟨.list, .listed records, []⟩
  /-- Forgetting does nothing with the sinks. -/
  | cleared : Explained past ⟨.clear, .cleared, []⟩
  /-- The sinks of all streams are finished in the order of the streams. -/
  | finished {sinks : List (String × ℕ)} {outcome : Except ConvertError Unit} {deeds : List Deed}
      (hascending : sinks.Pairwise (·.1 < ·.1))
      (hsinks : ∀ sink, sink ∈ sinks ↔ sink ∈ given (sinceClear past))
      (hfinishing : Finishing sinks outcome deeds) :
      Explained past ⟨.finishAll, .finished outcome, deeds⟩
  /-- A sample makes no sink and finishes none. -/
  | consumed (number : ℕ) (sample : Sample) (record : StreamRecord) (reply : Reply) :
      Explained past ⟨.consume number sample record, .replied reply, []⟩

section Past

variable {past : List Entry} {entry : Entry}

/-- Nothing has happened since a registry was cleared. -/
theorem sinceClear_concat_clear (h : entry.call.clears = true) :
    sinceClear (past ++ [entry]) = [] :=
  List.rtakeWhile_concat_neg _ _ _ (by simp [h])

/-- What does not clear a registry is added to what happened since. -/
theorem sinceClear_concat (h : entry.call.clears = false) :
    sinceClear (past ++ [entry]) = sinceClear past ++ [entry] :=
  List.rtakeWhile_concat_pos _ _ _ (by simp [h])

/-- All that happened did so before a registry was cleared at last. -/
theorem untilClear_concat_clear (h : entry.call.clears = true) :
    untilClear (past ++ [entry]) = past ++ [entry] :=
  List.rdropWhile_concat_neg _ _ _ (by simp [h])

/-- What does not clear a registry is not added to what happened before. -/
theorem untilClear_concat (h : entry.call.clears = false) :
    untilClear (past ++ [entry]) = untilClear past :=
  List.rdropWhile_concat_pos _ _ _ (by simp [h])

/-- All that happened did so until the registry was last cleared, or since. -/
theorem untilClear_append_sinceClear (past : List Entry) :
    untilClear past ++ sinceClear past = past := List.rdropWhile_append_rtakeWhile

/-- An entry and what follows it belong to what happened since the registry was last cleared, if it
was not cleared meanwhile. -/
theorem mem_sinceClear {front middle : List Entry} (hentry : entry.call.clears = false)
    (hmiddle : ∀ other ∈ middle, other.call.clears = false) :
    entry ∈ sinceClear (front ++ entry :: middle) := by
  induction middle using List.reverseRecOn with
  | nil =>
    rw [sinceClear_concat hentry]
    exact List.mem_append_right _ (List.mem_singleton_self entry)
  | append_singleton middle last ih =>
    have hlast := hmiddle last (List.mem_append_right _ (List.mem_singleton_self last))
    rw [← List.cons_append, ← List.append_assoc, sinceClear_concat hlast]
    have hothers := ih fun other hother => hmiddle other (List.mem_append_left _ hother)
    exact List.mem_append_left _ hothers

/-- An entry belongs to what happened before the registry was last cleared, if it was cleared
afterwards. -/
theorem mem_untilClear {front middle : List Entry} {clearing : Entry} (hmem : clearing ∈ middle)
    (hclear : clearing.call.clears = true) : entry ∈ untilClear (front ++ entry :: middle) := by
  induction middle using List.reverseRecOn with
  | nil => cases hmem
  | append_singleton middle last ih =>
    rw [← List.cons_append, ← List.append_assoc]
    cases hlast : last.call.clears with
    | true =>
      rw [untilClear_concat_clear hlast]
      simp
    | false =>
      rw [untilClear_concat hlast]
      refine ih ((List.mem_append.mp hmem).resolve_right fun hsame => ?_)
      rw [List.mem_singleton.mp hsame, hlast] at hclear
      cases hclear

/-- A stream was given a sink by an entry or before. -/
theorem mem_given_concat {pair : String × ℕ} :
    pair ∈ given (past ++ [entry]) ↔ pair ∈ given past ∨ entry.given? = some pair := by
  simp [given]

/-- A stream that an entry gave a sink was given it. -/
theorem mem_given {pair : String × ℕ} (hmem : entry ∈ past) (hgiven : entry.given? = some pair) :
    pair ∈ given past := List.mem_filterMap.mpr ⟨entry, hmem, hgiven⟩

/-- Giving out a sink does not clear a registry. -/
theorem clears_of_given {pair : String × ℕ} (h : entry.given? = some pair) :
    entry.call.clears = false := by
  unfold Entry.given? at h
  split at h
  · rfl
  · cases h

/-- A record that was offered first stays so. -/
theorem firstOffered_concat (hentry : entry.call.clears = false) (stream : String) :
    firstOffered (past ++ [entry]) stream =
      (firstOffered past stream).or (entry.offered?.filter (·.id == stream)) := by
  rw [firstOffered, firstOffered, sinceClear_concat hentry, offered, List.filterMap_append,
    List.find?_append]
  refine congrArg _ ?_
  cases hoffered : entry.offered? with
  | none => simp [hoffered]
  | some record => by_cases hid : record.id == stream <;> simp [hoffered, hid, Option.filter]

end Past

/-- A sink is asked for only for a stream that has none. -/
theorem Explained.new {past : List Entry} {entry : Entry} (h : Explained past entry) {deed : Deed}
    (hdeed : deed ∈ entry.deeds) {stream : String} (hasks : deed.AsksFor stream) (number : ℕ) :
    (stream, number) ∉ given (sinceClear past) := by
  cases h with
  | made hnew | refused hnew =>
    rw [List.mem_singleton.mp hdeed] at hasks
    exact hasks ▸ hnew number
  | finished _ _ hfinishing => exact absurd hasks (hfinishing.not_asksFor hdeed stream)
  | _ => cases hdeed

/-- A sink that is made is given out. -/
theorem Explained.given {past : List Entry} {entry : Entry} (h : Explained past entry)
    {stream : String} {number : ℕ} (hdeed : .made stream number ∈ entry.deeds) :
    entry.given? = some (stream, number) := by
  cases h with
  | made =>
    cases List.mem_singleton.mp hdeed
    rfl
  | refused => cases List.mem_singleton.mp hdeed
  | finished _ _ hfinishing => exact absurd rfl (hfinishing.not_asksFor hdeed stream)
  | _ => cases hdeed

end Registry

end SampleDemux
