import SampleDemux.Lane.Supply
import Mathlib.Order.Basic
import Mathlib.Data.Nat.Basic
import Mathlib.Data.List.Basic

/-!
# Sources without faults

A reader that never fails is, for its source, the string of the bytes that it will hand out. The
pieces in which they come and the interruptions between them make no difference: a request takes the
next bytes of the string, or what is left of it, and says which of the two.
-/

namespace SampleDemux

namespace Reader

/-- A reader that may be interrupted but never fails. -/
def FaultFree (reader : Reader) : Prop := ∀ event ∈ reader.events, ∀ reason, event ≠ .failed reason

/-- A reader of given bytes never fails. -/
theorem faultFree_ofBytes (data : List UInt8) : (ofBytes data).FaultFree := by
  intro event hevent reason
  rw [List.mem_singleton.mp hevent]
  exact nofun

/-- A request to a reader that never fails takes the next bytes and leaves the others. -/
theorem takeEvents_of_faultFree (count : ℕ) {events : List ReadEvent}
    (h : FaultFree ⟨events⟩) :
    ∃ rest, takeEvents count events = ⟨(bytesOf events).take count, none, rest⟩ ∧
      bytesOf rest = (bytesOf events).drop count ∧ FaultFree ⟨rest⟩ := by
  induction events generalizing count with
  | nil => exact ⟨[], by simp [takeEvents, bytesOf], by simp [bytesOf], h⟩
  | cons event events ih =>
    rcases List.forall_mem_cons.mp h with ⟨hevent, hevents⟩
    unfold takeEvents
    by_cases hcount : count = 0
    · rw [if_pos hcount, hcount]
      exact ⟨event :: events, by simp, by simp, h⟩
    rw [if_neg hcount]
    cases event with
    | failed reason => exact absurd rfl (hevent reason)
    | interrupted => exact ih count hevents
    | ended =>
      have hbehind : ∀ event ∈ behindEnd events, ∀ reason, event ≠ .failed reason :=
        fun event hmem => hevents event (List.mem_of_mem_filter hmem)
      exact ⟨behindEnd events, by simp [bytesOf], by simp [bytesOf], hbehind⟩
    | bytes data =>
      simp only [bytesOf]
      split
      · -- The piece is used up, and the request goes on behind it.
        rename_i hall
        have hlength : data.length ≤ count := List.drop_eq_nil_iff.mp hall
        rcases ih (count - data.length) hevents with ⟨rest, htaken, hrest, hfree⟩
        refine ⟨rest, ?_, ?_, hfree⟩
        · rw [htaken, List.take_append, List.take_of_length_le hlength]
        · rw [hrest, List.drop_append, hall, List.nil_append]
      · -- The request ends inside the piece.
        rename_i hleft
        have hlength : count < data.length := by
          by_contra hlength
          exact hleft (List.drop_eq_nil_iff.mpr (by omega))
        refine ⟨.bytes (data.drop count) :: events, ?_, ?_, ?_⟩
        · rw [List.take_append_of_le_length (by omega)]
        · rw [List.drop_append_of_le_length (by omega)]
          rfl
        · refine List.forall_mem_cons.mpr ⟨fun reason => ?_, hevents⟩
          exact nofun

/-- What follows the bytes of a request that is served in full is left as it is. -/
theorem takeEvents_append {count : ℕ} {front : List ReadEvent} {data : List UInt8}
    {left : List ReadEvent} (h : takeEvents count front = ⟨data, none, left⟩)
    (hdata : data.length = count) (rest : List ReadEvent) :
    takeEvents count (front ++ rest) = ⟨data, none, left ++ rest⟩ := by
  induction front generalizing count data with
  | nil =>
    cases h
    obtain rfl : 0 = count := hdata
    cases rest <;> rfl
  | cons event front ih =>
    rw [List.cons_append]
    unfold takeEvents at h ⊢
    by_cases hcount : count = 0
    · rw [if_pos hcount] at h ⊢
      cases h
      rfl
    rw [if_neg hcount] at h ⊢
    cases event with
    | failed reason => cases h
    | interrupted => exact ih h hdata
    | ended =>
      cases h
      exact absurd hdata.symm hcount
    | bytes piece =>
      dsimp only at h ⊢
      split at h
      · -- The piece is used up, and the request goes on behind it.
        rename_i hall
        have hlength : piece.length ≤ count := List.drop_eq_nil_iff.mp hall
        obtain ⟨hpiece, hfailure, hleft⟩ := Taken.mk.inj h
        rw [← hpiece, List.length_append] at hdata
        have hlater := @ih (count - piece.length) (takeEvents (count - piece.length) front).data
          (by rw [← hfailure, ← hleft]) (by omega)
        rw [hlater, hpiece]
      · cases h
        rfl

end Reader

namespace ByteSource

/-- A source that never fails has served so many bytes and has these bytes left. -/
structure Serves (source : ByteSource) (position : ℕ) (data : List UInt8) : Prop where
  /-- No bytes come from a file. -/
  file : source.file = none
  /-- So many bytes were served. -/
  position_eq : source.position = position
  /-- The reader never fails and has these bytes. -/
  reader : ∃ reader, source.reader = some reader ∧ reader.FaultFree ∧ reader.remaining = data

/-- A source over a reader begins with all its bytes. -/
theorem serves_ofReader {reader : Reader} (h : reader.FaultFree) :
    (ofReader reader).Serves 0 reader.remaining :=
  ⟨rfl, rfl, reader, rfl, h, rfl⟩

/-- A source over bytes begins with all of them. -/
theorem serves_ofBytes (data : List UInt8) : (ofBytes data).Serves 0 data := by
  have hserves := serves_ofReader (Reader.faultFree_ofBytes data)
  have hremaining : (Reader.ofBytes data).remaining = data := List.append_nil data
  rwa [hremaining] at hserves

namespace Serves

variable {source : ByteSource} {position : ℕ} {data : List UInt8}

/-- The bytes that are left. -/
theorem remaining_eq (h : source.Serves position data) : source.remaining = data := by
  rcases h.reader with ⟨reader, hreader, -, hdata⟩
  rw [remaining, hreader]
  exact hdata

/-- What is left bounds what is served. -/
theorem bound_eq (h : source.Serves position data) : source.bound = data.length := by
  rw [bound, h.file, h.remaining_eq]
  rfl

/-- A read takes the next bytes, or those that are left. -/
theorem read (h : source.Serves position data) (count : ℕ) :
    ∃ behind, source.read count =
      ⟨data.take count, .ok (.of count (min count data.length)), behind⟩ ∧
      behind.Serves (position + min count data.length) (data.drop count) := by
  rcases h.reader with ⟨reader, hreader, hfree, hdata⟩
  rcases Reader.takeEvents_of_faultFree count hfree with ⟨rest, htaken, hrest, hrestFree⟩
  have hbytes : Reader.bytesOf reader.events = data := hdata
  rw [hbytes] at htaken hrest
  refine ⟨{ source with
    reader := some ⟨rest⟩, position := source.position + min count data.length }, ?_, ?_⟩
  · simp only [ByteSource.read, hreader, htaken, List.length_take]
  · exact ⟨h.file, by rw [h.position_eq], ⟨rest⟩, rfl, hrestFree, hrest⟩

/-- A read of bytes that are there takes them. -/
theorem read_full (h : source.Serves position data) {count : ℕ} (hcount : count ≤ data.length) :
    ∃ behind, source.read count = ⟨data.take count, .ok .full, behind⟩ ∧
      behind.Serves (position + count) (data.drop count) := by
  rcases h.read count with ⟨behind, hread, hbehind⟩
  rw [Nat.min_eq_left hcount] at hread hbehind
  exact ⟨behind, by rw [hread, Fill.of, if_pos rfl], hbehind⟩

/-- A read of more bytes than are left takes those and says that they end. -/
theorem read_short (h : source.Serves position data) {count : ℕ} (hcount : data.length < count) :
    ∃ behind, source.read count =
      ⟨data, .ok (if data.length = 0 then .empty else .part data.length), behind⟩ ∧
      behind.Serves (position + data.length) [] := by
  rcases h.read count with ⟨behind, hread, hbehind⟩
  rw [Nat.min_eq_right hcount.le, List.drop_of_length_le hcount.le] at hbehind
  rw [Nat.min_eq_right hcount.le, List.take_of_length_le hcount.le, Fill.of,
    if_neg hcount.ne] at hread
  exact ⟨behind, hread, hbehind⟩

end Serves

end ByteSource

end SampleDemux
