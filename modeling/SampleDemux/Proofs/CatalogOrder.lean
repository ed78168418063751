import SampleDemux.Proofs.OpenConverter

/-!
# The order of catalogues

Every change of a catalogue keeps its keys in ascending order, without repetition. In this order a
change meets the value that a look-up finds: a value that is present stays when a new one is
offered, and the entries are exactly what look-ups find.
-/

namespace SampleDemux

namespace Catalog

variable {κ α : Type} [LT κ]

/-- The keys ascend, so no key has two entries. -/
def Ascending (catalog : Catalog κ α) : Prop := catalog.entries.Pairwise (·.1 < ·.1)

/-- A catalogue without entries ascends. -/
theorem ascending_empty : ({} : Catalog κ α).Ascending := List.Pairwise.nil

/-- The keys in their order ascend. -/
theorem Ascending.keys {catalog : Catalog κ α} (h : catalog.Ascending) :
    catalog.keys.Pairwise (· < ·) := List.pairwise_map.mpr h

/-- Changed entries have the keys from before and the changed one. -/
theorem mem_keys_alterEntries [DecidableEq κ] [DecidableLT κ] {key other : κ}
    {change : Option α → α} {entries : List (κ × α)}
    (h : other ∈ (alterEntries key change entries).map (·.1)) :
    other = key ∨ other ∈ entries.map (·.1) := by
  induction entries with
  | nil => exact .inl (List.mem_singleton.mp h)
  | cons entry entries ih =>
    rcases entry with ⟨present, value⟩
    rw [alterEntries] at h
    split at h
    · exact .inr h
    split at h
    · exact List.mem_cons.mp h
    · rcases List.mem_cons.mp h with hfirst | hrest
      · exact .inr (List.mem_cons.mpr (.inl hfirst))
      · exact (ih hrest).imp id (List.mem_cons_of_mem _)

section Order

variable [IsStrictTotalOrder κ fun first second => first < second]

/-- A key stands once. -/
theorem Ascending.nodup {catalog : Catalog κ α} (h : catalog.Ascending) :
    (catalog.entries.map (·.1)).Nodup := by
  refine h.keys.imp fun {first second} hless hsame => ?_
  rw [hsame] at hless
  exact irrefl_of (fun first second : κ => first < second) second hless

variable [DecidableEq κ] {catalog : Catalog κ α} {key : κ} {value : α}

/-- Entries are what look-ups find. -/
theorem Ascending.mem_iff (h : catalog.Ascending) :
    (key, value) ∈ catalog.entries ↔ catalog.find? key = some value :=
  ⟨find?_of_mem h.nodup, mem_of_find?⟩

/-- A key that comes before the first one of an order has no entry. -/
theorem find?_eq_none_of_lt {present : κ} {found : α} {entries : List (κ × α)}
    (h : ∀ entry ∈ entries, present < entry.1) (hless : key < present) :
    (⟨(present, found) :: entries⟩ : Catalog κ α).find? key = none := by
  rw [find?, Option.map_eq_none_iff, List.find?_eq_none]
  intro entry hentry hsame
  have hbefore : key < entry.1 := by
    rcases List.mem_cons.mp hentry with rfl | hentry
    · exact hless
    · exact trans_of (fun first second : κ => first < second) hless (h entry hentry)
  rw [of_decide_eq_true hsame] at hbefore
  exact irrefl_of (fun first second : κ => first < second) key hbefore

variable [DecidableLT κ]

/-- A change keeps the order. -/
theorem Ascending.alter (h : catalog.Ascending) (key : κ) (change : Option α → α) :
    (catalog.alter key change).Ascending := by
  rcases catalog with ⟨entries⟩
  simp only [Ascending, Catalog.alter] at h ⊢
  induction entries with
  | nil => exact List.pairwise_singleton _ _
  | cons entry entries ih =>
    rcases entry with ⟨present, found⟩
    rcases List.pairwise_cons.mp h with ⟨hfirst, hrest⟩
    rw [alterEntries]
    split
    · exact List.pairwise_cons.mpr ⟨hfirst, hrest⟩
    rename_i hother
    split
    · rename_i hless
      refine List.pairwise_cons.mpr ⟨fun entry hentry => ?_, h⟩
      rcases List.mem_cons.mp hentry with rfl | hentry
      · exact hless
      · exact trans_of (fun first second : κ => first < second) hless (hfirst entry hentry)
    · rename_i hnot
      have hbehind : present < key :=
        ((trichotomous_of (fun first second : κ => first < second) key present).resolve_left
          hnot).resolve_left hother
      refine List.pairwise_cons.mpr ⟨fun entry hentry => ?_, ih hrest⟩
      rcases mem_keys_alterEntries (List.mem_map_of_mem hentry) with hkey | hkey
      · rw [hkey]
        exact hbehind
      · rcases List.mem_map.mp hkey with ⟨old, hold, hsame⟩
        rw [← hsame]
        exact hfirst old hold

/-- Setting a value keeps the order. -/
theorem Ascending.insert (h : catalog.Ascending) (key : κ) (value : α) :
    (catalog.insert key value).Ascending := h.alter key _

/-- Offering a value keeps the order. -/
theorem Ascending.insertNew (h : catalog.Ascending) (key : κ) (value : α) :
    (catalog.insertNew key value).Ascending := h.alter key _

/-- A change is made to what a look-up finds. -/
theorem Ascending.alter_congr (h : catalog.Ascending) {change other : Option α → α}
    (hchange : change (catalog.find? key) = other (catalog.find? key)) :
    catalog.alter key change = catalog.alter key other := by
  rcases catalog with ⟨entries⟩
  simp only [Ascending, Catalog.alter, Catalog.mk.injEq] at h hchange ⊢
  induction entries with
  | nil => exact congrArg (fun value => [(key, value)]) hchange
  | cons entry entries ih =>
    rcases entry with ⟨present, found⟩
    rcases List.pairwise_cons.mp h with ⟨hfirst, hrest⟩
    rw [alterEntries, alterEntries]
    by_cases hsame : key = present
    · rw [if_pos hsame, if_pos hsame]
      rw [find?, List.find?_cons_of_pos (by simpa using hsame.symm)] at hchange
      exact congrArg (fun value => (present, value) :: entries) hchange
    rw [if_neg hsame, if_neg hsame]
    by_cases hless : key < present
    · rw [if_pos hless, if_pos hless]
      rw [find?_eq_none_of_lt hfirst hless] at hchange
      exact congrArg (fun value => (key, value) :: (present, found) :: entries) hchange
    · rw [if_neg hless, if_neg hless]
      rw [find?, List.find?_cons_of_neg (by simpa using Ne.symm hsame)] at hchange
      exact congrArg ((present, found) :: ·) (ih hrest hchange)

/-- A change that keeps what a look-up finds keeps the catalogue. -/
theorem Ascending.alter_self (h : catalog.Ascending) {change : Option α → α}
    (hfound : catalog.find? key = some value) (hchange : change (some value) = value) :
    catalog.alter key change = catalog := by
  rcases catalog with ⟨entries⟩
  simp only [Ascending, Catalog.alter, Catalog.mk.injEq] at h ⊢
  induction entries with
  | nil => cases hfound
  | cons entry entries ih =>
    rcases entry with ⟨present, found⟩
    rcases List.pairwise_cons.mp h with ⟨hfirst, hrest⟩
    rw [alterEntries]
    by_cases hsame : key = present
    · rw [find?, List.find?_cons_of_pos (by simpa using hsame.symm)] at hfound
      cases hfound
      rw [if_pos hsame, hchange]
    rw [if_neg hsame]
    by_cases hless : key < present
    · rw [find?_eq_none_of_lt hfirst hless] at hfound
      cases hfound
    · rw [if_neg hless]
      rw [find?, List.find?_cons_of_neg (by simpa using Ne.symm hsame)] at hfound
      exact congrArg ((present, found) :: ·) (ih hrest hfound)

/-- A new value is not taken where there is one. -/
theorem Ascending.insertNew_of_some (h : catalog.Ascending)
    (hfound : catalog.find? key = some value) (other : α) :
    catalog.insertNew key other = catalog := h.alter_self hfound rfl

/-- A new value is set where there is none. -/
theorem Ascending.insertNew_of_none (h : catalog.Ascending) (hnone : catalog.find? key = none)
    (value : α) : catalog.insertNew key value = catalog.insert key value :=
  h.alter_congr (by rw [hnone]; rfl)

end Order

/-- Texts are in one order. -/
instance : IsStrictTotalOrder String fun first second => first < second where
  trichotomous := Std.Trichotomous.trichotomous (r := fun first second : String => first < second)
  irrefl := String.lt_irrefl
  trans _ _ _ := String.lt_trans

end Catalog

end SampleDemux
