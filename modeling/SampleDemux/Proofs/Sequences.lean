import Mathlib.Algebra.Order.BigOperators.Group.List
import Mathlib.Algebra.Order.Ring.Nat
import Mathlib.Data.List.Forall2
import Mathlib.Data.List.Nodup

/-!
# Lists

General facts about lists, of which nothing speaks of samples or files: lists that are mapped as
long as nothing fails, lists that are related one by one, lists in which one element is changed,
elements at their places, lists that are sorted by a number or split at a separator. At last, what
is done with the elements in turn goes on to the end or stops at the first element that does not
allow it, where a property of an element may depend on the elements before it.
-/

namespace SampleDemux

section Mapped

variable {α β ε : Type} {f : α → Except ε β}

/-- Everything can be mapped if each thing can. -/
theorem exists_mapM_eq_ok {elements : List α}
    (h : ∀ element ∈ elements, ∃ image, f element = .ok image) :
    ∃ mapped, elements.mapM f = .ok mapped := by
  induction elements with
  | nil => exact ⟨[], rfl⟩
  | cons element elements ih =>
    rcases List.forall_mem_cons.mp h with ⟨⟨image, himage⟩, hrest⟩
    rcases ih hrest with ⟨images, himages⟩
    refine ⟨image :: images, ?_⟩
    rw [List.mapM_cons, himage, himages]
    rfl

/-- What can be mapped one by one can be mapped. -/
theorem mapM_eq_ok_of_forall₂ {elements : List α} {mapped : List β}
    (h : List.Forall₂ (fun element image => f element = .ok image) elements mapped) :
    elements.mapM f = .ok mapped := by
  induction h with
  | nil => rfl
  | cons hfirst _ ih =>
    rw [List.mapM_cons, hfirst, ih]
    rfl

/-- Everything that was mapped without an error, one by one. -/
theorem forall₂_of_mapM_eq_ok {elements : List α} {mapped : List β}
    (h : elements.mapM f = .ok mapped) :
    List.Forall₂ (fun element image => f element = .ok image) elements mapped := by
  induction elements generalizing mapped with
  | nil =>
    cases h
    exact .nil
  | cons element elements ih =>
    rw [List.mapM_cons] at h
    cases hfirst : f element with
    | error error =>
      rw [hfirst] at h
      cases h
    | ok image =>
      rw [hfirst] at h
      cases hrest : elements.mapM f with
      | error error =>
        rw [hrest] at h
        cases h
      | ok images =>
        rw [hrest] at h
        cases h
        exact .cons hfirst (ih hrest)

/-- Mapping stops at the first thing that cannot be mapped. -/
theorem mapM_eq_error {error : ε} {before after : List α} {failing : α}
    (hbefore : ∀ element ∈ before, ∃ image, f element = .ok image)
    (hfailing : f failing = .error error) : (before ++ failing :: after).mapM f = .error error := by
  induction before with
  | nil =>
    rw [List.nil_append, List.mapM_cons, hfailing]
    rfl
  | cons element before ih =>
    rcases List.forall_mem_cons.mp hbefore with ⟨⟨image, himage⟩, hrest⟩
    rw [List.cons_append, List.mapM_cons, himage, ih hrest]
    rfl

end Mapped

section Related

variable {α β γ : Type} {related : α → β → Prop} {left : List α} {right : List β}

/-- Lists that are related one by one are related at every place. -/
theorem exists_getElem?_of_forall₂ (h : List.Forall₂ related left right) {index : ℕ} {first : α}
    (hfirst : left[index]? = some first) :
    ∃ second, right[index]? = some second ∧ related first second := by
  induction h generalizing index with
  | nil => cases hfirst
  | cons hrelated _ ih =>
    cases index with
    | zero =>
      rw [List.getElem?_cons_zero, Option.some_inj] at hfirst
      subst hfirst
      exact ⟨_, rfl, hrelated⟩
    | succ index => exact ih hfirst

/-- Of lists that are related one by one every element on the right has one on the left. -/
theorem exists_mem_of_forall₂ (h : List.Forall₂ related left right) {second : β}
    (hsecond : second ∈ right) : ∃ first ∈ left, related first second := by
  obtain ⟨index, hindex⟩ := List.getElem?_of_mem hsecond
  obtain ⟨first, hfirst, hrelated⟩ := exists_getElem?_of_forall₂ h.flip hindex
  exact ⟨first, List.mem_of_getElem? hfirst, hrelated⟩

/-- What holds of everything that is related to something holds of a list that is related to one. -/
theorem forall_mem_of_forall₂ {holds : β → Prop} (h : List.Forall₂ related left right)
    (hholds : ∀ first second, related first second → holds second) :
    ∀ second ∈ right, holds second := by
  intro second hsecond
  obtain ⟨first, -, hrelated⟩ := exists_mem_of_forall₂ h hsecond
  exact hholds first second hrelated

/-- Lists that are related one by one have equal images, if related elements have. -/
theorem map_eq_of_forall₂ {first : α → γ} {second : β → γ}
    (h : List.Forall₂ related left right)
    (hsame : ∀ one ∈ left, ∀ two, related one two → first one = second two) :
    left.map first = right.map second := by
  induction h with
  | nil => rfl
  | cons hrelated _ ih =>
    rcases List.forall_mem_cons.mp hsame with ⟨hfirst, hrest⟩
    rw [List.map_cons, List.map_cons, hfirst _ hrelated, ih hrest]

/-- Lists that are related one by one give equal lists piece by piece. -/
theorem flatMap_eq_of_forall₂ {first : α → List γ} {second : β → List γ}
    (h : List.Forall₂ related left right)
    (hpieces : ∀ {one two}, related one two → first one = second two) :
    left.flatMap first = right.flatMap second := by
  have hmap : left.map first = right.map second :=
    map_eq_of_forall₂ h fun _ _ _ hrelated => hpieces hrelated
  rw [List.flatMap_def, List.flatMap_def, hmap]

/-- Lists that are related one by one through a third are related one by one. -/
theorem forall₂_comp {first : α → β → Prop} {second : β → γ → Prop} {both : α → γ → Prop}
    {left : List α} {middle : List β} {right : List γ} (h : List.Forall₂ first left middle)
    (hnext : List.Forall₂ second middle right)
    (hcomp : ∀ {one two three}, first one two → second two three → both one three) :
    List.Forall₂ both left right := by
  induction h generalizing right with
  | nil =>
    cases hnext
    exact .nil
  | cons hfirst _ ih =>
    cases hnext with
    | cons hsecond hrest => exact .cons (hcomp hfirst hsecond) (ih hrest)

/-- Lists that are related one by one can be parted at the same place. -/
theorem exists_parts_of_forall₂ {front back : List α} {first : α} {others : List β}
    (h : List.Forall₂ related (front ++ first :: back) others) :
    ∃ before second behind, others = before ++ second :: behind ∧
      List.Forall₂ related front before ∧ related first second := by
  induction front generalizing others with
  | nil =>
    cases h with
    | cons hfirst _ => exact ⟨[], _, _, rfl, .nil, hfirst⟩
  | cons element front ih =>
    cases h with
    | cons helement hrest =>
      obtain ⟨before, second, behind, rfl, hbefore, hsecond⟩ := ih hrest
      exact ⟨_ :: before, second, behind, rfl, .cons helement hbefore, hsecond⟩

/-- Lists that are related one by one after one element was set are related before, if the related
element is changed accordingly. -/
theorem forall₂_modify_of_set {place : ℕ} {element later : α} {change : β → β}
    (h : List.Forall₂ related (left.set place later) right)
    (hplace : left[place]? = some element)
    (hchange : ∀ other, related later other → related element (change other)) :
    List.Forall₂ related left (right.modify place change) := by
  rcases List.getElem?_eq_some_iff.mp hplace with ⟨hbound, helement⟩
  rcases List.forall₂_iff_get.mp h with ⟨hlength, hat⟩
  rw [List.length_set] at hlength
  refine List.forall₂_iff_get.mpr ⟨by rw [List.length_modify, hlength], fun other hl hr => ?_⟩
  have hrelated := hat other (by rwa [List.length_set]) (by rwa [List.length_modify] at hr)
  simp only [List.get_eq_getElem, List.getElem_set, List.getElem_modify] at hrelated ⊢
  by_cases hsame : place = other
  · subst hsame
    rw [if_pos rfl] at hrelated ⊢
    rw [helement]
    exact hchange _ hrelated
  · rw [if_neg hsame] at hrelated ⊢
    exact hrelated

end Related

section Changed

variable {α β : Type}

/-- Replacing one element leaves an image of the elements that does not tell them apart. -/
theorem map_set_of_eq {elements : List α} {place : ℕ} {element other : α}
    (h : elements[place]? = some element) {image : α → β} (himage : image other = image element) :
    (elements.set place other).map image = elements.map image := by
  obtain ⟨hbound, rfl⟩ := List.getElem?_eq_some_iff.mp h
  rw [List.map_set, himage, ← List.map_set, List.set_getElem_self]

/-- Changing one element changes its image. -/
theorem map_modify (image : α → β) (change : α → α) (changed : β → β)
    (h : ∀ element, image (change element) = changed (image element)) (elements : List α)
    (place : ℕ) :
    (elements.modify place change).map image = (elements.map image).modify place changed := by
  refine List.ext_getElem? fun other => ?_
  rw [List.getElem?_map, List.getElem?_modify, List.getElem?_modify, List.getElem?_map]
  split <;> cases elements[other]? <;> simp [h]

/-- Replacing one element changes one element of an image. -/
theorem map_eq_modify_set (image : α → β) (change : β → β) {elements : List α}
    {place : ℕ} {element other : α} (h : elements[place]? = some element)
    (himage : image element = change (image other)) :
    elements.map image = ((elements.set place other).map image).modify place change := by
  refine List.ext_getElem? fun index => ?_
  rw [List.getElem?_modify, List.getElem?_map, List.getElem?_map, List.getElem?_set]
  by_cases hsame : place = index
  · subst hsame
    have hbound := (List.getElem?_eq_some_iff.mp h).1
    rw [h]
    simp [hbound, himage]
  · simp [hsame]

end Changed

section Kept

variable {α β γ : Type} {keep : α × β → Bool}

/-- What is kept beside other things is a part of what was there. -/
theorem kept_sublist (left : List α) (right : List β) :
    ((left.zip right).filter keep |>.map (·.1)).Sublist left := by
  induction left generalizing right with
  | nil => exact .refl _
  | cons one left ih =>
    cases right with
    | nil => exact List.nil_sublist _
    | cons two right =>
      rw [List.zip_cons_cons, List.filter_cons]
      split
      · exact (ih right).cons_cons one
      · exact (ih right).cons one

/-- Leaving out what has no pieces leaves the pieces. -/
theorem kept_flatMap {related : α → β → Prop} {left : List α} {right : List β}
    (h : List.Forall₂ related left right) {pieces : α → List γ}
    (hnone : ∀ one ∈ left, ∀ two, related one two → keep (one, two) = false → pieces one = []) :
    ((left.zip right).filter keep |>.map (·.1)).flatMap pieces = left.flatMap pieces := by
  induction h with
  | nil => rfl
  | @cons one two left right hrelated _ ih =>
    rcases List.forall_mem_cons.mp hnone with ⟨hfirst, hrest⟩
    rw [List.zip_cons_cons, List.filter_cons]
    cases hkeep : keep (one, two) with
    | true => rw [if_pos rfl, List.map_cons, List.flatMap_cons, List.flatMap_cons, ih hrest]
    | false =>
      rw [if_neg Bool.false_ne_true, List.flatMap_cons, hfirst two hrelated hkeep, ih hrest,
        List.nil_append]

end Kept

section Indexed

variable {α β : Type} {items : List α} {made : ℕ → α → List β}

/-- What is made of items and their places. -/
theorem mem_flatten_mapIdx {result : β} :
    result ∈ (items.mapIdx made).flatten ↔
      ∃ place item, items[place]? = some item ∧ result ∈ made place item := by
  simp only [List.mem_flatten, List.mem_mapIdx]
  constructor
  · rintro ⟨results, ⟨place, hplace, rfl⟩, hmem⟩
    exact ⟨place, items[place], List.getElem?_eq_getElem hplace, hmem⟩
  · rintro ⟨place, item, hitem, hmem⟩
    rcases List.getElem?_eq_some_iff.mp hitem with ⟨hplace, rfl⟩
    exact ⟨made place items[place], ⟨place, hplace, rfl⟩, hmem⟩

/-- What is made of items stands in an order when it does for each item and for each two of them. -/
theorem pairwise_flatten_mapIdx {follows : β → β → Prop}
    (hinner : ∀ place item, items[place]? = some item → (made place item).Pairwise follows)
    (houter : ∀ place item next other, items[place]? = some item → items[next]? = some other →
      place < next → ∀ first ∈ made place item, ∀ second ∈ made next other,
        follows first second) :
    ((items.mapIdx made).flatten).Pairwise follows := by
  refine List.pairwise_flatten.mpr ⟨fun results hresults => ?_, ?_⟩
  · rcases List.mem_mapIdx.mp hresults with ⟨place, hplace, rfl⟩
    exact hinner place _ (List.getElem?_eq_getElem hplace)
  · refine List.pairwise_iff_getElem.mpr fun place next hplace hnext hlt => ?_
    rw [List.length_mapIdx] at hplace hnext
    rw [List.getElem_mapIdx, List.getElem_mapIdx]
    exact houter place _ next _ (List.getElem?_eq_getElem hplace) (List.getElem?_eq_getElem hnext)
      hlt

/-- A count of the items up to a place is that of the items before it and of the item there. -/
theorem sum_map_take_succ {count : α → ℕ} {item : α} {place : ℕ}
    (hitem : items[place]? = some item) :
    ((items.take (place + 1)).map count).sum =
      ((items.take place).map count).sum + count item := by
  rw [List.take_add_one, hitem, Option.toList_some, List.map_append]
  simp

/-- A count grows from place to place. -/
theorem sum_map_take_le (count : α → ℕ) {place next : ℕ} (hle : place ≤ next) :
    ((items.take place).map count).sum ≤ ((items.take next).map count).sum :=
  ((List.take_sublist_take_left hle).map count).sum_le_sum fun _ _ => Nat.zero_le _

/-- A count of the items before a place is at most that of all items. -/
theorem sum_map_take_le_sum (count : α → ℕ) (place : ℕ) :
    ((items.take place).map count).sum ≤ (items.map count).sum :=
  ((List.take_sublist place items).map count).sum_le_sum fun _ _ => Nat.zero_le _

end Indexed

section Places

variable {α : Type}

/-- Lists of one length that are not equal differ at a place. -/
theorem exists_getElem?_ne {first second : List α} (hlength : first.length = second.length)
    (h : first ≠ second) :
    ∃ (place : ℕ) (left right : α), first[place]? = some left ∧ second[place]? = some right ∧
      left ≠ right := by
  by_contra! hsame
  refine h (List.ext_getElem hlength fun place hfirst hsecond => ?_)
  exact hsame place _ _ (List.getElem?_eq_getElem hfirst) (List.getElem?_eq_getElem hsecond)

/-- Of two parts at different places one is empty, if that is so for the first and the second of any
two. -/
theorem getD_eq_nil_or {parts : List (List α)}
    (hparts : parts.Pairwise fun first second => first = [] ∨ second = [])
    {tag other : ℕ} (hne : tag ≠ other) :
    (parts[tag]?).getD [] = [] ∨ (parts[other]?).getD [] = [] := by
  cases htag : parts[tag]? with
  | none => exact .inl rfl
  | some part =>
    cases hother : parts[other]? with
    | none => exact .inr rfl
    | some rest =>
      rcases List.getElem?_eq_some_iff.mp htag with ⟨hboundTag, rfl⟩
      rcases List.getElem?_eq_some_iff.mp hother with ⟨hboundOther, rfl⟩
      have hat := List.pairwise_iff_getElem.mp hparts
      rcases Nat.lt_or_gt_of_ne hne with hlt | hlt
      · exact hat tag other hboundTag hboundOther hlt
      · exact (hat other tag hboundOther hboundTag hlt).symm

/-- In a list in an order, the places of items are as the order says. -/
theorem idxOf_lt_idxOf_iff [DecidableEq α] {items : List α} {precedes : α → α → Prop}
    (hitems : items.Pairwise precedes) (first second : α)
    (hasymm : precedes first second → ¬ precedes second first)
    (hne : first ≠ second) (hfirst : first ∈ items) (hsecond : second ∈ items) :
    items.idxOf first < items.idxOf second ↔ precedes first second := by
  have hplaces (a b : α) (ha : a ∈ items) (hb : b ∈ items)
      (hlt : items.idxOf a < items.idxOf b) : precedes a b := by
    have hrelated := List.pairwise_iff_getElem.mp hitems _ _ (List.idxOf_lt_length_of_mem ha)
      (List.idxOf_lt_length_of_mem hb) hlt
    rwa [List.getElem_idxOf, List.getElem_idxOf] at hrelated
  refine ⟨hplaces first second hfirst hsecond, fun hprecedes => ?_⟩
  rcases Nat.lt_trichotomy (items.idxOf first) (items.idxOf second) with hlt | heq | hgt
  · exact hlt
  · exact absurd (List.idxOf_inj hfirst |>.mp heq) hne
  · exact absurd (hplaces second first hsecond hfirst hgt) (hasymm hprecedes)

/-- An element that was there adds nothing. -/
theorem mem_append_cons_iff {element : α} {before : List α} (h : element ∈ before)
    {after : List α} (other : α) :
    other ∈ before ++ after ↔ other ∈ before ++ element :: after := by
  simp only [List.mem_append, List.mem_cons]
  constructor
  · exact Or.imp_right .inr
  · rintro (hother | rfl | hother)
    · exact .inl hother
    · exact .inl h
    · exact .inr hother

end Places

section Sorted

variable {α : Type}

/-- First components are compared transitively. -/
theorem fst_le_trans (first second third : ℕ × α) (hfirst : decide (first.1 ≤ second.1) = true)
    (hsecond : decide (second.1 ≤ third.1) = true) : decide (first.1 ≤ third.1) = true := by
  simp only [decide_eq_true_eq] at hfirst hsecond ⊢
  omega

/-- Of two first components one is at most the other. -/
theorem fst_le_total (first second : ℕ × α) :
    (decide (first.1 ≤ second.1) || decide (second.1 ≤ first.1)) = true := by
  simp only [Bool.or_eq_true, decide_eq_true_eq]
  omega

/-- Sorting by number brings the numbers into their order. -/
theorem pairwise_mergeSort_fst (pairs : List (ℕ × α)) :
    (pairs.mergeSort fun a b => decide (a.1 ≤ b.1)).Pairwise
      fun first second => first.1 ≤ second.1 :=
  (List.pairwise_mergeSort fst_le_trans fst_le_total pairs).imp of_decide_eq_true

/-- Sorting by number brings some pairs into the one order in which their numbers rise, if there is
one. -/
theorem filter_mergeSort_eq {pairs chosen : List (ℕ × α)} {keep : ℕ × α → Bool}
    (hperm : chosen.Perm (pairs.filter keep))
    (hrising : chosen.Pairwise fun first second => first.1 < second.1) :
    (pairs.mergeSort fun a b => decide (a.1 ≤ b.1)).filter keep = chosen := by
  have hkept : ((pairs.mergeSort fun a b => decide (a.1 ≤ b.1)).filter keep).Perm chosen :=
    ((List.mergeSort_perm pairs _).filter keep).trans hperm.symm
  have hdistinct : (chosen.map Prod.fst).Nodup :=
    List.pairwise_map.mpr (hrising.imp Nat.ne_of_lt)
  refine List.Perm.eq_of_pairwise (fun first second hfirst hsecond hle hge => ?_)
    ((pairwise_mergeSort_fst pairs).filter keep) (hrising.imp Nat.le_of_lt) hkept
  exact List.inj_on_of_nodup_map hdistinct (hkept.mem_iff.mp hfirst) hsecond
    (Nat.le_antisymm hle hge)

/-- Sorting by number changes nothing among pairs of one number. -/
theorem filter_mergeSort_fst (pairs : List (ℕ × α)) (number : ℕ) :
    (pairs.mergeSort fun a b => decide (a.1 ≤ b.1)).filter (fun pair => pair.1 == number) =
      pairs.filter fun pair => pair.1 == number := by
  have hequal : (pairs.filter fun pair => pair.1 == number).Pairwise
      fun first second => decide (first.1 ≤ second.1) = true := by
    refine List.pairwise_of_forall_mem_list fun first hfirst second hsecond => ?_
    rw [eq_of_beq (List.mem_filter.mp hfirst).2, eq_of_beq (List.mem_filter.mp hsecond).2]
    exact decide_eq_true le_rfl
  have hkept := (List.sublist_mergeSort fst_le_trans fst_le_total hequal
    List.filter_sublist).filter fun pair => pair.1 == number
  rw [List.filter_filter] at hkept
  simp only [Bool.and_self] at hkept
  have hlength := ((List.mergeSort_perm pairs fun a b => decide (a.1 ≤ b.1)).filter
    fun pair => pair.1 == number).length_eq
  exact (hkept.eq_of_length hlength.symm).symm

end Sorted

section Split

variable {α : Type} [BEq α] [LawfulBEq α] {separator element : α} {rest part : List α}
  {parts : List (List α)}

/-- An element that does not separate begins the first part. -/
theorem splitOn_cons_of_ne (hne : element ≠ separator)
    (h : rest.splitOn separator = part :: parts) :
    (element :: rest).splitOn separator = (element :: part) :: parts := by
  have hother : ¬(element == separator) = true := fun helement => hne (beq_iff_eq.mp helement)
  rw [List.splitOn_cons_eq_if_modifyHead, if_neg hother, h, List.modifyHead_cons]

/-- A part has no separators. -/
theorem not_mem_of_mem_splitOn {whole : List α} (h : part ∈ whole.splitOn separator) :
    separator ∉ part := by
  induction whole generalizing part with
  | nil =>
    rw [List.splitOn_nil, List.mem_singleton] at h
    rw [h]
    exact List.not_mem_nil
  | cons element rest ih =>
    by_cases hseparator : element = separator
    · rw [hseparator, List.splitOn_cons_eq_if_modifyHead, if_pos BEq.rfl] at h
      rcases List.mem_cons.mp h with rfl | hrest
      · exact List.not_mem_nil
      · exact ih hrest
    · obtain ⟨first, others, hparts⟩ :=
        List.exists_cons_of_ne_nil (List.splitOn_ne_nil separator rest)
      rw [splitOn_cons_of_ne hseparator hparts] at h
      rw [hparts] at ih
      rcases List.mem_cons.mp h with rfl | hother
      · exact List.not_mem_cons_of_ne_of_not_mem (Ne.symm hseparator) (ih List.mem_cons_self)
      · exact ih (List.mem_cons_of_mem _ hother)

/-- A list whose first part is empty has no elements or begins with a separator. -/
theorem eq_nil_or_cons_of_splitOn {whole : List α} (h : whole.splitOn separator = [] :: parts) :
    whole = [] ∨ ∃ rest, whole = separator :: rest := by
  rcases whole with _ | ⟨element, rest⟩
  · exact .inl rfl
  by_cases hseparator : element = separator
  · exact .inr ⟨rest, by rw [hseparator]⟩
  obtain ⟨part, others, hparts⟩ :=
    List.exists_cons_of_ne_nil (List.splitOn_ne_nil separator rest)
  rw [splitOn_cons_of_ne hseparator hparts] at h
  cases h

end Split

/-- Every element of a list is good behind the elements before it. -/
def EachBehind {α : Type} (good : List α → α → Prop) (list : List α) : Prop :=
  ∀ front element rest, list = front ++ element :: rest → good front element

section EachBehind

variable {α : Type} {good : List α → α → Prop} {list : List α}

/-- Nothing is bad in a list without elements. -/
theorem eachBehind_nil : EachBehind good [] := by
  intro front element rest hlist
  exact absurd hlist.symm (List.append_ne_nil_of_right_ne_nil front (List.cons_ne_nil element rest))

/-- The first element stands behind nothing, and before all others. -/
theorem eachBehind_cons {first : α} :
    EachBehind good (first :: list) ↔
      good [] first ∧ EachBehind (fun front => good (first :: front)) list := by
  constructor
  · intro h
    refine ⟨h [] first list rfl, fun front element rest hlist => ?_⟩
    exact h (first :: front) element rest (congrArg (first :: ·) hlist)
  · rintro ⟨hfirst, hlist⟩ front element rest hall
    cases front with
    | nil =>
      cases hall
      exact hfirst
    | cons other front =>
      obtain ⟨rfl, hrest⟩ := List.cons.inj hall
      exact hlist front element rest hrest

/-- What follows for one element follows for each. -/
theorem EachBehind.imp {better : List α → α → Prop} (h : EachBehind good list)
    (himp : ∀ front element, good front element → better front element) :
    EachBehind better list :=
  fun front element rest hlist => himp front element (h front element rest hlist)

/-- Either every element is good behind those before it, or there is a first one that is not. -/
theorem eachBehind_or_exists (good : List α → α → Prop) (list : List α) :
    EachBehind good list ∨ ∃ front element rest,
      list = front ++ element :: rest ∧ EachBehind good front ∧ ¬good front element := by
  induction list generalizing good with
  | nil => exact .inl eachBehind_nil
  | cons first list ih =>
    by_cases hfirst : good [] first
    · rcases ih fun front => good (first :: front) with
        hall | ⟨front, element, rest, rfl, hfront, helement⟩
      · exact .inl (eachBehind_cons.mpr ⟨hfirst, hall⟩)
      · exact .inr ⟨first :: front, element, rest, rfl, eachBehind_cons.mpr ⟨hfirst, hfront⟩,
          helement⟩
    · exact .inr ⟨[], first, list, rfl, eachBehind_nil, hfirst⟩

/-- Either all elements are good, or there is a first one that is not. -/
theorem forall_or_exists_first (good : α → Prop) (list : List α) :
    (∀ element ∈ list, good element) ∨ ∃ before failing after,
      list = before ++ failing :: after ∧ (∀ element ∈ before, good element) ∧ ¬good failing := by
  have hmem {elements : List α} (h : EachBehind (fun _ => good) elements) :
      ∀ element ∈ elements, good element := by
    intro element helement
    obtain ⟨front, rest, hsplit⟩ := List.append_of_mem helement
    exact h front element rest hsplit
  rcases eachBehind_or_exists (fun _ => good) list with
    hall | ⟨before, failing, after, hlist, hbefore, hfailing⟩
  · exact .inl (hmem hall)
  · exact .inr ⟨before, failing, after, hlist, hmem hbefore, hfailing⟩

end EachBehind

end SampleDemux
