import SampleDemux.Proofs.Interleaving

/-!
# Processes that deliver to sinks of their own

A process with sinks of its own depends on these sinks and changes no others: in registries in which
they keep the same it comes to the same result and leaves them with the same. So if no two processes
have a sink in common, running them by turns makes no difference for any of them, whatever the
schedule and whatever the others come to: each one ends as it does when it is run alone.
-/

namespace SampleDemux

namespace Registry

variable {W S : Type} {kind : SinkKind W S} {setting : Setting W S} {mine : ℕ → Prop}
  {registry other third : Registry W S}

/-- In two registries the sinks of some numbers keep the same. -/
def AgreeOn (mine : ℕ → Prop) (registry other : Registry W S) : Prop :=
  ∀ number, mine number → registry.made[number]? = other.made[number]?

/-- A registry agrees with itself. -/
theorem AgreeOn.refl (mine : ℕ → Prop) (registry : Registry W S) : AgreeOn mine registry registry :=
  fun _ _ => rfl

/-- Registries that agree with the same one agree. -/
theorem AgreeOn.trans (h : AgreeOn mine registry other) (hnext : AgreeOn mine other third) :
    AgreeOn mine registry third :=
  fun number hnumber => (h number hnumber).trans (hnext number hnumber)

/-- Registries agree on fewer sinks. -/
theorem AgreeOn.mono {fewer : ℕ → Prop} (h : AgreeOn mine registry other)
    (hfewer : ∀ number, fewer number → mine number) : AgreeOn fewer registry other :=
  fun number hnumber => h number (hfewer number hnumber)

/-- A sample changes no sink but the one that it is given to. -/
theorem agreeOn_consume (kind : SinkKind W S) (registry : Registry W S) (number : ℕ)
    (sample : Sample) (record : StreamRecord) :
    AgreeOn (· ≠ number) (registry.consume kind number sample record).2 registry := by
  intro place hplace
  unfold consume
  split
  · rfl
  · exact List.getElem?_set_ne (Ne.symm hplace)

/-- Where a sink keeps the same it replies the same to a sample and keeps the same then. -/
theorem AgreeOn.consume (hkind : kind.Isolated setting) (hworld : setting.usable registry.world)
    (hother : setting.usable other.world) (h : AgreeOn mine registry other)
    {delivery : Delivery} (hmine : mine delivery.sink) :
    (registry.consume kind delivery.sink delivery.sample delivery.record).1 =
        (other.consume kind delivery.sink delivery.sample delivery.record).1 ∧
      AgreeOn mine (registry.consume kind delivery.sink delivery.sample delivery.record).2
        (other.consume kind delivery.sink delivery.sample delivery.record).2 := by
  have hsink := h delivery.sink hmine
  constructor
  · unfold Registry.consume
    rw [hsink]
    cases other.made[delivery.sink]? with
    | none => rfl
    | some sink =>
      have hreply := (hkind.consume sink.state delivery.sample delivery.record _ hworld).1
      have hothers := (hkind.consume sink.state delivery.sample delivery.record _ hother).1
      exact hreply.trans hothers.symm
  · intro number hnumber
    rw [made_consume hkind hworld, made_consume hkind hother, h number hnumber]

end Registry

namespace Process

variable {α : Type} {W S : Type} {kind : SinkKind W S} {setting : Setting W S}
  {failed : α → Prop} {process : Process α} {registry other : Registry W S}

/-- Whether a sink panics when a process is run. -/
def panics (kind : SinkKind W S) : Process α → Registry W S → Bool
  | done _, _ => false
  | deliver delivery next, registry =>
    let (reply, registry) := registry.consume kind delivery.sink delivery.sample delivery.record
    decide (reply = .panicked) || panics kind (next reply) registry
  | look part next, registry => panics kind (next (kind.look part registry.world)) registry

/-- What is left of an orderly process after any reply is orderly. -/
theorem Orderly.next {owns : Delivery → Prop} {reads : Location → Prop} {delivery : Delivery}
    {next : Reply → Process α} (h : (Process.deliver delivery next).Orderly owns reads failed)
    (reply : Reply) : (next reply).Orderly owns reads failed := by
  cases h with
  | deliver _ hrefused haccepted =>
    by_cases hreply : reply = .accepted
    · rw [hreply]
      exact haccepted
    · obtain ⟨result, hdone, -⟩ := hrefused reply hreply
      rw [hdone]
      exact .done result

section Alone

variable {mine : ℕ → Prop}

/-- A process changes no sinks but its own. -/
theorem agreeOn_run
    (h : process.Orderly (fun delivery => mine delivery.sink) setting.inputs failed)
    (registry : Registry W S) :
    Registry.AgreeOn (fun number => ¬mine number) (process.run kind registry).2 registry := by
  induction process generalizing registry with
  | done result => exact .refl _ registry
  | deliver delivery next ih =>
    have hdelivery : mine delivery.sink := by
      cases h with
      | deliver hdelivery _ _ => exact hdelivery
    have hfirst := Registry.agreeOn_consume kind registry delivery.sink delivery.sample
      delivery.record
    refine (ih _ (h.next _) _).trans (hfirst.mono fun number hnumber hsame => ?_)
    rw [hsame] at hnumber
    exact hnumber hdelivery
  | look part next ih =>
    cases h with
    | look _ hnext => exact ih _ (hnext _) registry

/-- A step of a process changes no sinks but its own. -/
theorem agreeOn_step
    (h : process.Orderly (fun delivery => mine delivery.sink) setting.inputs failed)
    (registry : Registry W S) :
    Registry.AgreeOn (fun number => ¬mine number) (process.step kind registry).2 registry := by
  cases h with
  | done result => exact .refl _ registry
  | deliver hdelivery _ _ =>
    refine (Registry.agreeOn_consume kind registry _ _ _).mono fun number hnumber hsame => ?_
    rw [hsame] at hnumber
    exact hnumber hdelivery
  | look _ _ => exact .refl _ registry

/-- A process that is run leaves what the sinks share as it should be. -/
theorem run_usable (hkind : kind.Isolated setting) (hworld : setting.usable registry.world)
    (process : Process α) : setting.usable (process.run kind registry).2.world := by
  induction process generalizing registry with
  | done result => exact hworld
  | deliver delivery next ih =>
    exact ih _ (Registry.consume_usable hkind hworld delivery.sink delivery.sample delivery.record)
  | look part next ih => exact ih _ hworld

/-- Where its own sinks keep the same, a process comes to the same result and leaves these sinks
with the same. -/
theorem AgreeOn.run (hkind : kind.Isolated setting) (hworld : setting.usable registry.world)
    (hother : setting.usable other.world)
    (hprocess : process.Orderly (fun delivery => mine delivery.sink) setting.inputs failed)
    (h : Registry.AgreeOn mine registry other) :
    (process.run kind registry).1 = (process.run kind other).1 ∧
      Registry.AgreeOn mine (process.run kind registry).2 (process.run kind other).2 := by
  induction process generalizing registry other with
  | done result => exact ⟨rfl, h⟩
  | deliver delivery next ih =>
    have hdelivery : mine delivery.sink := by
      cases hprocess with
      | deliver hdelivery _ _ => exact hdelivery
    obtain ⟨hreply, hagree⟩ := h.consume hkind hworld hother hdelivery
    have hworldNext := Registry.consume_usable hkind hworld delivery.sink delivery.sample
      delivery.record
    have hotherNext := Registry.consume_usable hkind hother delivery.sink delivery.sample
      delivery.record
    have hrest := ih (registry.consume kind delivery.sink delivery.sample delivery.record).1
      hworldNext hotherNext (hprocess.next _) hagree
    dsimp only [Process.run]
    rwa [← hreply]
  | look part next ih =>
    cases hprocess with
    | look hpart hnext =>
      have hsame : kind.look part registry.world = kind.look part other.world := by
        rw [hkind.look _ _ hworld hpart, hkind.look _ _ hother hpart]
      have hrest := ih (kind.look part registry.world) hworld hother (hnext _) h
      dsimp only [Process.run]
      rwa [← hsame]

end Alone

/-- Orderly processes of which no two have a sink in common; the sinks of each one are given for its
place. -/
structure Separate (setting : Setting W S) (failed : α → Prop) (mine : ℕ → ℕ → Prop)
    (processes : List (Process α)) : Prop where
  /-- Every process delivers to sinks of its own. -/
  orderly : ∀ (place : ℕ) (process : Process α), processes[place]? = some process →
    process.Orderly (fun delivery => mine place delivery.sink) setting.inputs failed
  /-- A sink has one place. -/
  apart : ∀ place elsewhere number, mine place number → mine elsewhere number → place = elsewhere

/-- Processes that were run together came to the results that each of them comes to alone. -/
structure EndAlone (kind : SinkKind W S) (mine : ℕ → ℕ → Prop) (processes : List (Process α))
    (registry : Registry W S) (ends : List α × Registry W S) : Prop where
  /-- The results are those of the processes alone. -/
  results : ends.1 = processes.map fun process => (process.run kind registry).1
  /-- The sinks of a process keep what it leaves them with alone. -/
  own : ∀ (place : ℕ) (process : Process α), processes[place]? = some process →
    Registry.AgreeOn (mine place) ends.2 (process.run kind registry).2
  /-- Other sinks keep what they kept. -/
  others : Registry.AgreeOn (fun number => ∀ place < processes.length, ¬mine place number) ends.2
    registry

variable {mine : ℕ → ℕ → Prop} {processes : List (Process α)}

/-- Processes that end as they do alone come to the same results and leave the same sinks, however
they were run together. -/
theorem EndAlone.unique {ends others : List α × Registry W S}
    (h : EndAlone kind mine processes registry ends)
    (hothers : EndAlone kind mine processes registry others) :
    ends.1 = others.1 ∧ ends.2.made = others.2.made := by
  refine ⟨h.results.trans hothers.results.symm, List.ext_getElem? fun number => ?_⟩
  by_cases hmine : ∃ place < processes.length, mine place number
  · obtain ⟨place, hbound, hnumber⟩ := hmine
    have hplace := List.getElem?_eq_getElem hbound
    exact (h.own place _ hplace number hnumber).trans
      (hothers.own place _ hplace number hnumber).symm
  · have hnone : ∀ place < processes.length, ¬mine place number := fun place hbound hnumber =>
      hmine ⟨place, hbound, hnumber⟩
    exact (h.others number hnone).trans (hothers.others number hnone).symm

/-- The processes behind the first one are separate. -/
theorem Separate.tail (h : Separate setting failed mine (process :: processes)) :
    Separate setting failed (fun place => mine (place + 1)) processes where
  orderly := fun place process hplace =>
    h.orderly (place + 1) process (by rwa [List.getElem?_cons_succ])
  apart := fun place elsewhere number hplace helsewhere =>
    Nat.succ_injective (h.apart _ _ number hplace helsewhere)

/-- The first processes are separate. -/
theorem Separate.take {front back : List (Process α)}
    (h : Separate setting failed mine (front ++ back)) : Separate setting failed mine front where
  orderly := fun place process hplace => by
    have hbound := (List.getElem?_eq_some_iff.mp hplace).1
    exact h.orderly place process (by rwa [List.getElem?_append_left hbound])
  apart := h.apart

/-- The processes behind the first one do not notice that the first one was run. -/
theorem Separate.run_behind (hkind : kind.Isolated setting)
    (hworld : setting.usable registry.world)
    (h : Separate setting failed mine (process :: processes)) {place : ℕ} {later : Process α}
    (hplace : processes[place]? = some later) :
    (later.run kind (process.run kind registry).2).1 = (later.run kind registry).1 ∧
      Registry.AgreeOn (mine (place + 1)) (later.run kind (process.run kind registry).2).2
        (later.run kind registry).2 := by
  have hkept : Registry.AgreeOn (fun number => ¬mine 0 number) (process.run kind registry).2
      registry := agreeOn_run (h.orderly 0 process rfl) registry
  have horderly := h.tail.orderly place later hplace
  refine AgreeOn.run hkind (run_usable hkind hworld process) hworld horderly
    (hkept.mono fun number hnumber hzero => ?_)
  exact absurd (h.apart _ _ number hnumber hzero) (Nat.succ_ne_zero place)

/-- Separate processes that are run one after the other end as they do alone. -/
theorem Separate.runEach (hkind : kind.Isolated setting) (hworld : setting.usable registry.world)
    (h : Separate setting failed mine processes) :
    EndAlone kind mine processes registry (Process.runEach kind processes registry) := by
  induction processes generalizing registry mine with
  | nil => exact ⟨rfl, nofun, fun _ _ => rfl⟩
  | cons process processes ih =>
    have hkept : Registry.AgreeOn (fun number => ¬mine 0 number) (process.run kind registry).2
        registry := agreeOn_run (h.orderly 0 process rfl) registry
    have hrest := ih (run_usable hkind hworld process) h.tail
    refine ⟨?_, fun place later hplace => ?_, fun number hnumber => ?_⟩
    · have hresults : (Process.runEach kind processes (process.run kind registry).2).1 =
          processes.map fun later => (later.run kind registry).1 := by
        rw [hrest.results]
        refine List.map_congr_left fun later hmem => ?_
        obtain ⟨place, hplace⟩ := List.getElem?_of_mem hmem
        exact (h.run_behind hkind hworld hplace).1
      dsimp only [Process.runEach]
      rw [hresults, List.map_cons]
    · cases place with
      | zero =>
        rw [List.getElem?_cons_zero, Option.some_inj] at hplace
        subst hplace
        exact hrest.others.mono fun number hnumber elsewhere _ hother =>
          absurd (h.apart _ _ number hother hnumber) (Nat.succ_ne_zero elsewhere)
      | succ place =>
        rw [List.getElem?_cons_succ] at hplace
        exact (hrest.own place later hplace).trans (h.run_behind hkind hworld hplace).2
    · have hzero : ¬mine 0 number := hnumber 0 (Nat.succ_pos _)
      have hbehind : ∀ place < processes.length, ¬mine (place + 1) number := fun place hplace =>
        hnumber (place + 1) (Nat.succ_lt_succ hplace)
      exact (hrest.others number hbehind).trans (hkept number hzero)

/-- If only the first processes are run, the sinks of the others keep what they kept, and all
other sinks keep what they do when all processes are run. -/
theorem Separate.agreeOn_front {front back : List (Process α)}
    (h : Separate setting failed mine (front ++ back)) {ends others : List α × Registry W S}
    (hends : EndAlone kind mine front registry ends)
    (hothers : EndAlone kind mine (front ++ back) registry others) :
    Registry.AgreeOn (fun number => ∃ place ≥ front.length, mine place number) ends.2 registry ∧
      Registry.AgreeOn (fun number => ∀ place ≥ front.length, ¬mine place number) ends.2
        others.2 := by
  constructor
  · rintro number ⟨place, hbehind, hnumber⟩
    refine hends.others number fun elsewhere hbound hother => ?_
    have hsame := h.apart _ _ number hnumber hother
    omega
  · intro number hnumber
    by_cases hmine : ∃ place < front.length, mine place number
    · obtain ⟨place, hbound, hplace⟩ := hmine
      have hprocess := List.getElem?_eq_getElem hbound
      have hall : (front ++ back)[place]? = some front[place] := by
        rwa [List.getElem?_append_left hbound]
      exact (hends.own place _ hprocess number hplace).trans
        (hothers.own place _ hall number hplace).symm
    · have hnone : ∀ place, ¬mine place number := by
        intro place hplace
        by_cases hbound : place < front.length
        · exact hmine ⟨place, hbound, hplace⟩
        · exact hnumber place (Nat.le_of_not_lt hbound) hplace
      exact (hends.others number fun place _ => hnone place).trans
        (hothers.others number fun place _ => hnone place).symm

/-- What is left after a step of a process is separate. -/
theorem Separate.set {turn : ℕ} (h : Separate setting failed mine processes)
    (hturn : processes[turn]? = some process) (hkind : kind.Isolated setting)
    (hworld : setting.usable registry.world) :
    Separate setting failed mine (processes.set turn (process.step kind registry).1) := by
  refine ⟨fun place next hplace => ?_, h.apart⟩
  rw [List.getElem?_set] at hplace
  by_cases hsame : turn = place
  · subst hsame
    rw [if_pos rfl, if_pos (List.getElem?_eq_some_iff.mp hturn).1, Option.some_inj] at hplace
    rw [← hplace]
    exact (step_ends hkind hworld (h.orderly turn process hturn)).1
  · rw [if_neg hsame] at hplace
    exact h.orderly place next hplace

/-- What is left of a process after a step ends as the process does, and the others do not notice
the step. -/
theorem Separate.run_left {turn : ℕ} (h : Separate setting failed mine processes)
    (hturn : processes[turn]? = some process) (hkind : kind.Isolated setting)
    (hworld : setting.usable registry.world) {place : ℕ} {before : Process α}
    (hplace : processes[place]? = some before) :
    ∃ next, (processes.set turn (process.step kind registry).1)[place]? = some next ∧
      (next.run kind (process.step kind registry).2).1 = (before.run kind registry).1 ∧
      Registry.AgreeOn (mine place) (next.run kind (process.step kind registry).2).2
        (before.run kind registry).2 := by
  rw [List.getElem?_set]
  by_cases hsame : turn = place
  · subst hsame
    obtain rfl : process = before := Option.some_inj.mp (hturn.symm.trans hplace)
    rw [if_pos rfl, if_pos (List.getElem?_eq_some_iff.mp hturn).1]
    refine ⟨_, rfl, ?_⟩
    rw [run_step]
    exact ⟨rfl, .refl _ _⟩
  · rw [if_neg hsame]
    have hkept : Registry.AgreeOn (fun number => ¬mine turn number) (process.step kind registry).2
        registry := agreeOn_step (h.orderly turn process hturn) registry
    have horderly := h.orderly place before hplace
    exact ⟨before, hplace, AgreeOn.run hkind (step_usable hkind hworld process) hworld horderly
      (hkept.mono fun number hnumber hmine => hsame (h.apart _ _ number hmine hnumber))⟩

/-- Processes of which one has made a step end as they do alone if what is left of them does. -/
theorem Separate.endAlone_of_step {turn : ℕ} (h : Separate setting failed mine processes)
    (hturn : processes[turn]? = some process) (hkind : kind.Isolated setting)
    (hworld : setting.usable registry.world) {ends : List α × Registry W S}
    (hends : EndAlone kind mine (processes.set turn (process.step kind registry).1)
      (process.step kind registry).2 ends) :
    EndAlone kind mine processes registry ends where
  results := by
    rw [hends.results]
    refine List.ext_getElem? fun place => ?_
    rw [List.getElem?_map, List.getElem?_map]
    cases hplace : processes[place]? with
    | none =>
      have hbound := List.getElem?_eq_none_iff.mp hplace
      rw [List.getElem?_eq_none_iff.mpr (by rwa [List.length_set])]
      rfl
    | some before =>
      obtain ⟨next, hnext, hresult, -⟩ := h.run_left hturn hkind hworld hplace
      rw [hnext, Option.map_some, Option.map_some, hresult]
  own := fun place before hplace => by
    obtain ⟨next, hnext, -, hagree⟩ := h.run_left hturn hkind hworld hplace
    exact (hends.own place next hnext).trans hagree
  others := fun number hnumber => by
    have hbound := (List.getElem?_eq_some_iff.mp hturn).1
    have hkept : Registry.AgreeOn (fun number => ¬mine turn number) (process.step kind registry).2
        registry := agreeOn_step (h.orderly turn process hturn) registry
    exact (hends.others number (by rwa [List.length_set])).trans
      (hkept number (hnumber turn hbound))

/-- Separate processes that are run by turns end as they do alone, whatever the schedule. -/
theorem Separate.interleave (hkind : kind.Isolated setting)
    (hworld : setting.usable registry.world) (h : Separate setting failed mine processes)
    (schedule : List ℕ) :
    EndAlone kind mine processes registry
      (Process.interleave kind schedule processes registry) := by
  induction schedule generalizing processes registry with
  | nil => exact h.runEach hkind hworld
  | cons turn schedule ih =>
    unfold Process.interleave
    cases hturn : processes[turn]? with
    | none => exact ih hworld h
    | some process =>
      have hleft := h.set hturn hkind hworld
      exact h.endAlone_of_step hturn hkind hworld (ih (step_usable hkind hworld process) hleft)

end Process

end SampleDemux
