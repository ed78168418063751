import SampleDemux.Proofs.Isolation

/-!
# Interleaved processes

A process whose samples are all taken delivers its own samples and comes to its own result, which
depend on nothing but the files that it reads. When processes run by turns, each of them delivers
its own samples in its own order whatever the schedule, up to the first one that is not taken. So
the samples of all processes come as a merge of their own sequences, and a process of which all
samples are taken comes to its own result.
-/

namespace SampleDemux

section Merge

variable {α : Type}

/-- The part of a sequence of tagged elements that has one tag. -/
def taggedPart (trace : List (ℕ × α)) (tag : ℕ) : List α :=
  trace.filterMap fun entry => if entry.1 = tag then some entry.2 else none

/-- A sequence is a merge of parts: its elements can be tagged with the places of the parts so that
the elements with one tag are that part, in its order. -/
def IsMerge (whole : List α) (parts : List (List α)) : Prop :=
  ∃ trace : List (ℕ × α), trace.map (·.2) = whole ∧
    ∀ tag, taggedPart trace tag = (parts[tag]?).getD []

namespace IsMerge

variable {whole : List α} {parts : List (List α)}

/-- Nothing is a merge of no parts. -/
theorem nil : IsMerge ([] : List α) [] := ⟨[], rfl, fun _ => rfl⟩

/-- A part may come before a merge of others. -/
theorem cons (h : IsMerge whole parts) (part : List α) :
    IsMerge (part ++ whole) (part :: parts) := by
  rcases h with ⟨trace, rfl, hparts⟩
  refine ⟨part.map (0, ·) ++ trace.map fun entry => (entry.1 + 1, entry.2), ?_, fun tag => ?_⟩
  · simp [Function.comp_def]
  unfold taggedPart at hparts ⊢
  rw [List.filterMap_append, List.filterMap_map, List.filterMap_map]
  cases tag with
  | zero => simp
  | succ tag => simp [hparts]

/-- Parts one after the other are a merge. -/
theorem flatten (parts : List (List α)) : IsMerge parts.flatten parts := by
  induction parts with
  | nil => exact nil
  | cons part parts ih => exact ih.cons part

/-- Elements may come before a merge, if they come before the part that they belong to. -/
theorem prepend (h : IsMerge whole parts) (front : List α) {tag : ℕ} (htag : tag < parts.length) :
    IsMerge (front ++ whole) (parts.modify tag (front ++ ·)) := by
  rcases h with ⟨trace, rfl, hparts⟩
  refine ⟨front.map (tag, ·) ++ trace, by simp [Function.comp_def], fun other => ?_⟩
  have hrest := hparts other
  unfold taggedPart at hrest ⊢
  rw [List.filterMap_append, List.filterMap_map, hrest, List.getElem?_modify]
  by_cases hsame : tag = other
  · subst hsame
    simp [htag]
  · simp [hsame]

/-- A merge without some of its elements is a merge of parts without them. -/
theorem filter (h : IsMerge whole parts) (keep : α → Bool) :
    IsMerge (whole.filter keep) (parts.map (·.filter keep)) := by
  rcases h with ⟨trace, rfl, hparts⟩
  refine ⟨trace.filter (keep ·.2), (List.filter_map ..).symm, fun tag => ?_⟩
  have hpart : taggedPart (trace.filter (keep ·.2)) tag = (taggedPart trace tag).filter keep := by
    unfold taggedPart
    rw [List.filterMap_filter, List.filter_filterMap]
    congr 1
    funext entry
    by_cases htag : entry.1 = tag <;> cases hkeep : keep entry.2 <;>
      simp [htag, hkeep, Option.filter]
  rw [hpart, hparts, List.getElem?_map]
  cases parts[tag]? <;> rfl

/-- A merge in which all parts but one are empty is that part. -/
theorem eq_part (h : IsMerge whole parts) {tag : ℕ}
    (hothers : ∀ other : ℕ, other ≠ tag → (parts[other]?).getD [] = []) :
    whole = (parts[tag]?).getD [] := by
  rcases h with ⟨trace, rfl, hparts⟩
  have htags : ∀ entry ∈ trace, entry.1 = tag := by
    intro entry hentry
    by_contra hother
    have hmem : entry.2 ∈ taggedPart trace entry.1 :=
      List.mem_filterMap.mpr ⟨entry, hentry, if_pos rfl⟩
    rw [hparts, hothers _ hother] at hmem
    exact List.not_mem_nil hmem
  rw [← hparts, taggedPart, ← List.filterMap_eq_map]
  refine List.filterMap_congr fun entry hentry => ?_
  rw [if_pos (htags entry hentry)]
  rfl

/-- There is one merge only if at most one of the parts has elements. -/
theorem unique {other : List α} (h : IsMerge whole parts) (hother : IsMerge other parts)
    (hparts : parts.Pairwise fun first second => first = [] ∨ second = []) : whole = other := by
  by_cases hsome : ∃ tag : ℕ, (parts[tag]?).getD [] ≠ []
  · rcases hsome with ⟨tag, htag⟩
    have hothers : ∀ other : ℕ, other ≠ tag → (parts[other]?).getD [] = [] :=
      fun other hne => (getD_eq_nil_or hparts hne).resolve_right htag
    rw [h.eq_part hothers, hother.eq_part hothers]
  · have hempty : ∀ tag : ℕ, (parts[tag]?).getD [] = [] := by
      intro tag
      by_contra htag
      exact hsome ⟨tag, htag⟩
    have hothers : ∀ other : ℕ, other ≠ 0 → (parts[other]?).getD [] = [] := fun tag _ => hempty tag
    rw [h.eq_part hothers, hother.eq_part hothers]

/-- If at most one of the parts has elements, a merge is the parts one after the other. -/
theorem eq_flatten (h : IsMerge whole parts)
    (hparts : parts.Pairwise fun first second => first = [] ∨ second = []) :
    whole = parts.flatten :=
  h.unique (flatten parts) hparts

end IsMerge

end Merge

namespace Process

variable {α β : Type}

/-- What a process delivers when all its samples are taken, over files with given contents. -/
def ownDeliveries (contents : Location → List UInt8) : Process α → List Delivery
  | done _ => []
  | deliver delivery next => delivery :: ownDeliveries contents (next .accepted)
  | look part next => ownDeliveries contents (next (part.cut (contents part.location)))

/-- What a process comes to when all its samples are taken, over files with given contents. -/
def ownResult (contents : Location → List UInt8) : Process α → α
  | done result => result
  | deliver _ next => ownResult contents (next .accepted)
  | look part next => ownResult contents (next (part.cut (contents part.location)))

/-- What a process may come to, whatever the sinks and the files answer. -/
inductive CanReturn : Process α → α → Prop
  /-- The result is there. -/
  | done (result : α) : CanReturn (.done result) result
  /-- A sink replies. -/
  | deliver {delivery : Delivery} {next : Reply → Process α} {result : α} (reply : Reply)
      (h : CanReturn (next reply) result) : CanReturn (.deliver delivery next) result
  /-- A file answers. -/
  | look {part : FilePart} {next : List UInt8 → Process α} {result : α} (data : List UInt8)
      (h : CanReturn (next data) result) : CanReturn (.look part next) result

/-- A process delivers certain samples only, looks at certain files only, and fails at once when a
sample is not taken. -/
inductive Orderly (owns : Delivery → Prop) (reads : Location → Prop) (failed : α → Prop) :
    Process α → Prop
  /-- The result is there. -/
  | done (result : α) : Orderly owns reads failed (.done result)
  /-- A sample is delivered, and the process goes on only if it is taken. -/
  | deliver {delivery : Delivery} {next : Reply → Process α} (hdelivery : owns delivery)
      (hrefused : ∀ reply, reply ≠ .accepted → ∃ result, next reply = .done result ∧ failed result)
      (haccepted : Orderly owns reads failed (next .accepted)) :
      Orderly owns reads failed (.deliver delivery next)
  /-- A file is looked at. -/
  | look {part : FilePart} {next : List UInt8 → Process α} (hpart : reads part.location)
      (hnext : ∀ data, Orderly owns reads failed (next data)) :
      Orderly owns reads failed (.look part next)

section Own

variable (contents : Location → List UInt8)

/-- Going on with a result adds the samples that are delivered then. -/
@[simp]
theorem ownDeliveries_bind (process : Process α) (f : α → Process β) :
    (process.bind f).ownDeliveries contents =
      process.ownDeliveries contents ++
        (f (process.ownResult contents)).ownDeliveries contents := by
  induction process with
  | done result => rfl
  | deliver delivery next ih => rw [bind, ownDeliveries, ih, ownDeliveries, ownResult]; rfl
  | look part next ih => rw [bind, ownDeliveries, ih, ownDeliveries, ownResult]

/-- Going on with a result gives what that comes to. -/
@[simp]
theorem ownResult_bind (process : Process α) (f : α → Process β) :
    (process.bind f).ownResult contents =
      (f (process.ownResult contents)).ownResult contents := by
  induction process with
  | done result => rfl
  | deliver delivery next ih => rw [bind, ownResult, ih, ownResult]
  | look part next ih => rw [bind, ownResult, ih, ownResult]

/-- Giving a result to a function gives what the function makes of it. -/
@[simp]
theorem ownResult_map (process : Process α) (f : α → β) :
    (process.map f).ownResult contents = f (process.ownResult contents) := by
  rw [map, ownResult_bind, ownResult]

/-- A process may come to its own result. -/
theorem canReturn_ownResult (process : Process α) :
    process.CanReturn (process.ownResult contents) := by
  induction process with
  | done result => exact .done result
  | deliver delivery next ih => exact .deliver .accepted (ih .accepted)
  | look part next ih => exact .look _ (ih _)

end Own

/-- Going on with a result comes to what may come of a result. -/
theorem canReturn_bind {process : Process α} {f : α → Process β} {final : β} :
    (process.bind f).CanReturn final ↔
      ∃ result, process.CanReturn result ∧ (f result).CanReturn final := by
  induction process with
  | done result =>
    constructor
    · intro h
      exact ⟨result, .done result, h⟩
    · rintro ⟨_, ⟨⟩, h⟩
      exact h
  | deliver delivery next ih =>
    constructor
    · intro h
      cases h with
      | deliver reply h =>
        rcases (ih reply).mp h with ⟨result, hresult, hfinal⟩
        exact ⟨result, .deliver reply hresult, hfinal⟩
    · rintro ⟨result, hresult, hfinal⟩
      cases hresult with
      | deliver reply hresult => exact .deliver reply ((ih reply).mpr ⟨result, hresult, hfinal⟩)
  | look part next ih =>
    constructor
    · intro h
      cases h with
      | look data h =>
        rcases (ih data).mp h with ⟨result, hresult, hfinal⟩
        exact ⟨result, .look data hresult, hfinal⟩
    · rintro ⟨result, hresult, hfinal⟩
      cases hresult with
      | look data hresult => exact .look data ((ih data).mpr ⟨result, hresult, hfinal⟩)

/-- Giving a result to a function comes to what the function makes of a result. -/
theorem canReturn_map {process : Process α} {f : α → β} {final : β} :
    (process.map f).CanReturn final ↔ ∃ result, process.CanReturn result ∧ f result = final := by
  rw [map, canReturn_bind]
  constructor
  · rintro ⟨result, hresult, ⟨⟩⟩
    exact ⟨result, hresult, rfl⟩
  · rintro ⟨result, hresult, rfl⟩
    exact ⟨result, hresult, .done _⟩

namespace Orderly

variable {owns : Delivery → Prop} {reads : Location → Prop} {failed : α → Prop}
  {process : Process α}

/-- Going on with a result is orderly if every way to go on is, and a failure stays one. -/
theorem bind {stopped : β → Prop} {f : α → Process β} (h : process.Orderly owns reads failed)
    (hnext : ∀ result, process.CanReturn result → (f result).Orderly owns reads stopped)
    (hfailed : ∀ result, failed result → ∃ final, f result = .done final ∧ stopped final) :
    (process.bind f).Orderly owns reads stopped := by
  induction h with
  | done result => exact hnext result (.done result)
  | deliver hdelivery hrefused _ ih =>
    refine .deliver hdelivery (fun reply hreply => ?_)
      (ih fun result hresult => hnext result (.deliver .accepted hresult))
    rcases hrefused reply hreply with ⟨result, hdone, hresult⟩
    rcases hfailed result hresult with ⟨final, hfinal, hstopped⟩
    exact ⟨final, by rw [hdone]; exact hfinal, hstopped⟩
  | look hpart _ ih =>
    exact .look hpart fun data =>
      ih data fun result hresult => hnext result (.look data hresult)

/-- Giving a result to a function is orderly if a failure stays one. -/
theorem map {stopped : β → Prop} {f : α → β} (h : process.Orderly owns reads failed)
    (hfailed : ∀ result, failed result → stopped (f result)) :
    (process.map f).Orderly owns reads stopped :=
  h.bind (fun result _ => .done (f result)) fun result hresult =>
    ⟨f result, rfl, hfailed result hresult⟩

/-- A process that may deliver fewer samples and read fewer files is orderly with more. -/
theorem mono {others : Delivery → Prop} {further : Location → Prop}
    (h : process.Orderly owns reads failed) (howns : ∀ delivery, owns delivery → others delivery)
    (hreads : ∀ location, reads location → further location) :
    process.Orderly others further failed := by
  induction h with
  | done result => exact .done result
  | deliver hdelivery hrefused _ ih => exact .deliver (howns _ hdelivery) hrefused ih
  | look hpart _ ih => exact .look (hreads _ hpart) ih

/-- The samples of an orderly process are those that it may deliver. -/
theorem owns_ownDeliveries (h : process.Orderly owns reads failed)
    (contents : Location → List UInt8) :
    ∀ delivery ∈ process.ownDeliveries contents, owns delivery := by
  induction h with
  | done result => exact List.forall_mem_nil _
  | deliver hdelivery _ _ ih => exact List.forall_mem_cons.mpr ⟨hdelivery, ih⟩
  | look _ _ ih => exact ih _

end Orderly

/-- How a process may end: with its own samples and result, or failed after the first ones of its
own samples. -/
def EndsAs (contents : Location → List UInt8) (failed : α → Prop) (process : Process α)
    (ending : List Delivery × α) : Prop :=
  ending = (process.ownDeliveries contents, process.ownResult contents) ∨
    failed ending.2 ∧ ending.1 <+: process.ownDeliveries contents

section Runs

variable {W S : Type} {kind : SinkKind W S} {setting : Setting W S} {registry : Registry W S}
  {owns : Delivery → Prop} {failed : α → Prop} {process : Process α}

/-- A process that does not fail ends with its own samples and result. -/
theorem EndsAs.eq_own {contents : Location → List UInt8} {ending : List Delivery × α}
    (h : process.EndsAs contents failed ending) (hok : ¬failed ending.2) :
    ending = (process.ownDeliveries contents, process.ownResult contents) :=
  h.resolve_right fun hfailed => hok hfailed.1

/-- After a step an orderly process is orderly. The step gives at most one sample to its sink, and
the process ends with that one before those of the process after the step. If that does not fail,
the sample was taken. -/
theorem step_ends (hkind : kind.Isolated setting) (hworld : setting.usable registry.world)
    (h : process.Orderly owns setting.inputs failed) :
    (process.step kind registry).1.Orderly owns setting.inputs failed ∧
      ∃ made, (process.step kind registry).2 = registry.consumeAll kind made ∧
        ∀ ending, (process.step kind registry).1.EndsAs setting.contents failed ending →
          process.EndsAs setting.contents failed (made ++ ending.1, ending.2) ∧
            (¬failed ending.2 → registry.Takes kind made) := by
  cases h with
  | done result => exact ⟨.done result, [], rfl, fun ending hending => ⟨hending, fun _ => trivial⟩⟩
  | @look part next hpart hnext =>
    refine ⟨hnext _, [], rfl, fun ending hending => ⟨?_, fun _ => trivial⟩⟩
    dsimp only [step] at hending
    rw [hkind.look _ _ hworld hpart] at hending
    exact hending
  | @deliver delivery next hdelivery hrefused haccepted =>
    have hstep : (deliver delivery next).step kind registry =
        (next (registry.consume kind delivery.sink delivery.sample delivery.record).1,
          registry.consumeAll kind [delivery]) := rfl
    rw [hstep]
    by_cases hreply :
        (registry.consume kind delivery.sink delivery.sample delivery.record).1 = .accepted
    · rw [hreply]
      refine ⟨haccepted, [delivery], rfl, fun ending hending => ⟨?_, fun _ => ⟨hreply, trivial⟩⟩⟩
      rcases hending with rfl | ⟨hfailed, hprefix⟩
      · exact .inl rfl
      · exact .inr ⟨hfailed, List.prefix_cons_inj _ |>.mpr hprefix⟩
    · -- A sample that is not taken was given to the sink all the same, and ends the process.
      rcases hrefused _ hreply with ⟨result, hdone, hfailed⟩
      rw [hdone]
      refine ⟨.done result, [delivery], rfl, fun ending hending => ?_⟩
      rcases hending with rfl | ⟨hfails, hprefix⟩
      · exact ⟨.inr ⟨hfailed, List.prefix_cons_inj _ |>.mpr List.nil_prefix⟩,
          fun hok => absurd hfailed hok⟩
      · rw [List.prefix_nil.mp hprefix]
        exact ⟨.inr ⟨hfails, List.prefix_cons_inj _ |>.mpr List.nil_prefix⟩,
          fun hok => absurd hfails hok⟩

/-- A process is run by making a step and running what is left. -/
theorem run_step (process : Process α) (registry : Registry W S) :
    (process.step kind registry).1.run kind (process.step kind registry).2 =
      process.run kind registry := by
  cases process <;> rfl

/-- An orderly process ends as it may when it is run: its samples are given to the sinks, and all of
them are taken if it does not fail. -/
structure RunsTo (kind : SinkKind W S) (contents : Location → List UInt8) (failed : α → Prop)
    (process : Process α) (registry : Registry W S) (ending : List Delivery × α) : Prop where
  /-- The process ends as it may. -/
  ends : process.EndsAs contents failed ending
  /-- Its samples are given to the sinks. -/
  run_eq : process.run kind registry = (ending.2, registry.consumeAll kind ending.1)
  /-- The samples are taken if it does not fail. -/
  takes : ¬failed ending.2 → registry.Takes kind ending.1

/-- What a process is run to after a step, it is run to with the sample of the step before it. -/
theorem RunsTo.of_step (hkind : kind.Isolated setting) (hworld : setting.usable registry.world)
    (h : process.Orderly owns setting.inputs failed) {ending : List Delivery × α}
    (hending : RunsTo kind setting.contents failed (process.step kind registry).1
      (process.step kind registry).2 ending) :
    ∃ ending, RunsTo kind setting.contents failed process registry ending := by
  rcases step_ends hkind hworld h with ⟨-, made, hmade, hends⟩
  rcases hends ending hending.ends with ⟨hends, hfirst⟩
  have hrun := hending.run_eq
  have htakes := hending.takes
  rw [run_step, hmade, ← Registry.consumeAll_append] at hrun
  rw [hmade] at htakes
  exact ⟨(made ++ ending.1, ending.2), hends, hrun, fun hok =>
    (Registry.takes_append made ending.1).mpr ⟨hfirst hok, htakes hok⟩⟩

/-- What sinks share stays as it should be during a step. -/
theorem step_usable (hkind : kind.Isolated setting) (hworld : setting.usable registry.world)
    (process : Process α) : setting.usable (process.step kind registry).2.world := by
  cases process with
  | done result => exact hworld
  | deliver delivery next => exact Registry.consume_usable hkind hworld _ _ _
  | look part next => exact hworld

/-- An orderly process is run to an ending. -/
theorem exists_runsTo (hkind : kind.Isolated setting) (hworld : setting.usable registry.world)
    (h : process.Orderly owns setting.inputs failed) :
    ∃ ending, RunsTo kind setting.contents failed process registry ending := by
  induction process generalizing registry with
  | done result => exact ⟨([], result), .inl rfl, rfl, fun _ => trivial⟩
  | deliver delivery next ih =>
    have hleft := (step_ends hkind hworld h).1
    have hworldLeft := step_usable hkind hworld (deliver delivery next)
    rcases ih _ hworldLeft hleft with ⟨ending, hending⟩
    exact hending.of_step hkind hworld h
  | look part next ih =>
    have hleft := (step_ends hkind hworld h).1
    rcases ih _ hworld hleft with ⟨ending, hending⟩
    exact hending.of_step hkind hworld h

/-- Processes end as they may when they are run together: their samples come to the sinks as a merge
of what each of them delivers, and all samples are taken if none of them fails. -/
structure RunTo (kind : SinkKind W S) (contents : Location → List UInt8) (failed : α → Prop)
    (processes : List (Process α)) (registry : Registry W S)
    (endings : List (List Delivery × α)) (calls : List Delivery) : Prop where
  /-- Every process ends as it may. -/
  ends : List.Forall₂ (EndsAs contents failed) processes endings
  /-- The samples come as a merge. -/
  merge : IsMerge calls (endings.map (·.1))
  /-- All of them are taken if no process fails. -/
  takes : (∀ ending ∈ endings, ¬failed ending.2) → registry.Takes kind calls

variable {processes : List (Process α)}

/-- Processes that are run one after the other end as they may. -/
theorem exists_runEach (hkind : kind.Isolated setting) (hworld : setting.usable registry.world)
    (h : ∀ process ∈ processes, process.Orderly owns setting.inputs failed) :
    ∃ endings calls, RunTo kind setting.contents failed processes registry endings calls ∧
      runEach kind processes registry =
        (endings.map (·.2), registry.consumeAll kind calls) := by
  induction processes generalizing registry with
  | nil => exact ⟨[], [], ⟨.nil, .nil, fun _ => trivial⟩, rfl⟩
  | cons process processes ih =>
    rcases List.forall_mem_cons.mp h with ⟨hfirst, hrest⟩
    rcases exists_runsTo hkind hworld hfirst with ⟨ending, hending⟩
    have hworldNext := Registry.consumeAll_usable hkind hworld ending.1
    rcases ih hworldNext hrest with ⟨endings, calls, hendings, hruns⟩
    refine ⟨ending :: endings, ending.1 ++ calls, ⟨.cons hending.ends hendings.ends,
      hendings.merge.cons ending.1, fun hok => ?_⟩, ?_⟩
    · rcases List.forall_mem_cons.mp hok with ⟨hfirst, hrest⟩
      exact (Registry.takes_append ending.1 calls).mpr
        ⟨hending.takes hfirst, hendings.takes hrest⟩
    · simp only [runEach, hending.run_eq, hruns, Registry.consumeAll_append, List.map_cons]

/-- What processes are run to after a step of one of them, they are run to with the sample of the
step before the samples of that process. -/
theorem RunTo.of_step (hkind : kind.Isolated setting) (hworld : setting.usable registry.world)
    {turn : ℕ} (hturn : processes[turn]? = some process)
    (h : process.Orderly owns setting.inputs failed) {endings : List (List Delivery × α)}
    {calls : List Delivery}
    (hrest : RunTo kind setting.contents failed
      (processes.set turn (process.step kind registry).1) (process.step kind registry).2 endings
      calls) :
    ∃ before later, later.map (·.2) = endings.map (·.2) ∧
      RunTo kind setting.contents failed processes registry later (before ++ calls) ∧
      (process.step kind registry).2.consumeAll kind calls =
        registry.consumeAll kind (before ++ calls) := by
  rcases step_ends hkind hworld h with ⟨-, made, hmade, hends⟩
  have hbound : turn < endings.length := by
    rw [← hrest.ends.length_eq, List.length_set]
    exact (List.getElem?_eq_some_iff.mp hturn).1
  let change : List Delivery × α → List Delivery × α := fun ending =>
    (made ++ ending.1, ending.2)
  have hresults : (endings.modify turn change).map (·.2) = endings.map (·.2) :=
    (map_modify (·.2) change id (fun _ => rfl) endings turn).trans (List.modify_id ..)
  have hparts : (endings.modify turn change).map (·.1) =
      (endings.map (·.1)).modify turn (made ++ ·) :=
    map_modify (·.1) change (made ++ ·) (fun _ => rfl) endings turn
  refine ⟨made, endings.modify turn change, hresults, ⟨?_, ?_, fun hok => ?_⟩,
    by rw [hmade, Registry.consumeAll_append]⟩
  · exact forall₂_modify_of_set hrest.ends hturn fun ending hending => (hends ending hending).1
  · rw [hparts]
    exact hrest.merge.prepend made (by rwa [List.length_map])
  · have hall : ∀ ending ∈ endings, ¬failed ending.2 := by
      intro ending hending hfailed
      have hmem : ending.2 ∈ endings.map (·.2) := List.mem_map_of_mem hending
      rw [← hresults] at hmem
      rcases List.mem_map.mp hmem with ⟨other, hother, hsame⟩
      exact hok other hother (hsame ▸ hfailed)
    have hset : (processes.set turn (process.step kind registry).1)[turn]? =
        some (process.step kind registry).1 :=
      List.getElem?_set_self (List.getElem?_eq_some_iff.mp hturn).1
    rcases exists_getElem?_of_forall₂ hrest.ends hset with ⟨ending, hat, hending⟩
    have htakes := hrest.takes hall
    rw [hmade] at htakes
    exact (Registry.takes_append made calls).mpr
      ⟨(hends ending hending).2 (hall ending (List.mem_of_getElem? hat)), htakes⟩

/-- Orderly processes that are run by turns end as they may, whatever the schedule. -/
theorem exists_interleave (hkind : kind.Isolated setting)
    (hworld : setting.usable registry.world)
    (h : ∀ process ∈ processes, process.Orderly owns setting.inputs failed)
    (schedule : List ℕ) :
    ∃ endings calls, RunTo kind setting.contents failed processes registry endings calls ∧
      interleave kind schedule processes registry =
        (endings.map (·.2), registry.consumeAll kind calls) := by
  induction schedule generalizing processes registry with
  | nil => exact exists_runEach hkind hworld h
  | cons turn schedule ih =>
    unfold interleave
    cases hturn : processes[turn]? with
    | none => exact ih hworld h
    | some process =>
      -- The step turns one process into what is left of it; the induction runs over the schedule,
      -- and `RunTo.of_step` puts the sample of the step back in front.
      have hprocess := h process (List.mem_of_getElem? hturn)
      have hleft : ∀ other ∈ processes.set turn (process.step kind registry).1,
          other.Orderly owns setting.inputs failed := by
        intro other hother
        rcases List.mem_or_eq_of_mem_set hother with hother | rfl
        · exact h other hother
        · exact (step_ends hkind hworld hprocess).1
      rcases ih (step_usable hkind hworld process) hleft with ⟨endings, calls, hrest, hruns⟩
      rcases hrest.of_step hkind hworld hturn hprocess with
        ⟨before, later, hresults, hlater, hcalls⟩
      refine ⟨later, before ++ calls, hlater, ?_⟩
      dsimp only
      rw [hruns, hcalls, hresults]

/-- If no process fails, each one delivers its own samples and comes to its own result, and all
samples are taken. -/
theorem RunTo.eq_own {endings : List (List Delivery × α)} {calls : List Delivery}
    (h : RunTo kind setting.contents failed processes registry endings calls)
    (hok : ∀ ending ∈ endings, ¬failed ending.2) :
    endings = processes.map fun process =>
      (process.ownDeliveries setting.contents, process.ownResult setting.contents) := by
  have hends := h.ends
  clear h
  induction hends with
  | nil => rfl
  | cons hending _ ih =>
    rcases List.forall_mem_cons.mp hok with ⟨hfirst, hrest⟩
    rw [List.map_cons, hending.eq_own hfirst, ih hrest]

/-- A process of which all samples are taken delivers its own samples and comes to its own
result. -/
theorem run_of_takes (hkind : kind.Isolated setting) (hworld : setting.usable registry.world)
    (h : process.Orderly owns setting.inputs failed)
    (htakes : registry.Takes kind (process.ownDeliveries setting.contents)) :
    process.run kind registry =
      (process.ownResult setting.contents,
        registry.consumeAll kind (process.ownDeliveries setting.contents)) := by
  induction h generalizing registry with
  | done result => rfl
  | @deliver delivery next hdelivery hrefused haccepted ih =>
    rcases htakes with ⟨hfirst, hrest⟩
    have hnext := ih (Registry.consume_usable hkind hworld _ _ _) hrest
    simp only [run, hfirst, hnext]
    rfl
  | look hpart _ ih =>
    simp only [run, hkind.look _ _ hworld hpart]
    exact ih _ hworld htakes

/-- Processes of which all samples are taken, one process after the other, deliver their own samples
and come to their own results. -/
theorem runEach_of_takes (hkind : kind.Isolated setting)
    (hworld : setting.usable registry.world)
    (h : ∀ process ∈ processes, process.Orderly owns setting.inputs failed)
    (htakes : registry.Takes kind (processes.map (·.ownDeliveries setting.contents)).flatten) :
    runEach kind processes registry =
      (processes.map (·.ownResult setting.contents),
        registry.consumeAll kind (processes.map (·.ownDeliveries setting.contents)).flatten) := by
  induction processes generalizing registry with
  | nil => rfl
  | cons process processes ih =>
    rcases List.forall_mem_cons.mp h with ⟨hfirst, hothers⟩
    rw [List.map_cons, List.flatten_cons] at htakes
    rcases (Registry.takes_append _ _).mp htakes with ⟨htake, hrest⟩
    have hnext := ih (Registry.consumeAll_usable hkind hworld _) hothers hrest
    simp only [runEach, run_of_takes hkind hworld hfirst htake, hnext, List.map_cons,
      List.flatten_cons, Registry.consumeAll_append]

end Runs

section AnySinks

variable {W S : Type} (kind : SinkKind W S)

/-- Processes that have come to their results leave the sinks alone, whatever the schedule. -/
theorem interleave_done (schedule : List ℕ) (results : List α) (registry : Registry W S) :
    interleave kind schedule (results.map done) registry = (results, registry) := by
  induction schedule with
  | nil =>
    unfold interleave
    induction results with
    | nil => rfl
    | cons result results ih => simp only [List.map_cons, runEach, run, ih]
  | cons turn schedule ih =>
    unfold interleave
    cases hturn : (results.map done)[turn]? with
    | none => exact ih
    | some process =>
      rw [List.getElem?_map, Option.map_eq_some_iff] at hturn
      rcases hturn with ⟨result, hresult, rfl⟩
      have hsame : results.set turn result = results := by
        rcases List.getElem?_eq_some_iff.mp hresult with ⟨hbound, hat⟩
        rw [← hat]
        exact List.set_getElem_self hbound
      simp only [step]
      rw [← List.map_set, hsame]
      exact ih

/-- Whatever the sinks, a process comes to something that it may come to and leaves the streams. -/
theorem run_canReturn (process : Process α) (registry : Registry W S) :
    process.CanReturn (process.run kind registry).1 ∧
      registry.SameStreams (process.run kind registry).2 := by
  induction process generalizing registry with
  | done result => exact ⟨.done result, .refl registry⟩
  | deliver delivery next ih =>
    rcases ih _ (registry.consume kind delivery.sink delivery.sample delivery.record).2 with
      ⟨hresult, hsame⟩
    exact ⟨.deliver _ hresult, (Registry.SameStreams.consume kind ..).trans hsame⟩
  | look part next ih =>
    rcases ih (kind.look part registry.world) registry with ⟨hresult, hsame⟩
    exact ⟨.look _ hresult, hsame⟩

/-- Whatever the sinks, processes one after the other come to what each of them may come to. -/
theorem runEach_canReturn (processes : List (Process α)) (registry : Registry W S) :
    List.Forall₂ CanReturn processes (runEach kind processes registry).1 ∧
      registry.SameStreams (runEach kind processes registry).2 := by
  induction processes generalizing registry with
  | nil => exact ⟨.nil, .refl registry⟩
  | cons process processes ih =>
    rcases run_canReturn kind process registry with ⟨hresult, hfirst⟩
    rcases ih (process.run kind registry).2 with ⟨hresults, hrest⟩
    exact ⟨.cons hresult hresults, hfirst.trans hrest⟩

/-- A step leaves the streams, and what may come of the rest of the process may come of it. -/
theorem step_canReturn (process : Process α) (registry : Registry W S) :
    (∀ result, (process.step kind registry).1.CanReturn result → process.CanReturn result) ∧
      registry.SameStreams (process.step kind registry).2 := by
  cases process with
  | done result => exact ⟨fun _ h => h, .refl registry⟩
  | deliver delivery next =>
    exact ⟨fun _ h => .deliver _ h, Registry.SameStreams.consume kind ..⟩
  | look part next => exact ⟨fun _ h => .look _ h, .refl registry⟩

/-- Whatever the sinks and the schedule, processes by turns come to what each of them may come
to. -/
theorem interleave_canReturn (schedule : List ℕ) (processes : List (Process α))
    (registry : Registry W S) :
    List.Forall₂ CanReturn processes (interleave kind schedule processes registry).1 ∧
      registry.SameStreams (interleave kind schedule processes registry).2 := by
  induction schedule generalizing processes registry with
  | nil => exact runEach_canReturn kind processes registry
  | cons turn schedule ih =>
    unfold interleave
    cases hturn : processes[turn]? with
    | none => exact ih processes registry
    | some process =>
      rcases step_canReturn kind process registry with ⟨hprocess, hfirst⟩
      rcases ih (processes.set turn (process.step kind registry).1)
        (process.step kind registry).2 with ⟨hresults, hrest⟩
      have hsame : List.Forall₂ CanReturn processes (List.modify _ turn id) :=
        forall₂_modify_of_set hresults hturn hprocess
      rw [List.modify_id] at hsame
      exact ⟨hsame, hfirst.trans hrest⟩

end AnySinks

end Process

end SampleDemux
