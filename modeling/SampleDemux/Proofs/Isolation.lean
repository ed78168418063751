import SampleDemux.Proofs.Delivery

/-!
# Sinks that depend on their own samples only

A sink is isolated if its replies and what it keeps follow from its own samples and their records,
whatever the other sinks are given in between. Then the sinks after a run can be told from the
samples that each of them was given, in order, and the order between different sinks makes no
difference: not for the sinks themselves, not for whether all samples are taken, and not for whether
the sinks can be finished. Who delivers the samples is left to others.
-/

namespace SampleDemux

/-- How isolated sinks behave, and what the files hold that are read in the meantime. -/
structure Setting (W S : Type) where
  /-- The reply of a sink to a sample, and what it keeps then. -/
  consume : S → Sample → StreamRecord → Reply × S
  /-- What comes of finishing a sink, and what it keeps then. -/
  finish : S → Except Cause Unit × S
  /-- What files hold. -/
  contents : Location → List UInt8
  /-- Files that are read, and that no sink changes. -/
  inputs : Location → Prop
  /-- What all sinks share is as it should be. -/
  usable : W → Prop

namespace Setting

variable {W S : Type} (setting : Setting W S)

/-- What a sink keeps after some samples. -/
def feed (state : S) (deliveries : List Delivery) : S :=
  deliveries.foldl (fun state delivery =>
    (setting.consume state delivery.sample delivery.record).2) state

/-- A sink takes samples, one after the other. -/
def TakesAll : S → List Delivery → Prop
  | _, [] => True
  | state, delivery :: rest =>
    (setting.consume state delivery.sample delivery.record).1 = .accepted ∧
      TakesAll (setting.consume state delivery.sample delivery.record).2 rest

/-- A sink, if there is one, takes samples; without a sink there may be none. -/
def SinkTakes : Option (MadeSink S) → List Delivery → Prop
  | none, deliveries => deliveries = []
  | some sink, deliveries => setting.TakesAll sink.state deliveries

end Setting

/-- Sinks of a kind behave as a setting says, as long as what they share is as it should be. -/
structure SinkKind.Isolated {W S : Type} (kind : SinkKind W S) (setting : Setting W S) : Prop where
  /-- A sample has the reply and the effect that the setting says. -/
  consume : ∀ state sample record world, setting.usable world →
    (kind.consume state sample record world).1 = (setting.consume state sample record).1 ∧
      (kind.consume state sample record world).2.1 = (setting.consume state sample record).2
  /-- What sinks share stays as it should be while samples are given to them. -/
  consume_usable : ∀ state sample record world, setting.usable world →
    setting.usable (kind.consume state sample record world).2.2
  /-- Finishing has the outcome and the effect that the setting says. -/
  finish : ∀ state world, setting.usable world →
    (kind.finish state world).1 = (setting.finish state).1 ∧
      (kind.finish state world).2.1 = (setting.finish state).2
  /-- What sinks share stays as it should be while they are finished. -/
  finish_usable : ∀ state world, setting.usable world →
    setting.usable (kind.finish state world).2.2
  /-- Inputs hold what the setting says. -/
  look : ∀ part world, setting.usable world → setting.inputs part.location →
    kind.look part world = part.cut (setting.contents part.location)
  /-- No input has more bytes than a file can have. -/
  contents_le : ∀ location, setting.inputs location →
    (setting.contents location).length ≤ ByteSource.fileBound

/-- Memory sinks take every sample, and no file has a byte. -/
def MemorySink.setting : Setting Unit MemorySink where
  consume sink sample _ := (.accepted, { sink with samples := sink.samples ++ [sample] })
  finish sink := (.ok (), { sink with finished := true })
  contents _ := []
  inputs _ := True
  usable _ := True

/-- Memory sinks are isolated. -/
theorem MemorySink.kind_isolated : kind.Isolated setting where
  consume _ _ _ _ _ := ⟨rfl, rfl⟩
  consume_usable _ _ _ _ _ := trivial
  finish _ _ _ := ⟨rfl, rfl⟩
  finish_usable _ _ _ := trivial
  look part _ _ _ := by simp [setting, kind, FilePart.cut]
  contents_le _ _ := Nat.zero_le _

/-- The deliveries to one sink. -/
def deliveriesTo (number : ℕ) (deliveries : List Delivery) : List Delivery :=
  deliveries.filter (·.sink == number)

namespace Registry

variable {W S : Type} (kind : SinkKind W S)

/-- All samples are taken, one after the other. -/
def Takes (registry : Registry W S) : List Delivery → Prop
  | [] => True
  | delivery :: rest =>
    (registry.consume kind delivery.sink delivery.sample delivery.record).1 = .accepted ∧
      Takes (registry.consume kind delivery.sink delivery.sample delivery.record).2 rest

/-- A registry has the same streams as an earlier one, with the same sinks and records, whatever the
sinks keep. -/
structure SameStreams (registry later : Registry W S) : Prop where
  /-- Streams have the same sinks. -/
  sinks : later.sinks = registry.sinks
  /-- Streams have the same records. -/
  records : later.records = registry.records
  /-- Sinks were made for the same streams. -/
  made : later.made.map (·.stream) = registry.made.map (·.stream)

namespace SameStreams

/-- A registry has its own streams. -/
theorem refl (registry : Registry W S) : registry.SameStreams registry := ⟨rfl, rfl, rfl⟩

/-- Streams that stay the same twice stay the same. -/
theorem trans {first second third : Registry W S} (h : first.SameStreams second)
    (hnext : second.SameStreams third) : first.SameStreams third :=
  ⟨hnext.sinks.trans h.sinks, hnext.records.trans h.records, hnext.made.trans h.made⟩

/-- What one sink keeps and what all of them share make no difference. -/
theorem of_set {registry : Registry W S} {number : ℕ} {sink : MadeSink S}
    (h : registry.made[number]? = some sink) (state : S) (world : W) :
    registry.SameStreams
      { registry with world, made := registry.made.set number { sink with state } } := by
  refine ⟨rfl, rfl, List.ext_getElem? fun place => ?_⟩
  rw [List.getElem?_map, List.getElem?_map, List.getElem?_set]
  split
  · rename_i hsame
    have hbound := (List.getElem?_eq_some_iff.mp h).1
    rw [if_pos hbound, ← hsame, h]
    rfl
  · rfl

/-- Giving a sample to a sink leaves the streams. -/
theorem consume (registry : Registry W S) (number : ℕ) (sample : Sample) (record : StreamRecord) :
    registry.SameStreams (registry.consume kind number sample record).2 := by
  unfold Registry.consume
  split
  · exact refl registry
  · rename_i sink hsink
    exact of_set hsink _ _

/-- Finishing a sink leaves the streams. -/
theorem finish (registry : Registry W S) (number : ℕ) :
    registry.SameStreams (registry.finish kind number).2 := by
  unfold Registry.finish
  split
  · exact refl registry
  · rename_i sink hsink
    exact of_set hsink _ _

end SameStreams

variable {kind} {setting : Setting W S} {registry : Registry W S}

/-- What sinks share keeps what every sink lets it keep. -/
theorem world_consume {keeps : W → Prop}
    (hkeeps : ∀ state sample record world, keeps world →
      keeps (kind.consume state sample record world).2.2)
    (hworld : keeps registry.world) (number : ℕ) (sample : Sample) (record : StreamRecord) :
    keeps (registry.consume kind number sample record).2.world := by
  unfold consume
  split
  · exact hworld
  · exact hkeeps _ _ _ _ hworld

/-- What sinks share stays as it should be while a sample is given to one. -/
theorem consume_usable (hkind : kind.Isolated setting) (hworld : setting.usable registry.world)
    (number : ℕ) (sample : Sample) (record : StreamRecord) :
    setting.usable (registry.consume kind number sample record).2.world :=
  world_consume hkind.consume_usable hworld number sample record

/-- A sample changes the sink that it is given to, as the setting says, and no other one. -/
theorem made_consume (hkind : kind.Isolated setting) (hworld : setting.usable registry.world)
    (delivery : Delivery) (number : ℕ) :
    (registry.consume kind delivery.sink delivery.sample delivery.record).2.made[number]? =
      (registry.made[number]?).map fun sink =>
        { sink with state := setting.feed sink.state (deliveriesTo number [delivery]) } := by
  have hfeed (state : S) (hother : delivery.sink ≠ number) :
      setting.feed state (deliveriesTo number [delivery]) = state := by
    simp [Setting.feed, deliveriesTo, hother]
  unfold consume
  split
  · rename_i hnone
    by_cases hsame : delivery.sink = number
    · rw [← hsame, hnone]
      rfl
    · simp [hfeed _ hsame]
  · rename_i sink hsink
    dsimp only
    rw [List.getElem?_set]
    by_cases hsame : delivery.sink = number
    · subst hsame
      have hbound := (List.getElem?_eq_some_iff.mp hsink).1
      rw [if_pos rfl, if_pos hbound, hsink, Option.map_some,
        (hkind.consume _ _ _ _ hworld).2]
      simp [Setting.feed, deliveriesTo]
    · rw [if_neg hsame]
      simp [hfeed _ hsame]

/-- A sample is taken if its sink was made and takes it. -/
theorem consume_accepted_iff (hkind : kind.Isolated setting)
    (hworld : setting.usable registry.world) (delivery : Delivery) :
    (registry.consume kind delivery.sink delivery.sample delivery.record).1 = .accepted ↔
      ∃ sink, registry.made[delivery.sink]? = some sink ∧
        (setting.consume sink.state delivery.sample delivery.record).1 = .accepted := by
  unfold consume
  split
  · rename_i hnone
    simp [hnone]
  · rename_i sink hsink
    simp [hsink, (hkind.consume _ _ _ _ hworld).1]

section ConsumeAll

variable {deliveries : List Delivery}

/-- Samples are given one after the other. -/
theorem consumeAll_cons (delivery : Delivery) (deliveries : List Delivery) :
    registry.consumeAll kind (delivery :: deliveries) =
      (registry.consume kind delivery.sink delivery.sample delivery.record).2.consumeAll kind
        deliveries := rfl

/-- Samples are given after others. -/
theorem consumeAll_append (front back : List Delivery) :
    registry.consumeAll kind (front ++ back) =
      (registry.consumeAll kind front).consumeAll kind back := List.foldl_append

/-- Samples are taken one after the other if the first ones are taken and then the others. -/
theorem takes_append (front back : List Delivery) :
    registry.Takes kind (front ++ back) ↔
      registry.Takes kind front ∧ (registry.consumeAll kind front).Takes kind back := by
  induction front generalizing registry with
  | nil => exact Iff.of_eq (true_and _).symm
  | cons delivery front ih => rw [List.cons_append, Takes, ih, Takes, and_assoc, consumeAll_cons]

/-- What giving one sample keeps, giving several keeps. -/
theorem consumeAll_keeps (keeps : Registry W S → Prop)
    (hstep : ∀ registry number sample record, keeps registry →
      keeps (registry.consume kind number sample record).2)
    (hkeeps : keeps registry) (deliveries : List Delivery) :
    keeps (registry.consumeAll kind deliveries) := by
  induction deliveries generalizing registry with
  | nil => exact hkeeps
  | cons delivery deliveries ih => exact ih (hstep _ _ _ _ hkeeps)

/-- Giving samples to sinks leaves the streams. -/
theorem consumeAll_sameStreams (deliveries : List Delivery) :
    registry.SameStreams (registry.consumeAll kind deliveries) :=
  consumeAll_keeps registry.SameStreams
    (fun later number sample record hlater =>
      hlater.trans (SameStreams.consume kind later number sample record))
    (.refl registry) deliveries

/-- What sinks share stays as it should be while samples are given to them. -/
theorem consumeAll_usable (hkind : kind.Isolated setting) (hworld : setting.usable registry.world)
    (deliveries : List Delivery) : setting.usable (registry.consumeAll kind deliveries).world :=
  consumeAll_keeps (fun later => setting.usable later.world)
    (fun _ number sample record hlater =>
      consume_usable hkind hlater number sample record) hworld deliveries

/-- After some samples, a sink keeps what its own ones among them make it keep. -/
theorem made_consumeAll (hkind : kind.Isolated setting) (hworld : setting.usable registry.world)
    (deliveries : List Delivery) (number : ℕ) :
    (registry.consumeAll kind deliveries).made[number]? =
      (registry.made[number]?).map fun sink =>
        { sink with state := setting.feed sink.state (deliveriesTo number deliveries) } := by
  induction deliveries generalizing registry with
  | nil => simp [consumeAll, deliveriesTo, Setting.feed]
  | cons delivery deliveries ih =>
    have hfirst := made_consume hkind hworld delivery number
    rw [consumeAll_cons, ih (consume_usable hkind hworld _ _ _), hfirst, Option.map_map]
    congr 1
    funext sink
    simp only [Function.comp_apply, deliveriesTo, Setting.feed, ← List.foldl_append,
      ← List.filter_append, List.singleton_append]

/-- A sample is taken, and a sink takes its own ones of the following samples, if and only if it
takes its own ones of all of them. -/
theorem sinkTakes_cons (hkind : kind.Isolated setting) (hworld : setting.usable registry.world)
    (delivery : Delivery) (deliveries : List Delivery) (number : ℕ) :
    setting.SinkTakes (registry.made[number]?) (deliveriesTo number (delivery :: deliveries)) ↔
      (delivery.sink = number →
        (registry.consume kind delivery.sink delivery.sample delivery.record).1 = .accepted) ∧
      setting.SinkTakes
        ((registry.consume kind delivery.sink delivery.sample delivery.record).2.made[number]?)
        (deliveriesTo number deliveries) := by
  rw [made_consume hkind hworld, consume_accepted_iff hkind hworld]
  by_cases hsame : delivery.sink = number
  · subst hsame
    cases registry.made[delivery.sink]? with
    | none => simp [Setting.SinkTakes, deliveriesTo]
    | some sink => simp [Setting.SinkTakes, Setting.TakesAll, Setting.feed, deliveriesTo]
  · cases registry.made[number]? with
    | none => simp [Setting.SinkTakes, deliveriesTo, hsame]
    | some sink => simp [Setting.SinkTakes, Setting.feed, deliveriesTo, hsame]

/-- Samples are taken if and only if every sink takes its own ones among them. -/
theorem takes_iff (hkind : kind.Isolated setting) (hworld : setting.usable registry.world)
    (deliveries : List Delivery) :
    registry.Takes kind deliveries ↔
      ∀ number, setting.SinkTakes (registry.made[number]?) (deliveriesTo number deliveries) := by
  induction deliveries generalizing registry with
  | nil =>
    refine ⟨fun _ number => ?_, fun _ => trivial⟩
    cases registry.made[number]? <;> trivial
  | cons delivery deliveries ih =>
    have hrest := ih (consume_usable hkind hworld delivery.sink delivery.sample delivery.record)
    simp only [Takes, hrest, sinkTakes_cons hkind hworld, forall_and, forall_eq']

/-- The order of samples for different sinks makes no difference for whether they are taken. -/
theorem takes_congr (hkind : kind.Isolated setting) (hworld : setting.usable registry.world)
    {deliveries others : List Delivery}
    (h : ∀ number, deliveriesTo number deliveries = deliveriesTo number others) :
    registry.Takes kind deliveries ↔ registry.Takes kind others := by
  simp only [takes_iff hkind hworld, h]

/-- The order of samples for different sinks makes no difference for the sinks. -/
theorem made_consumeAll_congr (hkind : kind.Isolated setting)
    (hworld : setting.usable registry.world) {deliveries others : List Delivery}
    (h : ∀ number, deliveriesTo number deliveries = deliveriesTo number others) :
    (registry.consumeAll kind deliveries).made = (registry.consumeAll kind others).made := by
  refine List.ext_getElem? fun number => ?_
  rw [made_consumeAll hkind hworld, made_consumeAll hkind hworld, h number]

end ConsumeAll

section Finish

variable {other : Registry W S}

/-- What sinks share stays as it should be while one is finished. -/
theorem finish_usable (hkind : kind.Isolated setting) (hworld : setting.usable registry.world)
    (number : ℕ) : setting.usable (registry.finish kind number).2.world := by
  unfold finish
  split
  · exact hworld
  · exact hkind.finish_usable _ _ hworld

/-- Finishing a sink has the outcome that the setting says. -/
theorem finish_outcome (hkind : kind.Isolated setting) (hworld : setting.usable registry.world)
    (number : ℕ) :
    (registry.finish kind number).1 =
      ((registry.made[number]?).map fun sink => (setting.finish sink.state).1).getD (.ok ()) := by
  unfold finish
  split
  · rename_i hnone
    rw [hnone]
    rfl
  · rename_i sink hsink
    rw [hsink]
    exact (hkind.finish _ _ hworld).1

/-- Finishing a sink changes it as the setting says, and no other one. -/
theorem made_finish (hkind : kind.Isolated setting) (hworld : setting.usable registry.world)
    (number place : ℕ) :
    (registry.finish kind number).2.made[place]? =
      (registry.made[place]?).map fun sink =>
        { sink with
          state := if place = number then (setting.finish sink.state).2 else sink.state } := by
  unfold finish
  split
  · rename_i hnone
    by_cases hsame : place = number
    · rw [hsame, hnone]
      rfl
    · simp [hsame]
  · rename_i sink hsink
    dsimp only
    rw [List.getElem?_set]
    by_cases hsame : number = place
    · subst hsame
      have hbound := (List.getElem?_eq_some_iff.mp hsink).1
      rw [if_pos rfl, if_pos hbound, hsink, Option.map_some, if_pos rfl,
        (hkind.finish _ _ hworld).2]
    · simp [hsame, Ne.symm hsame]

/-- What finishing one sink keeps, finishing several keeps. -/
theorem finishEntries_keeps (keeps : Registry W S → Prop)
    (hstep : ∀ registry number, keeps registry → keeps (registry.finish kind number).2)
    (hkeeps : keeps registry) (entries : List (String × ℕ)) :
    keeps (registry.finishEntries kind entries).2 := by
  induction entries generalizing registry with
  | nil => exact hkeeps
  | cons entry entries ih =>
    have hfirst := hstep registry entry.2 hkeeps
    unfold finishEntries
    split
    · rename_i hfinish
      rw [hfinish] at hfirst
      exact hfirst
    · rename_i hfinish
      rw [hfinish] at hfirst
      exact ih hfirst

/-- Finishing sinks leaves the streams. -/
theorem finishEntries_sameStreams (entries : List (String × ℕ)) :
    registry.SameStreams (registry.finishEntries kind entries).2 :=
  finishEntries_keeps registry.SameStreams
    (fun later number hlater => hlater.trans (SameStreams.finish kind later number))
    (.refl registry) entries

/-- The same sinks are finished with the same outcome and to the same effect. -/
theorem finishEntries_congr (hkind : kind.Isolated setting)
    (hworld : setting.usable registry.world) (hother : setting.usable other.world)
    (hmade : registry.made = other.made) (entries : List (String × ℕ)) :
    (registry.finishEntries kind entries).1 = (other.finishEntries kind entries).1 ∧
      (registry.finishEntries kind entries).2.made =
        (other.finishEntries kind entries).2.made := by
  induction entries generalizing registry other with
  | nil => exact ⟨rfl, hmade⟩
  | cons entry entries ih =>
    rcases entry with ⟨stream, number⟩
    have houtcome : (registry.finish kind number).1 = (other.finish kind number).1 := by
      rw [finish_outcome hkind hworld, finish_outcome hkind hother, hmade]
    have heffect : (registry.finish kind number).2.made = (other.finish kind number).2.made := by
      refine List.ext_getElem? fun place => ?_
      rw [made_finish hkind hworld, made_finish hkind hother, hmade]
    have hfirst := finish_usable hkind hworld number
    have hsecond := finish_usable hkind hother number
    unfold finishEntries
    rcases hone : registry.finish kind number with ⟨one, later⟩
    rcases htwo : other.finish kind number with ⟨two, after⟩
    rw [hone] at houtcome heffect hfirst
    rw [htwo] at houtcome heffect hsecond
    dsimp only at houtcome heffect hfirst hsecond
    subst houtcome
    cases one with
    | error cause => exact ⟨rfl, heffect⟩
    | ok =>
      -- What the sinks share may differ by now; what the sinks keep does not.
      exact ih hfirst hsecond heffect

/-- The order of samples for different sinks makes no difference for whether the sinks can be
finished then, and for what they keep. -/
theorem finishAll_consumeAll_congr (hkind : kind.Isolated setting)
    (hworld : setting.usable registry.world) {deliveries others : List Delivery}
    (h : ∀ number, deliveriesTo number deliveries = deliveriesTo number others) :
    ((registry.consumeAll kind deliveries).finishAll kind).1 =
        ((registry.consumeAll kind others).finishAll kind).1 ∧
      ((registry.consumeAll kind deliveries).finishAll kind).2.made =
        ((registry.consumeAll kind others).finishAll kind).2.made := by
  have hsinks (given : List Delivery) : (registry.consumeAll kind given).sinks = registry.sinks :=
    (consumeAll_sameStreams given).sinks
  unfold finishAll
  rw [hsinks, hsinks]
  exact finishEntries_congr hkind (consumeAll_usable hkind hworld deliveries)
    (consumeAll_usable hkind hworld others) (made_consumeAll_congr hkind hworld h) _

/-- If all of some sinks can be finished, each of them is finished once. -/
theorem made_finishEntries (hkind : kind.Isolated setting)
    (hworld : setting.usable registry.world) {entries : List (String × ℕ)}
    (hnodup : (entries.map (·.2)).Nodup)
    (hok : (registry.finishEntries kind entries).1 = .ok ()) (place : ℕ) :
    (registry.finishEntries kind entries).2.made[place]? =
      (registry.made[place]?).map fun sink =>
        { sink with
          state := if place ∈ entries.map (·.2) then (setting.finish sink.state).2
            else sink.state } := by
  induction entries generalizing registry with
  | nil => simp [finishEntries]
  | cons entry entries ih =>
    rcases entry with ⟨stream, number⟩
    rcases List.nodup_cons.mp hnodup with ⟨hnew, hothers⟩
    have hmade := made_finish hkind hworld number place
    have hfirst := finish_usable hkind hworld number
    unfold finishEntries at hok ⊢
    rcases hone : registry.finish kind number with ⟨one, later⟩
    rw [hone] at hok hmade hfirst
    cases one with
    | error cause => cases hok
    | ok =>
      dsimp only at hok hmade hfirst ⊢
      have hmember : place ∈ ((stream, number) :: entries).map (·.2) ↔
          place = number ∨ place ∈ entries.map (·.2) := List.mem_cons
      rw [ih hfirst hothers hok, hmade, Option.map_map]
      congr 1
      funext sink
      by_cases hsame : place = number
      · have hdone : place ∉ entries.map (·.2) := hsame ▸ hnew
        simp only [Function.comp_apply, if_pos hsame, if_neg hdone,
          if_pos (hmember.mpr (.inl hsame))]
      · simp only [Function.comp_apply, hmember, hsame, false_or, if_false]

end Finish

end Registry

end SampleDemux
