import SampleDemux.Proofs.LaneProcess
import SampleDemux.Proofs.SeparateSinks

/-!
# Sinks that panic

A lane that is driven reports a panic if and only if a sink panicked on one of its samples. The
panic stops the lane at once, so that the report, which names the lane, is never lost on the way
from the sink through chunk, block and step; and nothing else that stops a lane reports one.
-/

namespace SampleDemux

/-- An outcome is the report of a panic, which names a lane. -/
def Panicked {α : Type} (lane : String) (outcome : Except ConvertError α) : Prop :=
  outcome = .error (.workerPanicked lane)

/-- Errors that are handed on are reports of panics as before. -/
theorem panicked_error_congr {α β : Type} {lane : String} {error : ConvertError} :
    Panicked lane (.error error : Except ConvertError α) ↔
      Panicked lane (.error error : Except ConvertError β) := by
  rw [Panicked, Panicked, Except.error.injEq, Except.error.injEq]

namespace Process

variable {α β : Type}

/-- A process comes to results that tell of a panic at once when a sink panics, and never
otherwise. -/
inductive Tells (told : α → Prop) : Process α → Prop
  /-- The result is there, without a panic. -/
  | done {result : α} (hresult : ¬told result) : Tells told (.done result)
  /-- A panic is told at once; after any other reply the process goes on. -/
  | deliver {delivery : Delivery} {next : Reply → Process α}
      (hpanicked : ∃ result, next .panicked = .done result ∧ told result)
      (hnext : ∀ reply, reply ≠ .panicked → Tells told (next reply)) :
      Tells told (.deliver delivery next)
  /-- A file is looked at. -/
  | look {part : FilePart} {next : List UInt8 → Process α}
      (hnext : ∀ data, Tells told (next data)) : Tells told (.look part next)

namespace Tells

variable {told : α → Prop} {process : Process α}

/-- Such a process comes to a result that tells of a panic if and only if a sink panics. -/
theorem told_iff {W S : Type} (h : process.Tells told) (kind : SinkKind W S)
    (registry : Registry W S) :
    told (process.run kind registry).1 ↔ process.panics kind registry = true := by
  induction h generalizing registry with
  | done hresult =>
    constructor
    · intro htold
      exact absurd htold hresult
    · exact nofun
  | @deliver delivery next hpanicked _ ih =>
    obtain ⟨result, hdone, htold⟩ := hpanicked
    simp only [run, panics, Bool.or_eq_true, decide_eq_true_eq]
    by_cases hreply : (registry.consume kind delivery.sink delivery.sample delivery.record).1 =
      .panicked
    · rw [hreply, hdone]
      exact ⟨fun _ => .inl rfl, fun _ => htold⟩
    · have hrest := ih _ hreply
        (registry.consume kind delivery.sink delivery.sample delivery.record).2
      exact hrest.trans ⟨.inr, fun h => h.resolve_left hreply⟩
  | look _ ih => exact ih _ registry

/-- Going on with a result tells of panics if every way to go on does and a panic is not lost. -/
theorem bind {later : β → Prop} {f : α → Process β} (h : process.Tells told)
    (hnext : ∀ result, process.CanReturn result → ¬told result → (f result).Tells later)
    (hkept : ∀ result, told result → ∃ final, f result = .done final ∧ later final) :
    (process.bind f).Tells later := by
  induction h with
  | done hresult => exact hnext _ (.done _) hresult
  | deliver hpanicked _ ih =>
    refine .deliver ?_ fun reply hreply =>
      ih reply hreply fun result hresult => hnext result (.deliver reply hresult)
    obtain ⟨result, hdone, htold⟩ := hpanicked
    obtain ⟨final, hfinal, hlater⟩ := hkept result htold
    exact ⟨final, by rw [hdone]; exact hfinal, hlater⟩
  | look _ ih =>
    exact .look fun data => ih data fun result hresult => hnext result (.look data hresult)

/-- Giving a result to a function tells of panics if the function neither loses nor makes up one. -/
theorem map {later : β → Prop} {f : α → β} (h : process.Tells told)
    (hiff : ∀ result, later (f result) ↔ told result) : (process.map f).Tells later :=
  h.bind (fun result _ hresult => .done ((hiff result).not.mpr hresult)) fun result htold =>
    ⟨f result, rfl, (hiff result).mpr htold⟩

end Tells

end Process

open Process

variable (lane : String)

/-- Getting bytes from a file tells of nothing, as no sink has a part in it. -/
theorem ByteSource.fetch_tells (source : ByteSource) (wanted : ℕ) (amount : ℕ → ℕ) :
    (source.fetch wanted amount).Tells fun _ => False := by
  unfold fetch
  split
  · exact .done not_false
  · dsimp only
    split
    · exact .done not_false
    · exact .look fun _ => .done not_false

namespace ChunkRunner

/-- Delivering samples tells of panics. -/
theorem deliverAll_tells (count : ℕ) (deliveries : List Delivery) :
    (deliverAll lane count deliveries).Tells (Panicked lane) := by
  induction deliveries generalizing count with
  | nil => exact .done nofun
  | cons delivery deliveries ih =>
    refine .deliver ⟨_, rfl, rfl⟩ fun reply hreply => ?_
    cases reply with
    | accepted => exact ih (count + 1)
    | refused cause => exact .done nofun
    | panicked => exact absurd rfl hreply

variable (runner : ChunkRunner) (source : ByteSource)

/-- Reading a chunk from the bytes at hand tells of panics. -/
theorem executeNext_tells :
    (runner.executeNext lane source).Tells fun result => Panicked lane result.1 := by
  unfold executeNext
  dsimp only
  split
  · exact .done nofun
  · exact .done nofun
  · exact .done nofun
  · split
    · exact .done nofun
    · refine (deliverAll_tells lane 0 _).map fun outcome => ?_
      cases outcome with
      | error error => exact panicked_error_congr
      | ok count => exact ⟨nofun, nofun⟩

/-- Reading a chunk tells of panics. -/
theorem execute_tells :
    (runner.execute lane source).Tells fun result => Panicked lane result.1 :=
  (source.fetch_tells _ _).bind (fun later _ _ => runner.executeNext_tells lane later) nofun

end ChunkRunner

namespace BlockRunner

variable (start : ℕ) (source : ByteSource)

/-- Passing over a region tells of nothing. -/
theorem skipRegion_tells (size : ℕ) :
    (skipRegion lane size start source).Tells fun result => Panicked lane result.1 := by
  refine (source.fetch_tells _ _).map fun later => ⟨fun hpanicked => ?_, False.elim⟩
  unfold skipNext at hpanicked
  dsimp only at hpanicked
  split at hpanicked
  · cases hpanicked
  · cases hpanicked
  · split at hpanicked <;> cases hpanicked
  · cases hpanicked

/-- Reading chunks tells of panics. -/
theorem runChunks_tells (samples : ℕ) (chunks : List ChunkRunner) :
    (runChunks lane start samples chunks source).Tells fun result => Panicked lane result.1 := by
  induction chunks generalizing samples source with
  | nil => exact .done nofun
  | cons chunk chunks ih =>
    refine (chunk.execute_tells lane source).bind (fun result _ hresult => ?_) ?_
    · obtain ⟨error | _ | count, later⟩ := result
      · exact .done (panicked_error_congr.not.mp hresult)
      · dsimp only
        split <;> exact .done nofun
      · exact ih later (samples + count)
    · rintro ⟨_, later⟩ rfl
      exact ⟨_, rfl, rfl⟩

/-- Running a cycle tells of panics. -/
theorem runCycle_tells (block : BlockRunner) :
    (block.runCycle lane source).Tells fun result => Panicked lane result.1 := by
  refine (skipRegion_tells lane source.position source block.sizeHeader).bind
    (fun result _ hheader => ?_) ?_
  · obtain ⟨error | _ | _, behind⟩ := result
    · exact .done (panicked_error_congr.not.mp hheader)
    · exact .done nofun
    · refine (runChunks_tells lane source.position behind 0 block.chunks).bind
        (fun result _ hchunks => ?_) ?_
      · obtain ⟨error | _ | samples, later⟩ := result
        · exact .done (panicked_error_congr.not.mp hchunks)
        · exact .done nofun
        · refine (skipRegion_tells lane source.position later block.sizeFooter).map fun footer => ?_
          obtain ⟨error | _ | _, final⟩ := footer
          · exact panicked_error_congr
          · exact ⟨nofun, nofun⟩
          · exact ⟨nofun, nofun⟩
      · rintro ⟨_, later⟩ rfl
        exact ⟨_, rfl, rfl⟩
  · rintro ⟨_, behind⟩ rfl
    exact ⟨_, rfl, rfl⟩

end BlockRunner

namespace Lane

/-- How a cycle came out tells of a panic if and only if the step does. -/
theorem panicked_settle (lane : Lane) (id : String)
    (result : Except ConvertError CycleOutcome × ByteSource) :
    Panicked id (lane.settle result).1 ↔ Panicked id result.1 := by
  obtain ⟨error | _ | _, source⟩ := result
  · exact panicked_error_congr
  · exact ⟨nofun, nofun⟩
  · exact ⟨nofun, nofun⟩

/-- A step of a lane tells of panics. -/
theorem step_tells (lane : Lane) :
    lane.step.Tells fun result => Panicked lane.id result.1 := by
  obtain ⟨-, hstep⟩ | hstep | ⟨block, -, hstep⟩ := lane.step_cases
  · rw [hstep]
    exact .done nofun
  · rw [hstep]
    exact .done nofun
  · rw [hstep]
    exact (block.runCycle_tells lane.id lane.source).map fun result =>
      lane.turn.panicked_settle lane.id result

/-- Driving a lane tells of panics. -/
theorem driveSteps_tells (seen : List Sight) (steps : ℕ) (lane : Lane) :
    (driveSteps seen steps lane).Tells fun drive => Panicked lane.id drive.outcome := by
  induction steps generalizing seen lane with
  | zero => exact .done nofun
  | succ steps ih =>
    refine lane.step_tells.bind (fun result hstep hresult => ?_) ?_
    · have hlater := (lane.later_of_step hstep).1
      obtain ⟨error | ⟨bytes, samples⟩ | _, next⟩ := result
      · exact .done (panicked_error_congr.not.mp hresult)
      · have hrest := ih (⟨next.position, next.finished⟩ :: seen) next
        rwa [hlater.id] at hrest
      · exact .done nofun
    · rintro ⟨_, next⟩ rfl
      exact ⟨_, rfl, rfl⟩

/-- A lane that is driven reports a panic if and only if a sink panicked. -/
theorem panicked_drive_iff {W S : Type} (lane : Lane) (kind : SinkKind W S)
    (registry : Registry W S) :
    (lane.drive.run kind registry).1.outcome = .error (.workerPanicked lane.id) ↔
      lane.drive.panics kind registry = true :=
  (lane.driveSteps_tells [] _).told_iff kind registry

end Lane

end SampleDemux
