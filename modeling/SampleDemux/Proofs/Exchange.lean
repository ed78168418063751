import SampleDemux.Proofs.Interleaving

/-!
# Exchanges of a process

On its way to a result a process delivers samples and gets a reply to each of them, and it looks at
files and is shown bytes. What it may come to by which exchanges is said here for all sinks and all
schedules at once: any reply may come, and what files show is left open, or is what they hold. A run
in a registry is one such course, also if other processes run in between. Which samples a process
delivers is left to others.
-/

namespace SampleDemux

/-- A sample that was delivered, and the reply to it. -/
structure Exchange where
  /-- The sample. -/
  delivery : Delivery
  /-- The reply. -/
  reply : Reply
  deriving DecidableEq

/-- A sample that is taken. -/
def Exchange.taken (delivery : Delivery) : Exchange := ⟨delivery, .accepted⟩

/-- What files may show when they are looked at. -/
abbrev Showing := FilePart → List UInt8 → Prop

/-- Files show what they hold. -/
def Showing.of (contents : Location → List UInt8) : Showing :=
  fun part data => data = part.cut (contents part.location)

/-- Files at some places show what they hold. -/
def Showing.KeepsTo (shows : Showing) (contents : Location → List UInt8)
    (places : Location → Prop) : Prop :=
  ∀ part data, places part.location → shows part data →
    data = part.cut (contents part.location)

/-- What sinks of a kind share stays as it should be while samples are given to them, and then files
show what they may. -/
structure SinkKind.Shows {W S : Type} (kind : SinkKind W S) (usable : W → Prop)
    (shows : Showing) : Prop where
  /-- A sample leaves what sinks share as it should be. -/
  consume : ∀ state sample record world, usable world →
    usable (kind.consume state sample record world).2.2
  /-- A file shows what it may. -/
  look : ∀ part world, usable world → shows part (kind.look part world)

/-- What may be shown whatever sinks share needs nothing of it. -/
theorem SinkKind.Shows.of_look {W S : Type} {kind : SinkKind W S} {shows : Showing}
    (h : ∀ part world, shows part (kind.look part world)) :
    kind.Shows (fun _ => True) shows :=
  ⟨fun _ _ _ _ _ => trivial, fun part world _ => h part world⟩

namespace Process

variable {α β γ : Type} {shows : Showing}

/-- A process may come to a result by these exchanges, in this order. -/
inductive Exchanges (shows : Showing) : Process α → List Exchange → α → Prop
  /-- The result is there. -/
  | done (result : α) : Exchanges shows (.done result) [] result
  /-- A sample is delivered, and a sink replies. -/
  | deliver {delivery : Delivery} {next : Reply → Process α} {rest : List Exchange} {result : α}
      (reply : Reply) (h : Exchanges shows (next reply) rest result) :
      Exchanges shows (.deliver delivery next) (⟨delivery, reply⟩ :: rest) result
  /-- A file is looked at. -/
  | look {part : FilePart} {next : List UInt8 → Process α} {rest : List Exchange} {result : α}
      {data : List UInt8} (hdata : shows part data) (h : Exchanges shows (next data) rest result) :
      Exchanges shows (.look part next) rest result

/-- What a process comes to by some exchanges it may come to. -/
theorem Exchanges.canReturn {process : Process α} {exchanges : List Exchange} {result : α}
    (h : process.Exchanges shows exchanges result) : process.CanReturn result := by
  induction h with
  | done result => exact .done result
  | deliver reply _ ih => exact .deliver reply ih
  | look _ _ ih => exact .look _ ih

/-- Going on with a result adds the exchanges that are made then. -/
theorem exchanges_bind {process : Process α} {f : α → Process β} {exchanges : List Exchange}
    {final : β} :
    (process.bind f).Exchanges shows exchanges final ↔
      ∃ first rest result, process.Exchanges shows first result ∧
        (f result).Exchanges shows rest final ∧ exchanges = first ++ rest := by
  constructor
  · intro h
    induction process generalizing exchanges with
    | done result => exact ⟨[], exchanges, result, .done result, h, rfl⟩
    | deliver delivery next ih =>
      cases h with
      | deliver reply h =>
        obtain ⟨first, rest, result, hfirst, hrest, rfl⟩ := ih reply h
        exact ⟨_, rest, result, .deliver reply hfirst, hrest, rfl⟩
    | look part next ih =>
      cases h with
      | look hdata h =>
        obtain ⟨first, rest, result, hfirst, hrest, rfl⟩ := ih _ h
        exact ⟨_, rest, result, .look hdata hfirst, hrest, rfl⟩
  · rintro ⟨first, rest, result, hfirst, hrest, rfl⟩
    induction hfirst with
    | done result => exact hrest
    | deliver reply _ ih => exact .deliver reply (ih hrest)
    | look hdata _ ih => exact .look hdata (ih hrest)

/-- Giving a result to a function makes the same exchanges. -/
theorem exchanges_map {process : Process α} {f : α → β} {exchanges : List Exchange} {final : β} :
    (process.map f).Exchanges shows exchanges final ↔
      ∃ result, process.Exchanges shows exchanges result ∧ f result = final := by
  rw [map, exchanges_bind]
  constructor
  · rintro ⟨first, rest, result, hfirst, ⟨⟩, rfl⟩
    exact ⟨result, by rwa [List.append_nil], rfl⟩
  · rintro ⟨result, hresult, rfl⟩
    exact ⟨exchanges, [], result, hresult, .done _, (List.append_nil exchanges).symm⟩

/-- A process may come to its own result by its own deliveries. -/
theorem exchanges_own (contents : Location → List UInt8) (process : Process α) :
    process.Exchanges (.of contents) ((process.ownDeliveries contents).map .taken)
      (process.ownResult contents) := by
  induction process with
  | done result => exact .done result
  | deliver delivery next ih => exact .deliver .accepted (ih .accepted)
  | look part next ih => exact .look rfl (ih _)

/-- Going on with a result and giving the last one to a function may be done in one. -/
theorem map_bind (process : Process α) (f : α → Process β) (g : β → γ) :
    (process.bind f).map g = process.bind fun result => (f result).map g := by
  induction process with
  | done result => rfl
  | deliver delivery next ih =>
    simp only [map, bind, deliver.injEq, true_and]
    funext reply
    exact ih reply
  | look part next ih =>
    simp only [map, bind, look.injEq, true_and]
    funext data
    exact ih data

/-- Giving a result to one function and then to another may be done in one. -/
theorem map_map (process : Process α) (f : α → β) (g : β → γ) :
    (process.map f).map g = process.map fun result => g (f result) := map_bind process _ g

namespace Orderly

variable {owns : Delivery → Prop} {reads : Location → Prop} {failed : α → Prop}
  {process : Process α} {exchanges : List Exchange} {result : α}

/-- A process that fails at once when a sample is not taken comes to its own result if it has not
failed, over files that show what they hold. -/
theorem eq_ownResult {contents : Location → List UInt8} (h : process.Orderly owns reads failed)
    (hshows : shows.KeepsTo contents reads) (hexchanges : process.Exchanges shows exchanges result)
    (hresult : ¬failed result) : process.ownResult contents = result := by
  induction h generalizing exchanges with
  | done final =>
    cases hexchanges
    rfl
  | deliver _ hrefused _ ih =>
    cases hexchanges with
    | deliver reply hrest =>
      by_cases hreply : reply = .accepted
      · subst hreply
        exact ih hrest
      · obtain ⟨final, hdone, hfailed⟩ := hrefused reply hreply
        rw [hdone] at hrest
        cases hrest
        exact absurd hfailed hresult
  | look hpart _ ih =>
    cases hexchanges with
    | look hdata hrest =>
      obtain rfl := hshows _ _ hpart hdata
      exact ih _ hrest

end Orderly

/-- A process that owns no samples makes no exchanges. -/
theorem Orderly.exchanges_eq_nil {reads : Location → Prop} {failed : α → Prop}
    {process : Process α} {exchanges : List Exchange} {result : α}
    (h : process.Orderly (fun _ => False) reads failed)
    (hexchanges : process.Exchanges shows exchanges result) : exchanges = [] := by
  induction h generalizing exchanges with
  | done final =>
    cases hexchanges
    rfl
  | deliver hdelivery _ _ _ => exact hdelivery.elim
  | look _ _ ih =>
    cases hexchanges with
    | look _ hrest => exact ih _ hrest

section Runs

variable {W S : Type} {kind : SinkKind W S} {usable : W → Prop}

/-- A run in a registry is a course of exchanges, and its sinks were given the samples of these. -/
theorem exists_exchanges_run (hkind : kind.Shows usable shows) (process : Process α)
    (registry : Registry W S) (hworld : usable registry.world) :
    ∃ exchanges, process.Exchanges shows exchanges (process.run kind registry).1 ∧
      (process.run kind registry).2 =
        registry.consumeAll kind (exchanges.map (·.delivery)) ∧
      usable (process.run kind registry).2.world := by
  induction process generalizing registry with
  | done result => exact ⟨[], .done result, rfl, hworld⟩
  | deliver delivery next ih =>
    have hnext := Registry.world_consume hkind.consume hworld delivery.sink delivery.sample
      delivery.record
    obtain ⟨exchanges, hrest, hregistry⟩ := ih
      (registry.consume kind delivery.sink delivery.sample delivery.record).1 _ hnext
    exact ⟨_, .deliver _ hrest, hregistry⟩
  | look part next ih =>
    obtain ⟨exchanges, hrest, hregistry⟩ := ih (kind.look part registry.world) registry hworld
    exact ⟨exchanges, .look (hkind.look part _ hworld) hrest, hregistry⟩

/-- A step is the first part of a course of exchanges of the process, whatever comes of the rest. -/
theorem exchanges_of_step (hkind : kind.Shows usable shows) (process : Process α)
    {registry : Registry W S} (hworld : usable registry.world) :
    (∀ exchanges result, (process.step kind registry).1.Exchanges shows exchanges result →
      ∃ others, process.Exchanges shows others result) ∧
      usable (process.step kind registry).2.world := by
  cases process with
  | done result => exact ⟨fun exchanges _ h => ⟨exchanges, h⟩, hworld⟩
  | deliver delivery next =>
    exact ⟨fun _ _ h => ⟨_, .deliver _ h⟩, Registry.world_consume hkind.consume hworld _ _ _⟩
  | look part next =>
    exact ⟨fun exchanges _ h => ⟨exchanges, .look (hkind.look part _ hworld) h⟩, hworld⟩

/-- Processes that are run by turns come to results by courses of exchanges, each of them by its
own, whatever the schedule. -/
theorem exists_exchanges_interleave (hkind : kind.Shows usable shows) (schedule : List ℕ)
    (processes : List (Process α)) {registry : Registry W S} (hworld : usable registry.world) :
    List.Forall₂ (fun process result => ∃ exchanges, process.Exchanges shows exchanges result)
      processes (interleave kind schedule processes registry).1 := by
  induction schedule generalizing processes registry with
  | nil =>
    unfold interleave
    induction processes generalizing registry with
    | nil => exact .nil
    | cons process processes ih =>
      obtain ⟨exchanges, hrun, -, hnext⟩ := exists_exchanges_run hkind process registry hworld
      exact .cons ⟨exchanges, hrun⟩ (ih hnext)
  | cons turn schedule ih =>
    unfold interleave
    cases hturn : processes[turn]? with
    | none => exact ih processes hworld
    | some process =>
      obtain ⟨hprocess, hnext⟩ := exchanges_of_step hkind process hworld
      have hrest := ih (processes.set turn (process.step kind registry).1) hnext
      have hsame : List.Forall₂ _ processes (List.modify _ turn id) :=
        forall₂_modify_of_set hrest hturn fun _ hrun =>
          hrun.elim fun exchanges h => hprocess exchanges _ h
      rwa [List.modify_id] at hsame

end Runs

end Process

end SampleDemux
