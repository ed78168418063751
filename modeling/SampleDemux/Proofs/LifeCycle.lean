import SampleDemux.Proofs.ScheduleIndependence

/-!
# The life of a converter

Whatever is done with a converter, it is either as new or open for the descriptor that was opened
last. It becomes as new again when it is closed, and when it cannot be opened, at whatever lane and
for whatever reason. While it is open it cannot be opened again, and no failure of a lane, of a sink
or of a run closes it.
-/

namespace SampleDemux

namespace Converter

variable {W S : Type}

/-- The converter over the files as an opener finds them. -/
def withOpener (converter : Converter W S) (opener : Opener) : Converter W S :=
  { converter with opener }

/-- Something that is done with a converter. -/
inductive Operation where
  /-- Opens a descriptor, with the files below a directory as an opener finds them at the time. -/
  | openDescriptor (opener : Opener) (descriptor : Descriptor) (directory : Path)
  /-- Runs the lanes. -/
  | runWith (mode : RunMode)
  /-- Runs one cycle of a lane. -/
  | stepLane (index : ℕ)
  /-- Runs a lane to the end of its input. -/
  | runLane (index : ℕ)
  /-- Closes the input of a lane. -/
  | closeLane (index : ℕ)
  /-- Lets go of everything. -/
  | close

/-- The converter after an operation. -/
def Operation.apply (converter : Converter W S) : Operation → Converter W S
  | .openDescriptor opener descriptor directory =>
    ((converter.withOpener opener).openDescriptor descriptor directory).2
  | .runWith mode => (converter.runWith mode).2
  | .stepLane index => (converter.stepLane index).2
  | .runLane index => (converter.runLane index).2
  | .closeLane index => (converter.closeLane index).2
  | .close => converter.close

/-- The descriptor that an operation opens, if it opens one. -/
def Operation.opened? (converter : Converter W S) : Operation → Option Descriptor
  | .openDescriptor opener descriptor directory =>
    match ((converter.withOpener opener).openDescriptor descriptor directory).1 with
    | .error _ => none
    | .ok () => some descriptor
  | _ => none

/-- The converter after operations. -/
def after (converter : Converter W S) (operations : List Operation) : Converter W S :=
  operations.foldl Operation.apply converter

/-- The descriptor that was opened last by operations, if one was. -/
def lastOpened (converter : Converter W S) : List Operation → Option Descriptor
  | [] => none
  | operation :: rest =>
    (lastOpened (operation.apply converter) rest).or (operation.opened? converter)

/-- A converter of a kind of sinks that is as good as a new one: apart from sinks that were once
made, which it does not know any more, it is a new one. -/
def AsNew (kind : SinkKind W S) (converter : Converter W S) : Prop :=
  ∃ world opener made, converter = { new kind world opener with registry := { world, made } }

/-- One more operation. -/
theorem after_concat (converter : Converter W S) (operations : List Operation)
    (operation : Operation) :
    converter.after (operations ++ [operation]) =
      operation.apply (converter.after operations) := by
  rw [after, List.foldl_append]
  rfl

/-- The last of several operations opens a descriptor, or those before it did. -/
theorem lastOpened_concat (converter : Converter W S) (operations : List Operation)
    (operation : Operation) :
    converter.lastOpened (operations ++ [operation]) =
      (operation.opened? (converter.after operations)).or (converter.lastOpened operations) := by
  induction operations generalizing converter with
  | nil =>
    have hafter : converter.after [] = converter := rfl
    rw [List.nil_append, hafter, lastOpened, lastOpened, lastOpened, Option.none_or,
      Option.or_none]
  | cons first rest ih =>
    have hafter : converter.after (first :: rest) = (first.apply converter).after rest := rfl
    rw [List.cons_append, lastOpened, lastOpened, ih, hafter, Option.or_assoc]

variable {kind : SinkKind W S} {converter later fresh : Converter W S}

/-- A converter is as good as new if it is not open and has no lanes, no sinks and no records. -/
theorem asNew_iff : converter.AsNew kind ↔
    converter.kind = kind ∧ converter.isOpen = false ∧ converter.lanes = [] ∧
      converter.registry.sinks = {} ∧ converter.registry.records = {} := by
  constructor
  · rintro ⟨world, opener, made, rfl⟩
    exact ⟨rfl, rfl, rfl, rfl, rfl⟩
  · rcases converter with ⟨kind, opener, ⟨world, made, sinks, records⟩, lanes, isOpen⟩
    rintro ⟨hkind, hopen, hlanes, hsinks, hrecords⟩
    dsimp only at hkind hopen hlanes hsinks hrecords
    subst hkind hopen hlanes hsinks hrecords
    exact ⟨world, opener, made, rfl⟩

/-- A converter that is as new is not open. -/
theorem AsNew.isOpen (h : converter.AsNew kind) : converter.isOpen = false :=
  (asNew_iff.mp h).2.1

/-- A converter that is as new is consistent. -/
theorem AsNew.consistent (h : converter.AsNew kind) : converter.Consistent := by
  obtain ⟨-, -, hlanes, hsinks, hrecords⟩ := asNew_iff.mp h
  refine ⟨.of_empty hsinks hrecords, fun lane hlane => ?_, fun _ => hlanes⟩
  rw [hlanes] at hlane
  cases hlane

/-- Where the files are makes no difference for a converter that is as new. -/
theorem AsNew.withOpener (h : converter.AsNew kind) (opener : Opener) :
    (converter.withOpener opener).AsNew kind := by
  obtain ⟨world, _, made, rfl⟩ := h
  exact ⟨world, opener, made, rfl⟩

/-- A converter of the shape of one that is as new is as new. -/
theorem SameShape.asNew (hshape : converter.SameShape later) (h : converter.AsNew kind) :
    later.AsNew kind := by
  obtain ⟨hkind, hopen, hlanes, hsinks, hrecords⟩ := asNew_iff.mp h
  have hnone := hshape.lanes
  rw [hlanes, List.forall₂_nil_left_iff] at hnone
  exact asNew_iff.mpr ⟨hshape.kind.trans hkind, hshape.isOpen.trans hopen, hnone,
    hshape.registry.sinks.trans hsinks, hshape.registry.records.trans hrecords⟩

/-- A converter that is as new and cannot be opened is as new. -/
theorem AsNew.openDescriptor_error (h : converter.AsNew kind) {descriptor : Descriptor}
    {directory : Path} {error : ConvertError}
    (herror : (converter.openDescriptor descriptor directory).1 = .error error) :
    (converter.openDescriptor descriptor directory).2.AsNew kind := by
  obtain ⟨hkind, -, hlanes, -, -⟩ := asNew_iff.mp h
  rw [openDescriptor_of_closed h.isOpen] at herror ⊢
  cases hstart : startLanes converter.kind converter.opener descriptor directory
    descriptor.lanes converter.registry with
  | mk result registry =>
    cases result with
    | error _ => exact asNew_iff.mpr ⟨hkind, h.isOpen, hlanes, rfl, rfl⟩
    | ok _ =>
      rw [hstart] at herror
      cases herror

/-- A converter after operations of which some opened a descriptor last: it is as new, or it was
opened for that descriptor when it was as new, and has kept its shape since. -/
inductive Phase (kind : SinkKind W S) (last : Option Descriptor) (converter : Converter W S) :
    Prop where
  /-- The converter is as new. -/
  | asNew (h : converter.AsNew kind)
  /-- The converter is open. -/
  | opened {fresh : Converter W S} {descriptor : Descriptor} {directory : Path}
      (hfresh : fresh.AsNew kind) (hlast : last = some descriptor)
      (hok : (fresh.openDescriptor descriptor directory).1 = .ok ())
      (hshape : (fresh.openDescriptor descriptor directory).2.SameShape converter)

/-- A converter that was opened is open. -/
theorem isOpen_of_openDescriptor {descriptor : Descriptor} {directory : Path}
    (hok : (converter.openDescriptor descriptor directory).1 = .ok ()) :
    (converter.openDescriptor descriptor directory).2.isOpen = true := by
  obtain ⟨-, lanes, registry, -, hopened⟩ := exists_startLanes hok
  rw [hopened]

/-- A converter keeps its phase while it keeps its shape. -/
theorem Phase.of_shape {last : Option Descriptor} (h : Phase kind last converter)
    (hshape : converter.SameShape later) : Phase kind last later := by
  cases h with
  | asNew hnew => exact .asNew (hshape.asNew hnew)
  | opened hfresh hlast hok hopened => exact .opened hfresh hlast hok (hopened.trans hshape)

/-- A closed converter is as new. -/
theorem asNew_close (hkind : converter.kind = kind) : converter.close.AsNew kind :=
  asNew_iff.mpr ⟨hkind, rfl, rfl, rfl, rfl⟩

/-- A converter keeps the kind of its sinks. -/
theorem Phase.kind_eq {last : Option Descriptor} (h : Phase kind last converter) :
    converter.kind = kind := by
  cases h with
  | asNew hnew => exact (asNew_iff.mp hnew).1
  | opened hfresh _ hok hshape =>
    obtain ⟨-, lanes, registry, -, hopened⟩ := exists_startLanes hok
    have hkind := hshape.kind
    rw [hopened] at hkind
    exact hkind.trans (asNew_iff.mp hfresh).1

/-- Opening a descriptor leads from phase to phase. -/
theorem Phase.openDescriptor {last : Option Descriptor} (h : Phase kind last converter)
    (opener : Opener) (descriptor : Descriptor) (directory : Path) :
    Phase kind
      (((Operation.openDescriptor opener descriptor directory).opened? converter).or last)
      ((converter.withOpener opener).openDescriptor descriptor directory).2 := by
  dsimp only [Operation.opened?]
  cases h with
  | asNew hnew =>
    have hfound := hnew.withOpener opener
    cases hresult : ((converter.withOpener opener).openDescriptor descriptor directory).1 with
    | error error => exact .asNew (hfound.openDescriptor_error hresult)
    | ok => exact .opened hfound Option.some_or hresult (.refl _)
  | opened hfresh hlast hok hshape =>
    have hopen : (converter.withOpener opener).isOpen = true :=
      hshape.isOpen.trans (isOpen_of_openDescriptor hok)
    rw [openDescriptor_of_open hopen, Option.none_or]
    exact .opened hfresh hlast hok ⟨hshape.lanes, hshape.registry, hshape.kind, hshape.isOpen⟩

/-- Every operation leads from phase to phase. -/
theorem Phase.apply {last : Option Descriptor} (h : Phase kind last converter)
    (operation : Operation) :
    Phase kind ((operation.opened? converter).or last) (operation.apply converter) := by
  cases operation with
  | openDescriptor opener descriptor directory => exact h.openDescriptor opener descriptor directory
  | runWith mode => exact h.of_shape (converter.runWith_shape mode)
  | stepLane index => exact h.of_shape (converter.stepLane_shape index)
  | runLane index => exact h.of_shape (converter.runLane_shape index)
  | closeLane index => exact h.of_shape (converter.closeLane_shape index)
  | close => exact .asNew (asNew_close h.kind_eq)

/-- A converter that was as new is in a phase after any operations. -/
theorem AsNew.phase_after (h : converter.AsNew kind) (operations : List Operation) :
    Phase kind (converter.lastOpened operations) (converter.after operations) := by
  induction operations using List.reverseRecOn with
  | nil => exact .asNew h
  | append_singleton operations operation ih =>
    rw [after_concat, lastOpened_concat]
    exact ih.apply operation

/-- A converter that is not open is as new. -/
theorem Phase.asNew_of_closed {last : Option Descriptor} (h : Phase kind last converter)
    (hclosed : converter.isOpen = false) : converter.AsNew kind := by
  cases h with
  | asNew hnew => exact hnew
  | opened _ _ hok hshape =>
    rw [hshape.isOpen, isOpen_of_openDescriptor hok] at hclosed
    cases hclosed

/-- The lanes of an open converter are those of the descriptor that was opened last. -/
theorem Phase.lanes {last : Option Descriptor} (h : Phase kind last converter)
    (hopen : converter.isOpen = true) :
    ∃ descriptor, last = some descriptor ∧
      List.Forall₂ (Lane.OpenedFrom descriptor converter.registry) descriptor.lanes
        converter.lanes := by
  cases h with
  | asNew hnew => exact absurd hopen (Bool.not_eq_true _ ▸ hnew.isOpen)
  | opened hfresh hlast hok hshape =>
    have hlanes := hfresh.consistent.lanes_of_openDescriptor hok
    exact ⟨_, hlast, forall₂_comp hlanes hshape.lanes fun hlane halike =>
      hlane.mono halike hshape.registry.grows⟩

/-- A converter that is not open. -/
structure StandsClosed (kind : SinkKind W S) (converter : Converter W S) : Prop where
  /-- It is as good as new. -/
  asNew : converter.AsNew kind
  /-- It is so as well after it could not be opened, whichever the lane and the reason. -/
  openDescriptor_fails : ∀ opener descriptor directory error,
    ((converter.withOpener opener).openDescriptor descriptor directory).1 = .error error →
      ((converter.withOpener opener).openDescriptor descriptor directory).2.AsNew kind
  /-- It cannot be run, which changes nothing. -/
  runWith_eq : ∀ mode, converter.runWith mode = (⟨.error .notOpen, []⟩, converter)

/-- A converter that is open. -/
structure StandsOpen (last : Option Descriptor) (converter : Converter W S) : Prop where
  /-- Its lanes are those of the descriptor that was opened last, in that order, each with the
  declared name and with the blocks of its plan. -/
  lanes : ∃ descriptor, last = some descriptor ∧
    List.Forall₂ (Lane.OpenedFrom descriptor converter.registry) descriptor.lanes converter.lanes
  /-- It cannot be opened again, which changes nothing. -/
  openDescriptor_eq : ∀ opener descriptor directory,
    (converter.withOpener opener).openDescriptor descriptor directory =
      (.error .alreadyOpen, converter.withOpener opener)
  /-- It stays open in a run, also in one that fails. -/
  runWith_isOpen : ∀ mode, (converter.runWith mode).2.isOpen = true

/-- Take a converter that is as good as a new one, and open descriptors, run the lanes in any mode,
step, run and close single lanes and close the converter, in any order and as often as wanted, with
whatever files there are and whatever the sinks do. It is as new whenever it is not open, and stands
for the descriptor that was opened last whenever it is. -/
theorem state_after_operations (hnew : converter.AsNew kind) (operations : List Operation) :
    ((converter.after operations).isOpen = false → (converter.after operations).StandsClosed kind) ∧
    ((converter.after operations).isOpen = true →
      (converter.after operations).StandsOpen (converter.lastOpened operations)) := by
  have hphase := hnew.phase_after operations
  constructor
  · intro hclosed
    have hagain := hphase.asNew_of_closed hclosed
    exact
      { asNew := hagain
        openDescriptor_fails := fun opener _ _ _ herror =>
          (hagain.withOpener opener).openDescriptor_error herror
        runWith_eq := runWith_of_closed hclosed }
  · intro hopen
    refine
      { lanes := hphase.lanes hopen
        openDescriptor_eq := fun opener descriptor directory => ?_
        runWith_isOpen := fun mode => (runWith_shape _ mode).isOpen.trans hopen }
    · have hfound : ((converter.after operations).withOpener opener).isOpen = true := hopen
      exact openDescriptor_of_open hfound descriptor directory

end Converter

/-- A file `p` of given bytes, and others, which may be missing. -/
def pairFiles (first : List UInt8) (others : Option (List UInt8)) : Opener := fun path =>
  if path.text = "p" then .ok (.ofBytes first)
  else
    match others with
    | none => .error "no such file"
    | some data => .ok (.ofBytes data)

/-- A recording of two lanes is opened while the second file is missing, and then while it is cut
short; a lane is stepped, another recording is tried, and the lanes are run. -/
def troubledLife : List Converter.Operation :=
  [.openDescriptor (pairFiles [1, 2, 3, 4] none) pairRecording ⟨""⟩,
    .openDescriptor (pairFiles [1, 2, 3, 4] (some [5, 6, 7])) pairRecording ⟨""⟩,
    .stepLane 1,
    .openDescriptor (pairFiles [] none) {} ⟨""⟩,
    .runWith .sequential]

/-- A new converter with memory sinks. -/
def memoryConverter : Converter Unit MemorySink := .new MemorySink.kind () (pairFiles [] none)

/-- The second file is missing when the first lane has its sink: the converter is as new. In the end
it is open for the recording, although the lanes cannot be run, until it is closed. -/
theorem Converter.state_after_operations_of_troubledLife :
    ((memoryConverter.after (troubledLife.take 1)).AsNew MemorySink.kind ∧
      (memoryConverter.after (troubledLife.take 1)).registry.made = [⟨"A", {}⟩] ∧
      (memoryConverter.after (troubledLife.take 1)).runWith .sequential =
        (⟨.error .notOpen, []⟩, memoryConverter.after (troubledLife.take 1))) ∧
    ((∃ descriptor, memoryConverter.lastOpened troubledLife = some descriptor ∧
        List.Forall₂ (Lane.OpenedFrom descriptor (memoryConverter.after troubledLife).registry)
          descriptor.lanes (memoryConverter.after troubledLife).lanes) ∧
      (memoryConverter.after troubledLife).lanes.map (·.id) = ["P", "Q"] ∧
      ((memoryConverter.after troubledLife).runWith .sequential).2.isOpen = true) ∧
    (memoryConverter.after (troubledLife ++ [.close])).AsNew MemorySink.kind := by
  have hnew : memoryConverter.AsNew MemorySink.kind := ⟨(), pairFiles [] none, [], rfl⟩
  have hmissing : (memoryConverter.after (troubledLife.take 1)).isOpen = false := by
    decide +kernel
  have hsink : (memoryConverter.after (troubledLife.take 1)).registry.made = [⟨"A", {}⟩] := by
    decide +kernel
  have hopen : (memoryConverter.after troubledLife).isOpen = true := by decide +kernel
  have hnames : (memoryConverter.after troubledLife).lanes.map (·.id) = ["P", "Q"] := by
    decide +kernel
  have hclosed : (memoryConverter.after (troubledLife ++ [.close])).isOpen = false := by
    decide +kernel
  have hfirst := (state_after_operations hnew (troubledLife.take 1)).1 hmissing
  have hlast := (state_after_operations hnew troubledLife).2 hopen
  have hagain := (state_after_operations hnew (troubledLife ++ [.close])).1 hclosed
  exact ⟨⟨hfirst.asNew, hsink, hfirst.runWith_eq .sequential⟩,
    ⟨hlast.lanes, hnames, hlast.runWith_isOpen .sequential⟩, hagain.asNew⟩

end SampleDemux
