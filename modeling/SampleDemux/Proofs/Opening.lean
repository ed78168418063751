import SampleDemux.Proofs.PlanObstacles
import SampleDemux.Proofs.SinkMaking

/-!
# When a descriptor can be opened

Opening builds, opens and starts lane by lane, and gives up at the first thing that is missing. So a
descriptor can be opened exactly when every lane can start, and else the error tells the first
obstacle of the first lane that cannot: of its plan, of its file, or of a sink. What a lane finds
depends on the lanes before it in two ways only: their streams have sinks already, and making these
sinks may have changed what the sinks share.
-/

namespace SampleDemux

variable {W S : Type}

namespace ByteSource

/-- A source at the start of a file with some content, which may depend on what sinks share. It
never fails: it is one over a reader that never fails, or over a file that can be looked at. -/
inductive Holds (kind : SinkKind W S) (content : W → List UInt8) (source : ByteSource) : Prop
  /-- The content is that of a reader. -/
  | reader (h : ∀ world, source.Serves 0 (content world))
  /-- The content is that of a file, from which it comes when it is wanted. -/
  | file (location : Location) (hsource : source = .ofFile location)
      (hlook : ∀ part world, part.location = location →
        kind.look part world = part.cut (content world))

/-- A skip over a reader that never fails passes over as many bytes as there are. -/
theorem skip_of_faultFree {source : ByteSource} {events : List ReadEvent}
    (hreader : source.reader = some ⟨events⟩) (hfree : Reader.FaultFree ⟨events⟩) (count : ℕ) :
    (source.skip count).1 = .ok (.of count (min count (Reader.bytesOf events).length)) ∧
      (source.skip count).2.position =
        source.position + min count (Reader.bytesOf events).length := by
  obtain ⟨rest, htaken, -⟩ := Reader.takeEvents_of_faultFree count hfree
  simp only [skip, read, hreader, htaken, List.length_take, and_self]

/-- A skip over the bytes that came first from a file passes over as many as there are. -/
theorem skip_supply (location : Location) (data : List UInt8) (count : ℕ) :
    (((ofFile location).supply data).skip count).1 = .ok (.of count (min count data.length)) ∧
      (((ofFile location).supply data).skip count).2.position = min count data.length := by
  have hreader : ((ofFile location).supply data).reader = some ⟨[.bytes data]⟩ := rfl
  have hskip := skip_of_faultFree hreader (Reader.faultFree_ofBytes data) count
  have hbytes : Reader.bytesOf [.bytes data] = data := List.append_nil data
  rw [hbytes] at hskip
  exact ⟨hskip.1, hskip.2.trans (Nat.zero_add _)⟩

variable {kind : SinkKind W S} {content : W → List UInt8} {source : ByteSource}

/-- Skipping to an offset of a file looks at the file and changes nothing. It comes to the offset,
or to the end of the file. -/
theorem Holds.fetchSkip (h : source.Holds kind content) (offset : ℕ) (registry : Registry W S) :
    ∃ behind, (source.fetchSkip offset).run kind registry = (behind, registry) ∧
      (behind.skip offset).1 =
        .ok (.of offset (min offset (content registry.world).length)) ∧
      (behind.skip offset).2.position = min offset (content registry.world).length := by
  cases h with
  | reader h =>
    have hserves := h registry.world
    obtain ⟨⟨events⟩, hreader, hfree, hdata⟩ := hserves.reader
    have hbytes : Reader.bytesOf events = content registry.world := hdata
    have hskip := skip_of_faultFree hreader hfree offset
    rw [hbytes, hserves.position_eq, Nat.zero_add] at hskip
    refine ⟨source, ?_, hskip⟩
    rw [ByteSource.fetchSkip, fetch_of_file_eq_none hserves.file]
    rfl
  | file location hsource hlook =>
    subst hsource
    by_cases hoffset : offset = 0
    · rw [hoffset, Nat.zero_min]
      exact ⟨ofFile location, rfl, rfl, rfl⟩
    have hfetch : (ofFile location).fetchSkip offset =
        .look ⟨location, 0, (offset + bufferSize - 1) / bufferSize * bufferSize⟩ fun data =>
          .done ((ofFile location).supply data) := by
      unfold ByteSource.fetchSkip fetch
      dsimp only [ofFile]
      rw [Nat.zero_add, Nat.sub_zero, if_neg hoffset]
    have hskip := skip_supply location (kind.look
      ⟨location, 0, (offset + bufferSize - 1) / bufferSize * bufferSize⟩ registry.world) offset
    -- The look takes whole buffers, so it gets all bytes up to the offset that there are.
    have hlength : min offset (kind.look
        ⟨location, 0, (offset + bufferSize - 1) / bufferSize * bufferSize⟩ registry.world).length =
          min offset (content registry.world).length := by
      rw [hlook _ _ rfl, FilePart.cut, List.drop_zero, List.length_take]
      dsimp only [bufferSize]
      omega
    rw [hlength] at hskip
    exact ⟨_, by rw [hfetch]; rfl, hskip⟩

end ByteSource

section Start

variable {kind : SinkKind W S} {plan : LanePlan} {source : ByteSource} {registry : Registry W S}
  {content : W → List UInt8} {known : List String} {world : W}

/-- A file that is long enough is passed over to the offset. -/
theorem Lane.skipOffset_ok {lane : String} {offset length : ℕ}
    (hskip : (source.skip offset).1 = .ok (.of offset (min offset length)))
    (hoffset : offset ≤ length) : skipOffset lane offset source = .ok (source.skip offset).2 := by
  rw [Nat.min_eq_left hoffset, Fill.of, if_pos rfl] at hskip
  rcases hresult : source.skip offset with ⟨outcome, behind⟩
  rw [hresult] at hskip
  obtain rfl : outcome = .ok .full := hskip
  rw [skipOffset, hresult]

/-- A file that ends before the offset is cut short. -/
theorem Lane.skipOffset_short {lane : String} {offset length : ℕ}
    (hskip : (source.skip offset).1 = .ok (.of offset (min offset length)))
    (hoffset : length < offset) :
    skipOffset lane offset source = .error (.source lane (.truncated 0 offset length)) := by
  rw [Nat.min_eq_right hoffset.le, Fill.of, if_neg hoffset.ne] at hskip
  rcases hresult : source.skip offset with ⟨outcome, behind⟩
  rw [hresult] at hskip
  by_cases hempty : length = 0
  · rw [if_pos hempty] at hskip
    obtain rfl : outcome = .ok .empty := hskip
    rw [skipOffset, hresult, hempty]
  · rw [if_neg hempty] at hskip
    obtain rfl : outcome = .ok (.part length) := hskip
    rw [skipOffset, hresult]

/-- A lane starts if its file is long enough and its sinks can be made. It stands at the offset
then, and its streams are known. -/
theorem Lane.start_ok (hsource : source.Holds kind content) (hknows : registry.Knows known world)
    (hoffset : plan.file.offset ≤ (content world).length)
    (hsinks : (kind.makeAll (plan.records.map (·.id)) known world).1 = .ok ()) :
    ∃ lane later, start kind plan source registry = (.ok lane, later) ∧ lane.id = plan.id ∧
      lane.position = plan.file.offset ∧ lane.summary = { lane := plan.id } ∧
      later.Knows (known ++ plan.records.map (·.id))
        (kind.makeAll (plan.records.map (·.id)) known world).2 := by
  obtain ⟨behind, hfetch, hskip, hposition⟩ := hsource.fetchSkip plan.file.offset registry
  rw [hknows.world] at hskip hposition
  rw [Nat.min_eq_left hoffset] at hposition
  have hbound := hknows.bindAll kind plan.records
  rw [hsinks] at hbound
  have hforget : forget (attachBlocks kind plan.blocks registry) =
      (.ok (), (bindAll kind plan.records registry).2) :=
    (forget_attachBlocks kind plan.blocks registry).trans (Prod.ext hbound.1 rfl)
  obtain ⟨blocks, hblocks⟩ := exists_of_forget hforget
  let lane : Lane :=
    { id := plan.id
      blocks
      source := (behind.skip plan.file.offset).2
      summary := { lane := plan.id } }
  refine ⟨lane, _, ?_, rfl, hposition, rfl, hbound.2 rfl⟩
  unfold start
  rw [hfetch]
  dsimp only
  rw [skipOffset_ok hskip hoffset]
  dsimp only
  rw [hblocks]

/-- A lane does not start if its file ends before the offset. -/
theorem Lane.start_short (hsource : source.Holds kind content) (hknows : registry.Knows known world)
    (hoffset : (content world).length < plan.file.offset) :
    start kind plan source registry =
      (.error (.source plan.id (.truncated 0 plan.file.offset (content world).length)),
        registry) := by
  obtain ⟨behind, hfetch, hskip, -⟩ := hsource.fetchSkip plan.file.offset registry
  rw [hknows.world] at hskip
  unfold start
  rw [hfetch]
  dsimp only
  rw [skipOffset_short hskip hoffset]

/-- A lane does not start if a sink is missing. -/
theorem Lane.start_missing (hsource : source.Holds kind content)
    (hknows : registry.Knows known world) (hoffset : plan.file.offset ≤ (content world).length)
    {error : ConvertError}
    (hsinks : (kind.makeAll (plan.records.map (·.id)) known world).1 = .error error) :
    ∃ later, start kind plan source registry = (.error error, later) := by
  obtain ⟨behind, hfetch, hskip, -⟩ := hsource.fetchSkip plan.file.offset registry
  rw [hknows.world] at hskip
  have hbound := (hknows.bindAll kind plan.records).1
  rw [hsinks] at hbound
  obtain ⟨later, hblocks⟩ := error_of_forget
    ((congrArg Prod.fst (forget_attachBlocks kind plan.blocks registry)).trans hbound)
  refine ⟨later, ?_⟩
  unfold start
  rw [hfetch]
  dsimp only
  rw [skipOffset_ok hskip hoffset]
  dsimp only
  rw [hblocks]

end Start

section Obstacles

variable (kind : SinkKind W S) (opener : Opener) (content : Path → W → List UInt8)
  (descriptor : Descriptor) (directory : Path)

/-- A declared lane can start where some streams are known: it can be built, its file can be opened
and is long enough, and the sinks of its streams can be made. -/
structure LaneDecl.Starts (known : List String) (world : W) (lane : LaneDecl) (file : DataFile) :
    Prop where
  /-- The file is the last one that names the lane, and everything in the lane can be built. -/
  builds : lane.Builds descriptor file
  /-- The file can be opened. -/
  opens : ∃ source, opener (directory.join ⟨file.url⟩) = .ok source
  /-- The file is at least as long as the offset. -/
  offset : file.offset ≤ (content (directory.join ⟨file.url⟩) world).length
  /-- Every stream that the lane declares has a sink, or can get one. -/
  sinks : (kind.makeAll lane.streamIds known world).1 = .ok ()

/-- What keeps a declared lane from starting first, where some streams are known. -/
inductive LaneDecl.Obstacle (known : List String) (world : W) (lane : LaneDecl) :
    ConvertError → Prop
  /-- Something in the lane cannot be built. -/
  | plan {error : DescriptorError} (hplan : lane.PlanObstacle descriptor error) :
      Obstacle known world lane (.descriptor lane.id error)
  /-- The file cannot be opened. -/
  | openFailed {file : DataFile} {reason : String} (hbuilds : lane.Builds descriptor file)
      (hopen : opener (directory.join ⟨file.url⟩) = .error reason) :
      Obstacle known world lane
        (.source lane.id (.openFailed (directory.join ⟨file.url⟩).text reason))
  /-- The file ends before the offset. -/
  | truncated {file : DataFile} {source : ByteSource} (hbuilds : lane.Builds descriptor file)
      (hopen : opener (directory.join ⟨file.url⟩) = .ok source)
      (hoffset : (content (directory.join ⟨file.url⟩) world).length < file.offset) :
      Obstacle known world lane (.source lane.id
        (.truncated 0 file.offset (content (directory.join ⟨file.url⟩) world).length))
  /-- A sink cannot be made. -/
  | sink {file : DataFile} {source : ByteSource} {error : ConvertError}
      (hbuilds : lane.Builds descriptor file)
      (hopen : opener (directory.join ⟨file.url⟩) = .ok source)
      (hoffset : file.offset ≤ (content (directory.join ⟨file.url⟩) world).length)
      (hsinks : kind.Misses lane.streamIds known world error) : Obstacle known world lane error

variable {kind opener content descriptor directory}
variable {known : List String} {world : W} {lane : LaneDecl} {registry : Registry W S}

/-- A lane that cannot start has an obstacle. -/
theorem LaneDecl.exists_obstacle
    (h : ∀ file, ¬lane.Starts kind opener content descriptor directory known world file) :
    ∃ error, lane.Obstacle kind opener content descriptor directory known world error := by
  by_cases hfile : ∃ file, lane.Builds descriptor file
  · obtain ⟨file, hbuilds⟩ := hfile
    cases hopen : opener (directory.join ⟨file.url⟩) with
    | error reason => exact ⟨_, .openFailed hbuilds hopen⟩
    | ok source =>
      rcases Nat.lt_or_ge (content (directory.join ⟨file.url⟩) world).length file.offset with
        hshort | hoffset
      · exact ⟨_, .truncated hbuilds hopen hshort⟩
      · rcases kind.makes_or_misses lane.streamIds known world with hsinks | ⟨error, hmisses⟩
        · exact absurd ⟨hbuilds, ⟨source, hopen⟩, hoffset, hsinks⟩ (h file)
        · exact ⟨error, .sink hbuilds hopen hoffset hmisses⟩
  · obtain ⟨error, hplan⟩ := LaneDecl.exists_planObstacle fun file hbuilds => hfile ⟨file, hbuilds⟩
    exact ⟨_, .plan hplan⟩

variable (hopener : ∀ path source, opener path = .ok source → source.Holds kind (content path))
  (hknows : registry.Knows known world)

include hopener hknows in
/-- A lane that can start is started. -/
theorem LaneDecl.Starts.startLane {file : DataFile}
    (h : lane.Starts kind opener content descriptor directory known world file) :
    ∃ started later, Converter.startLane kind opener descriptor directory lane registry =
        (.ok started, later) ∧ started.id = lane.id ∧ started.position = file.offset ∧
      started.summary = { lane := lane.id } ∧
      later.Knows (known ++ lane.streamIds) (kind.makeAll lane.streamIds known world).2 := by
  obtain ⟨plan, hplan, rfl⟩ := h.builds.build
  obtain ⟨source, hsource⟩ := h.opens
  have hid : plan.id = lane.id := (LanePlan.builtFrom_of_build hplan).id
  have hids := LanePlan.map_id_records hplan
  have hsinks := h.sinks
  rw [← hids] at hsinks
  obtain ⟨started, later, hstart, hname, hposition, hsummary, hlater⟩ :=
    Lane.start_ok (hopener _ _ hsource) hknows h.offset hsinks
  rw [hids] at hlater
  rw [hid] at hname hsummary
  refine ⟨started, later, ?_, hname, hposition, hsummary, hlater⟩
  unfold Converter.startLane
  rw [hplan]
  dsimp only
  rw [hsource]
  exact hstart

include hopener hknows in
/-- An obstacle is the error of starting the lane. -/
theorem LaneDecl.Obstacle.startLane {error : ConvertError}
    (h : lane.Obstacle kind opener content descriptor directory known world error) :
    ∃ later, Converter.startLane kind opener descriptor directory lane registry =
      (.error error, later) := by
  unfold Converter.startLane
  cases h with
  | plan hplan =>
    rw [hplan.build]
    exact ⟨registry, rfl⟩
  | openFailed hbuilds hopen =>
    obtain ⟨plan, hplan, rfl⟩ := hbuilds.build
    rw [hplan]
    dsimp only
    rw [hopen]
    exact ⟨registry, rfl⟩
  | @truncated file source hbuilds hopen hoffset =>
    obtain ⟨plan, hplan, rfl⟩ := hbuilds.build
    have hid : plan.id = lane.id := (LanePlan.builtFrom_of_build hplan).id
    have hstart := Lane.start_short (hopener _ _ hopen) hknows hoffset
    rw [hplan]
    dsimp only
    rw [hopen, ← hid]
    exact ⟨registry, hstart⟩
  | @sink file source _ hbuilds hopen hoffset hsinks =>
    obtain ⟨plan, hplan, rfl⟩ := hbuilds.build
    have hmissing := hsinks.makeAll
    rw [← LanePlan.map_id_records hplan] at hmissing
    rw [hplan]
    dsimp only
    rw [hopen]
    exact Lane.start_missing (hopener _ _ hopen) hknows hoffset hmissing

end Obstacles

/-- The streams that some lanes declare. -/
def streamIdsOf (lanes : List LaneDecl) : List String := lanes.flatMap (·.streamIds)

section Lanes

variable (kind : SinkKind W S) (opener : Opener) (content : Path → W → List UInt8)
  (descriptor : Descriptor) (directory : Path) (known : List String) (world : W)

/-- A declared lane can start behind others that were started, so that their streams are known, and
what sinks share is as it is after theirs were made. -/
def LaneDecl.StartsBehind (front : List LaneDecl) (lane : LaneDecl) : Prop :=
  ∃ file, lane.Starts kind opener content descriptor directory (known ++ streamIdsOf front)
    (kind.makeAll (streamIdsOf front) known world).2 file

/-- What is the first thing that keeps a declared lane from starting behind others. -/
def LaneDecl.ObstacleBehind (front : List LaneDecl) (lane : LaneDecl) (error : ConvertError) :
    Prop :=
  lane.Obstacle kind opener content descriptor directory (known ++ streamIdsOf front)
    (kind.makeAll (streamIdsOf front) known world).2 error

variable {kind opener content descriptor directory known world}

/-- A first lane that can start leaves the others where they can start or not. -/
theorem LaneDecl.Starts.behind {first : LaneDecl} {file : DataFile}
    (h : first.Starts kind opener content descriptor directory known world file)
    (front : List LaneDecl) :
    known ++ streamIdsOf (first :: front) = known ++ first.streamIds ++ streamIdsOf front ∧
      kind.makeAll (streamIdsOf (first :: front)) known world =
        kind.makeAll (streamIdsOf front) (known ++ first.streamIds)
          (kind.makeAll first.streamIds known world).2 := by
  rw [streamIdsOf, List.flatMap_cons, List.append_assoc]
  exact ⟨rfl, SinkKind.makeAll_append kind h.sinks _⟩

/-- Lanes can start behind others exactly when the first one can, and the others behind it. -/
theorem LaneDecl.starts_of_eachBehind {first : LaneDecl} {decls : List LaneDecl}
    (h : EachBehind (LaneDecl.StartsBehind kind opener content descriptor directory known world)
      (first :: decls)) :
    ∃ file, first.Starts kind opener content descriptor directory known world file ∧
      EachBehind (LaneDecl.StartsBehind kind opener content descriptor directory
        (known ++ first.streamIds) (kind.makeAll first.streamIds known world).2) decls := by
  rcases eachBehind_cons.mp h with ⟨⟨file, hfirst⟩, hrest⟩
  have hstarts : first.Starts kind opener content descriptor directory known world file := by
    rw [streamIdsOf, List.flatMap_nil, List.append_nil] at hfirst
    exact hfirst
  refine ⟨file, hstarts, fun front other rest hdecls => ?_⟩
  obtain ⟨otherFile, hother⟩ := hrest front other rest hdecls
  rw [(hstarts.behind front).1, (hstarts.behind front).2] at hother
  exact ⟨otherFile, hother⟩

/-- A lane was started as it is declared: it stands at the offset of its file, and nothing was
counted. -/
structure Lane.StartedFrom (descriptor : Descriptor) (decl : LaneDecl) (lane : Lane) : Prop where
  /-- It has the name of its declaration. -/
  id : lane.id = decl.id
  /-- It stands at the offset. -/
  position : ∃ file, descriptor.dataFile? decl = some file ∧ lane.position = file.offset
  /-- Its totals are zero. -/
  summary : lane.summary = ⟨decl.id, 0, 0, 0⟩

variable {registry : Registry W S}
  (hopener : ∀ path source, opener path = .ok source → source.Holds kind (content path))

include hopener

/-- Lanes that can start are started. -/
theorem Converter.startLanes_ok {decls : List LaneDecl}
    (hknows : registry.Knows known world)
    (h : EachBehind (LaneDecl.StartsBehind kind opener content descriptor directory known world)
      decls) :
    ∃ lanes later, startLanes kind opener descriptor directory decls registry = (.ok lanes, later) ∧
      List.Forall₂ (Lane.StartedFrom descriptor) decls lanes ∧
      later.Knows (known ++ streamIdsOf decls)
        (kind.makeAll (streamIdsOf decls) known world).2 := by
  induction decls generalizing registry known world with
  | nil =>
    refine ⟨[], registry, rfl, .nil, ?_⟩
    rw [streamIdsOf, List.flatMap_nil, List.append_nil]
    exact hknows
  | cons decl decls ih =>
    obtain ⟨file, hstarts, hothers⟩ := LaneDecl.starts_of_eachBehind h
    obtain ⟨lane, between, hlane, hid, hposition, hsummary, hbetween⟩ :=
      hstarts.startLane hopener hknows
    obtain ⟨lanes, later, hlanes, hstarted, hlater⟩ := ih hbetween hothers
    refine ⟨lane :: lanes, later, ?_,
      .cons ⟨hid, ⟨file, hstarts.builds.file, hposition⟩, hsummary⟩ hstarted, ?_⟩
    · unfold startLanes
      rw [hlane]
      dsimp only
      rw [hlanes]
    · rw [(hstarts.behind decls).1, (hstarts.behind decls).2]
      exact hlater

/-- Starting lanes fails with the obstacle of the first that cannot start. -/
theorem Converter.startLanes_error {front rest : List LaneDecl} {lane : LaneDecl}
    {error : ConvertError} (hknows : registry.Knows known world)
    (hfront : EachBehind
      (LaneDecl.StartsBehind kind opener content descriptor directory known world) front)
    (h : lane.ObstacleBehind kind opener content descriptor directory known world front error) :
    ∃ later, startLanes kind opener descriptor directory (front ++ lane :: rest) registry =
      (.error error, later) := by
  induction front generalizing registry known world with
  | nil =>
    have hobstacle : lane.Obstacle kind opener content descriptor directory known world error := by
      unfold LaneDecl.ObstacleBehind at h
      rw [streamIdsOf, List.flatMap_nil, List.append_nil] at h
      exact h
    obtain ⟨later, hlane⟩ := hobstacle.startLane hopener hknows
    refine ⟨later, ?_⟩
    rw [List.nil_append]
    unfold startLanes
    rw [hlane]
  | cons decl front ih =>
    obtain ⟨file, hstarts, hothers⟩ := LaneDecl.starts_of_eachBehind hfront
    obtain ⟨started, between, hlane, -, -, -, hbetween⟩ := hstarts.startLane hopener hknows
    have hobstacle : lane.ObstacleBehind kind opener content descriptor directory
        (known ++ decl.streamIds) (kind.makeAll decl.streamIds known world).2 front error := by
      unfold LaneDecl.ObstacleBehind at h ⊢
      rw [(hstarts.behind front).1, (hstarts.behind front).2] at h
      exact h
    obtain ⟨later, hlanes⟩ := ih hbetween hothers hobstacle
    refine ⟨later, ?_⟩
    rw [List.cons_append]
    unfold startLanes
    rw [hlane]
    dsimp only
    rw [hlanes]

end Lanes

/-- A stream that is declared is among those of its lane. -/
theorem mem_streamIds_of_mem_declarations {descriptor : Descriptor}
    {declaration : LaneDecl × StreamDecl} (h : declaration ∈ descriptor.declarations) :
    declaration.2.id ∈ streamIdsOf descriptor.lanes := by
  obtain ⟨lane, hlane, hmem⟩ := List.mem_flatMap.mp h
  obtain ⟨stream, hstream, rfl⟩ := List.mem_map.mp hmem
  obtain ⟨block, hblock, hstream⟩ := List.mem_flatMap.mp hstream
  obtain ⟨chunk, hchunk, hstream⟩ := List.mem_flatMap.mp hstream
  refine List.mem_flatMap.mpr ⟨lane, hlane, List.mem_flatMap.mpr ⟨block, hblock, ?_⟩⟩
  refine List.mem_flatMap.mpr ⟨chunk, hchunk, List.mem_eraseDups.mpr ?_⟩
  exact List.mem_map_of_mem hstream

namespace Converter

section Open

variable (converter : Converter W S) (content : Path → W → List UInt8) (descriptor : Descriptor)
  (directory : Path)

/-- A declared lane can start behind others, with the sinks and files of a converter. -/
def StartsBehind (front : List LaneDecl) (lane : LaneDecl) : Prop :=
  lane.StartsBehind converter.kind converter.opener content descriptor directory []
    converter.registry.world front

/-- What is the first thing that keeps a declared lane from starting behind others, with the sinks
and files of a converter. -/
def ObstacleBehind (front : List LaneDecl) (lane : LaneDecl) (error : ConvertError) : Prop :=
  lane.ObstacleBehind converter.kind converter.opener content descriptor directory []
    converter.registry.world front error

/-- What is the first thing that keeps a descriptor from being opened: all lanes before one can
start, and that one has an obstacle. -/
def FirstObstacle (error : ConvertError) : Prop :=
  ∃ front lane rest, descriptor.lanes = front ++ lane :: rest ∧
    EachBehind (converter.StartsBehind content descriptor directory) front ∧
    converter.ObstacleBehind content descriptor directory front lane error

/-- What opening a descriptor comes to. -/
structure OpensAsLanesStart : Prop where
  /-- It can be opened exactly when every lane can start. -/
  ok_iff : (converter.openDescriptor descriptor directory).1 = .ok () ↔
    EachBehind (converter.StartsBehind content descriptor directory) descriptor.lanes
  /-- Otherwise the error is that of the first lane that cannot, and tells its first obstacle: of
  the plan, the file, the offset or a sink. -/
  error_iff : ∀ error, (converter.openDescriptor descriptor directory).1 = .error error ↔
    converter.FirstObstacle content descriptor directory error
  /-- A lane that was started stands at the offset of its file with nothing counted. -/
  lanes : (converter.openDescriptor descriptor directory).1 = .ok () →
    List.Forall₂ (Lane.StartedFrom descriptor) descriptor.lanes
      (converter.openDescriptor descriptor directory).2.lanes
  /-- Every declared stream has a record and a sink. -/
  streams : (converter.openDescriptor descriptor directory).1 = .ok () →
    ∀ declaration ∈ descriptor.declarations, ∃ record number,
      (converter.openDescriptor descriptor directory).2.registry.record? declaration.2.id =
        some record ∧
      (converter.openDescriptor descriptor directory).2.registry.sinks.find? declaration.2.id =
        some number

variable {converter content}
variable (hopener : ∀ path source, converter.opener path = .ok source →
  source.Holds converter.kind (content path))

include hopener in
/-- A closed converter without streams opens a descriptor if every lane can start. -/
theorem openDescriptor_of_starts (hclosed : converter.isOpen = false)
    (hknows : converter.registry.Knows [] converter.registry.world)
    (h : EachBehind (converter.StartsBehind content descriptor directory) descriptor.lanes) :
    (converter.openDescriptor descriptor directory).1 = .ok () ∧
      List.Forall₂ (Lane.StartedFrom descriptor) descriptor.lanes
        (converter.openDescriptor descriptor directory).2.lanes ∧
      ∃ world, (converter.openDescriptor descriptor directory).2.registry.Knows
        (streamIdsOf descriptor.lanes) world := by
  obtain ⟨lanes, later, hstart, hstarted, hlater⟩ := startLanes_ok hopener hknows h
  rw [openDescriptor_of_closed hclosed, hstart]
  exact ⟨rfl, hstarted, _, hlater⟩

include hopener in
/-- It fails with the obstacle of the first lane that cannot. -/
theorem openDescriptor_of_obstacle (hclosed : converter.isOpen = false)
    (hknows : converter.registry.Knows [] converter.registry.world) {error : ConvertError}
    (h : converter.FirstObstacle content descriptor directory error) :
    (converter.openDescriptor descriptor directory).1 = .error error := by
  obtain ⟨front, lane, rest, hlanes, hfront, hobstacle⟩ := h
  obtain ⟨later, hstart⟩ := startLanes_error hopener hknows hfront hobstacle
  rw [openDescriptor_of_closed hclosed, hlanes, hstart]

variable (converter content) in
/-- Either every lane can start, or there is a first one that cannot, and an obstacle to it. -/
theorem starts_or_exists_obstacle :
    EachBehind (converter.StartsBehind content descriptor directory) descriptor.lanes ∨
      ∃ error, converter.FirstObstacle content descriptor directory error := by
  rcases eachBehind_or_exists (converter.StartsBehind content descriptor directory)
    descriptor.lanes with hall | ⟨front, lane, rest, hlanes, hfront, hlane⟩
  · exact .inl hall
  · obtain ⟨error, hobstacle⟩ := LaneDecl.exists_obstacle fun file hstarts => hlane ⟨file, hstarts⟩
    exact .inr ⟨error, front, lane, rest, hlanes, hfront, hobstacle⟩

include hopener in
/-- **A descriptor can be opened exactly when every lane can start**, and fails with the first
obstacle otherwise. -/
theorem openDescriptor_outcome (hclosed : converter.isOpen = false)
    (hsinks : converter.registry.sinks = {}) (hrecords : converter.registry.records = {}) :
    converter.OpensAsLanesStart content descriptor directory := by
  have hknows := Registry.Knows.of_empty hsinks hrecords
  have hok := openDescriptor_of_starts descriptor directory hopener hclosed hknows
  -- Each of the two cases settles the outcome, so the outcome tells which of them it is.
  have hcases := starts_or_exists_obstacle converter content descriptor directory
  have hall (hopened : (converter.openDescriptor descriptor directory).1 = .ok ()) :
      EachBehind (converter.StartsBehind content descriptor directory) descriptor.lanes := by
    rcases hcases with hall | ⟨error, hobstacle⟩
    · exact hall
    · rw [openDescriptor_of_obstacle descriptor directory hopener hclosed hknows hobstacle]
        at hopened
      cases hopened
  constructor
  case ok_iff => exact ⟨hall, fun hstarts => (hok hstarts).1⟩
  case error_iff =>
    intro error
    refine ⟨fun hfailed => ?_,
      openDescriptor_of_obstacle descriptor directory hopener hclosed hknows⟩
    rcases hcases with hall | ⟨found, hobstacle⟩
    · rw [(hok hall).1] at hfailed
      cases hfailed
    · rw [openDescriptor_of_obstacle descriptor directory hopener hclosed hknows hobstacle]
        at hfailed
      cases hfailed
      exact hobstacle
  case lanes => exact fun hopened => (hok (hall hopened)).2.1
  case streams =>
    intro hopened declaration hdeclaration
    obtain ⟨hfound, hdeclared⟩ :=
      find?_records_of_openDescriptor hrecords hopened declaration.2.id
    obtain ⟨record, hrecord⟩ := hdeclared declaration hdeclaration rfl
    obtain ⟨world, hknown⟩ := (hok (hall hopened)).2.2
    obtain ⟨number, hnumber⟩ :=
      (hknown.known _).mp (mem_streamIds_of_mem_declarations hdeclaration)
    exact ⟨record, number, hfound.trans hrecord, hnumber⟩

end Open

/-- What the files of `pairFiles` hold. -/
def pairContent (first : List UInt8) (others : Option (List UInt8)) (path : Path) (_ : Unit) :
    List UInt8 :=
  if path.text = "p" then first else others.getD []

/-- A new converter over such files opens sources that never fail. -/
theorem holds_pairFiles (first : List UInt8) (others : Option (List UInt8)) (path : Path)
    (source : ByteSource)
    (h : (Converter.new MemorySink.kind () (pairFiles first others)).opener path = .ok source) :
    source.Holds (Converter.new MemorySink.kind () (pairFiles first others)).kind
      (pairContent first others path) := by
  have hsource : pairFiles first others path = .ok source := h
  refine .reader fun _ => ?_
  unfold pairFiles at hsource
  unfold pairContent
  by_cases hpath : path.text = "p"
  · rw [if_pos hpath] at hsource ⊢
    cases hsource
    exact ByteSource.serves_ofBytes first
  · rw [if_neg hpath] at hsource ⊢
    cases others with
    | none => cases hsource
    | some data =>
      cases hsource
      exact ByteSource.serves_ofBytes data

/-- Two lanes can start when both files are there, even without bytes. When the second file is
missing that is the obstacle of the second lane, behind the first, which can start. -/
theorem openDescriptor_outcome_of_pairRecording :
    (EachBehind ((Converter.new MemorySink.kind () (pairFiles [] (some []))).StartsBehind
        (pairContent [] (some [])) pairRecording ⟨""⟩) pairRecording.lanes ∧
      List.Forall₂ (Lane.StartedFrom pairRecording) pairRecording.lanes
        ((Converter.new MemorySink.kind () (pairFiles [] (some []))).openDescriptor
          pairRecording ⟨""⟩).2.lanes) ∧
    (Converter.new MemorySink.kind () (pairFiles [] none)).FirstObstacle (pairContent [] none)
      pairRecording ⟨""⟩ (.source "Q" (.openFailed "q" "no such file")) := by
  have hopened : ((Converter.new MemorySink.kind () (pairFiles [] (some []))).openDescriptor
      pairRecording ⟨""⟩).1 = .ok () := by
    with_unfolding_all rfl
  have hmissing : ((Converter.new MemorySink.kind () (pairFiles [] none)).openDescriptor
      pairRecording ⟨""⟩).1 = .error (.source "Q" (.openFailed "q" "no such file")) := by
    with_unfolding_all rfl
  have hboth := openDescriptor_outcome pairRecording ⟨""⟩ (holds_pairFiles [] (some [])) rfl rfl rfl
  have hone := openDescriptor_outcome pairRecording ⟨""⟩ (holds_pairFiles [] none) rfl rfl rfl
  exact ⟨⟨hboth.ok_iff.mp hopened, hboth.lanes hopened⟩, (hone.error_iff _).mp hmissing⟩

end Converter

end SampleDemux
