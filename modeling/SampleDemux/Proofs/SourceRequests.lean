import SampleDemux.Source.Calls
import SampleDemux.Proofs.FaultFree
import SampleDemux.Proofs.LaneProcess

/-!
# Requests to a source and the bytes behind it

The answers of a source do not tell how its reader handed its bytes out. One call is the beginning
of what a request takes, and so the loop of a read and the loop of a skip both come to
`Reader.takeEvents`, whatever the room of each call was. Over a reader that never fails, requests
are answered from the plain list of its bytes. A reader that fails may lose bytes in between; the
others are still served in their order, each at most once, and the position counts those that were
served.
-/

namespace SampleDemux

namespace Reader

section Pieces

variable {count : ℕ} {piece : List UInt8} (rest : List ReadEvent)

/-- A request takes a piece that is not larger, and goes on behind it. -/
theorem takeEvents_piece (hcount : 0 < count) (hpiece : piece.length ≤ count) :
    takeEvents count (.bytes piece :: rest) =
      ⟨piece ++ (takeEvents (count - piece.length) rest).data,
        (takeEvents (count - piece.length) rest).failure,
        (takeEvents (count - piece.length) rest).rest⟩ := by
  conv_lhs => unfold takeEvents
  rw [if_neg hcount.ne']
  simp only [List.drop_eq_nil_iff.mpr hpiece]

/-- A request ends inside a piece that is larger. -/
theorem takeEvents_part (hpiece : count < piece.length) :
    takeEvents count (.bytes piece :: rest) =
      ⟨piece.take count, none, .bytes (piece.drop count) :: rest⟩ := by
  unfold takeEvents
  by_cases hcount : count = 0
  · rw [if_pos hcount, hcount]
    rfl
  rw [if_neg hcount]
  dsimp only
  split
  · have := List.drop_eq_nil_iff.mp ‹_›
    omega
  · rfl

/-- A call hands out a piece for which there is room. -/
theorem call_piece {room : ℕ} (hpiece : piece ≠ []) (hroom : piece.length ≤ room) :
    call room (.bytes piece :: rest) = (.served piece, rest) := by
  unfold call
  rw [if_neg hpiece]
  simp only [List.drop_eq_nil_iff.mpr hroom]

/-- A call hands out as much of a piece as there is room for. -/
theorem call_part {room : ℕ} (hroom : room < piece.length) :
    call room (.bytes piece :: rest) =
      (.served (piece.take room), .bytes (piece.drop room) :: rest) := by
  have hpiece : piece ≠ [] := List.length_pos_iff.mp (Nat.zero_lt_of_lt hroom)
  unfold call
  rw [if_neg hpiece]
  split
  · have := List.drop_eq_nil_iff.mp ‹_›
    omega
  · rfl

end Pieces

section Call

variable {room count : ℕ}

/-- Makes calls with the given rooms. -/
def callAll : List ℕ → List ReadEvent → List CallResult × List ReadEvent
  | [], events => ([], events)
  | room :: rooms, events =>
    let (result, events) := call room events
    let (results, events) := callAll rooms events
    (result :: results, events)

/-- What a reader does in a call that gives a result. -/
def CallResult.event : CallResult → ReadEvent
  | served data => if data = [] then .ended else .bytes data
  | interrupted => .interrupted
  | failed reason => .failed reason

/-- Whatever calls may give, if they give no bytes after an end of the input, some reader gives it.
A reader that makes its pieces depend on the room is one of these readers for the calls of one
run. -/
theorem callAll_event (calls : List (ℕ × CallResult))
    (hroom : ∀ made ∈ calls, ∀ data, made.2 = .served data → data.length ≤ made.1)
    (hend : calls.Pairwise fun made later =>
      made.2 = .served [] → ∀ data, later.2 = .served data → data = [])
    (rest : List ReadEvent) :
    (callAll (calls.map (·.1)) (calls.map (·.2.event) ++ rest)).1 = calls.map (·.2) := by
  induction calls generalizing rest with
  | nil => rfl
  | cons made calls ih =>
    obtain ⟨hmade, hcalls⟩ := List.forall_mem_cons.mp hroom
    obtain ⟨hlater, hends⟩ := List.pairwise_cons.mp hend
    rcases made with ⟨room, result⟩
    obtain ⟨behind, hcall⟩ : ∃ behind,
        call room (result.event :: (calls.map (·.2.event) ++ rest)) =
          (result, calls.map (·.2.event) ++ behind) := by
      cases result with
      | served data =>
        by_cases hdata : data = []
        · -- The later calls hand out nothing, so all of them are still made.
          have hkept : behindEnd (calls.map (·.2.event)) = calls.map (·.2.event) := by
            refine List.filter_eq_self.mpr fun event hevent => ?_
            obtain ⟨later, hmem, rfl⟩ := List.mem_map.mp hevent
            have hnothing := hlater later hmem (congrArg CallResult.served hdata)
            cases hresult : later.2 with
            | served bytes => rw [hnothing bytes hresult]; rfl
            | interrupted => rfl
            | failed reason => rfl
          refine ⟨behindEnd rest, ?_⟩
          rw [CallResult.event, if_pos hdata, call, behindEnd, List.filter_append, hdata]
          exact congrArg (fun front => (CallResult.served [], front ++ _)) hkept
        · rw [CallResult.event, if_neg hdata]
          exact ⟨rest, call_piece _ hdata (hmade data rfl)⟩
      | interrupted => exact ⟨rest, rfl⟩
      | failed reason => exact ⟨rest, rfl⟩
    simp only [List.map_cons, List.cons_append, callAll, hcall, ih hcalls hends behind]

/-- What a request took, with the bytes that it had before. -/
def Taken.behind (before : List UInt8) (taken : Taken) : Taken :=
  { taken with data := before ++ taken.data }

/-- What a request takes, from what its first call gives. -/
def afterCall (count : ℕ) : CallResult × List ReadEvent → Taken
  | (.served data, rest) =>
    if data = [] then ⟨[], none, rest⟩ else (takeEvents (count - data.length) rest).behind data
  | (.interrupted, rest) => takeEvents count rest
  | (.failed reason, rest) => ⟨[], some reason, rest⟩

/-- A call hands out no more bytes than there is room for. -/
theorem length_le_of_call {events rest : List ReadEvent} {data : List UInt8}
    (h : call room events = (.served data, rest)) : data.length ≤ room := by
  induction events with
  | nil => cases h; exact Nat.zero_le room
  | cons event events ih =>
    cases event with
    | interrupted => cases h
    | failed reason => cases h
    | ended => cases h; exact Nat.zero_le room
    | bytes piece =>
      by_cases hpiece : piece = []
      · rw [hpiece] at h
        exact ih h
      · rcases Nat.lt_or_ge room piece.length with hroom | hroom
        · rw [call_part events hroom] at h
          cases h
          exact List.length_take_le room piece
        · rw [call_piece events hpiece hroom] at h
          cases h
          exact hroom

/-- The first call of a request decides how it goes on, whatever its room is. -/
theorem takeEvents_eq_afterCall (hroom : 0 < room) (hcount : room ≤ count)
    (events : List ReadEvent) : takeEvents count events = afterCall count (call room events) := by
  have hpositive : 0 < count := hroom.trans_le hcount
  induction events with
  | nil => rfl
  | cons event events ih =>
    cases event with
    | interrupted =>
      conv_lhs => unfold takeEvents
      rw [if_neg hpositive.ne']
      rfl
    | failed reason =>
      unfold takeEvents
      rw [if_neg hpositive.ne']
      rfl
    | ended =>
      unfold takeEvents
      rw [if_neg hpositive.ne']
      rfl
    | bytes piece =>
      by_cases hpiece : piece = []
      · rw [hpiece, takeEvents_piece events hpositive (List.length_nil.trans_le hpositive.le)]
        exact ih
      rcases Nat.lt_or_ge room piece.length with hlength | hlength
      · rw [call_part events hlength]
        have hfirst : (piece.take room).length = room := by
          rw [List.length_take]
          omega
        have hsome : piece.take room ≠ [] := List.length_pos_iff.mp (hroom.trans_eq hfirst.symm)
        have hleft : (piece.drop room).length = piece.length - room := List.length_drop
        simp only [afterCall, if_neg hsome, hfirst, Taken.behind]
        rcases Nat.lt_or_ge count piece.length with hpart | hall
        · rw [takeEvents_part events hpart, takeEvents_part events (by omega), List.drop_drop,
            ← List.take_add, Nat.add_sub_cancel' hcount]
        · rw [takeEvents_piece events hpositive hall, takeEvents_piece events (by omega) (by omega),
            hleft, ← List.append_assoc, List.take_append_drop,
            show count - room - (piece.length - room) = count - piece.length by omega]
      · rw [call_piece events hpiece hlength, takeEvents_piece events hpositive (by omega)]
        simp only [afterCall, if_neg hpiece, Taken.behind]

end Call

section Buffer

variable {buffer : List UInt8} {filled : ℕ}

/-- Writing nothing leaves the buffer. -/
theorem writeBehind_nil (buffer : List UInt8) (filled : ℕ) :
    writeBehind buffer filled [] = buffer := by
  simp only [writeBehind, List.append_nil, List.length_nil, Nat.add_zero, List.take_append_drop]

/-- What is written at the front comes before what is left there. -/
theorem writeBehind_zero (buffer data : List UInt8) :
    writeBehind buffer 0 data = data ++ buffer.drop data.length := by
  simp only [writeBehind, List.take_zero, List.nil_append, Nat.zero_add]

/-- A buffer keeps its length when the bytes have room in it. -/
theorem length_writeBehind {data : List UInt8} (h : filled + data.length ≤ buffer.length) :
    (writeBehind buffer filled data).length = buffer.length := by
  simp only [writeBehind, List.length_append, List.length_take, List.length_drop]
  omega

/-- Bytes written in two steps are written in one. -/
theorem writeBehind_writeBehind {data : List UInt8} (h : filled + data.length ≤ buffer.length)
    (later : List UInt8) :
    writeBehind (writeBehind buffer filled data) (filled + data.length) later =
      writeBehind buffer filled (data ++ later) := by
  have hfront : (buffer.take filled ++ data).length = filled + data.length := by
    rw [List.length_append, List.length_take]
    omega
  have htake : (writeBehind buffer filled data).take (filled + data.length) =
      buffer.take filled ++ data := List.take_left' hfront
  have hdrop : (writeBehind buffer filled data).drop (filled + data.length + later.length) =
      buffer.drop (filled + (data ++ later).length) := by
    rw [← List.drop_drop, writeBehind, List.drop_left' hfront, List.drop_drop,
      List.length_append, Nat.add_assoc]
  rw [writeBehind, htake, hdrop, writeBehind, List.append_assoc (buffer.take filled)]

end Buffer

/-- The number of bytes that a request took, with those before it, or why it failed. -/
def Taken.count (before : ℕ) (taken : Taken) : Except String ℕ :=
  match taken.failure with
  | none => .ok (before + taken.data.length)
  | some reason => .error reason

/-- Bytes from before a request are counted with those that it took. -/
theorem Taken.count_behind (before : ℕ) (data : List UInt8) (taken : Taken) :
    (taken.behind data).count before = taken.count (before + data.length) := by
  unfold count behind
  cases taken.failure with
  | none => simp only [List.length_append, Nat.add_assoc]
  | some reason => rfl

/-- A request for nothing takes nothing. -/
theorem takeEvents_zero (events : List ReadEvent) : takeEvents 0 events = ⟨[], none, events⟩ := by
  cases events <;> rfl

/-- A request that does not fail takes the next bytes, or all that are left. -/
theorem takeEvents_of_ok {count : ℕ} {events : List ReadEvent}
    (h : (takeEvents count events).failure = none) :
    (takeEvents count events).data = (bytesOf events).take count := by
  induction events generalizing count with
  | nil => exact List.take_nil.symm
  | cons event events ih =>
    rcases Nat.eq_zero_or_pos count with hcount | hcount
    · rw [hcount, takeEvents_zero]
      rfl
    cases event with
    | interrupted =>
      unfold takeEvents at h ⊢
      rw [if_neg hcount.ne'] at h ⊢
      exact ih h
    | failed reason =>
      unfold takeEvents at h
      rw [if_neg hcount.ne'] at h
      cases h
    | ended =>
      unfold takeEvents
      rw [if_neg hcount.ne']
      exact List.take_nil.symm
    | bytes piece =>
      rcases Nat.lt_or_ge count piece.length with hpart | hall
      · rw [takeEvents_part events hpart, bytesOf, List.take_append_of_le_length hpart.le]
      · rw [takeEvents_piece events hcount hall] at h ⊢
        rw [bytesOf, List.take_append, List.take_of_length_le hall, ← ih h]

/-- A request that fails has taken fewer bytes than it asked for. -/
theorem length_lt_of_failure {count : ℕ} {events : List ReadEvent} {reason : String}
    (h : (takeEvents count events).failure = some reason) :
    (takeEvents count events).data.length < count := by
  induction events generalizing count with
  | nil => cases h
  | cons event events ih =>
    rcases Nat.eq_zero_or_pos count with hcount | hcount
    · rw [hcount, takeEvents_zero] at h
      cases h
    cases event with
    | interrupted =>
      unfold takeEvents at h ⊢
      rw [if_neg hcount.ne'] at h ⊢
      exact ih h
    | failed other =>
      unfold takeEvents
      rw [if_neg hcount.ne']
      exact hcount
    | ended =>
      unfold takeEvents at h
      rw [if_neg hcount.ne'] at h
      cases h
    | bytes piece =>
      rcases Nat.lt_or_ge count piece.length with hpart | hall
      · rw [takeEvents_part events hpart] at h
        cases h
      · rw [takeEvents_piece events hcount hall] at h ⊢
        have hlater := ih h
        rw [List.length_append]
        omega

/-- The loop of a read takes what a request for the room in the buffer takes. -/
theorem fill_eq (buffer : List UInt8) (filled : ℕ) (events : List ReadEvent)
    (h : filled ≤ buffer.length) :
    fill buffer filled events =
      let taken := takeEvents (buffer.length - filled) events
      ⟨writeBehind buffer filled taken.data, taken.count filled, taken.rest⟩ := by
  fun_induction fill buffer filled events with
  | case1 buffer filled events hroom rest hcall =>
    rw [takeEvents_eq_afterCall (Nat.sub_pos_of_lt hroom) le_rfl, hcall]
    simp only [afterCall, if_true, Taken.count, writeBehind_nil, List.length_nil, Nat.add_zero]
  | case2 buffer filled events hroom data rest hcall hdata ih =>
    have hfits : filled + data.length ≤ buffer.length := by
      have := length_le_of_call hcall
      omega
    rw [takeEvents_eq_afterCall (Nat.sub_pos_of_lt hroom) le_rfl, hcall]
    rw [ih (hfits.trans_eq (length_writeBehind hfits).symm), length_writeBehind hfits]
    simp only [afterCall, if_neg hdata, Taken.count_behind, ← Nat.sub_sub]
    rw [writeBehind_writeBehind hfits]
    rfl
  | case3 buffer filled events hroom rest hcall ih =>
    rw [takeEvents_eq_afterCall (Nat.sub_pos_of_lt hroom) le_rfl, hcall]
    exact ih h
  | case4 buffer filled events hroom reason rest hcall =>
    rw [takeEvents_eq_afterCall (Nat.sub_pos_of_lt hroom) le_rfl, hcall]
    simp only [afterCall, Taken.count, writeBehind_nil]
  | case5 buffer filled events hroom =>
    rw [show buffer.length - filled = 0 by omega, takeEvents_zero]
    simp only [Taken.count, writeBehind_nil, List.length_nil, Nat.add_zero]

/-- The first call of a skip decides how it goes on, although it has room for no more than the
copying buffer holds. -/
theorem takeEvents_eq_afterCopy {limit : ℕ} (hlimit : limit ≠ 0) (events : List ReadEvent) :
    takeEvents limit events = afterCall limit (call (min limit copyRoom) events) :=
  takeEvents_eq_afterCall (lt_min (Nat.pos_of_ne_zero hlimit) (by decide))
    (min_le_left limit copyRoom) events

/-- The loop of a skip takes what a request for all that it may copy takes. -/
theorem copy_eq (limit copied : ℕ) (events : List ReadEvent) :
    copy limit copied events =
      ((takeEvents limit events).count copied, (takeEvents limit events).rest) := by
  fun_induction copy limit copied events with
  | case1 copied events =>
    rw [takeEvents_zero]
    rfl
  | case2 limit copied events hlimit rest hcall =>
    rw [takeEvents_eq_afterCopy hlimit, hcall]
    simp only [afterCall, if_true, Taken.count, List.length_nil, Nat.add_zero]
  | case3 limit copied events hlimit data rest hcall hdata ih =>
    rw [takeEvents_eq_afterCopy hlimit, hcall, ih]
    simp only [afterCall, if_neg hdata, Taken.count_behind]
    rfl
  | case4 limit copied events hlimit rest hcall ih =>
    rw [takeEvents_eq_afterCopy hlimit, hcall]
    exact ih
  | case5 limit copied events hlimit reason rest hcall =>
    rw [takeEvents_eq_afterCopy hlimit, hcall]
    rfl

end Reader

namespace ByteSource

/-- A read by calls puts the bytes that it took at the front of the buffer. -/
theorem readInto_eq (source : ByteSource) (buffer : List UInt8) :
    source.readInto buffer =
      let read := source.read buffer.length
      (read.outcome, read.data ++ buffer.drop read.data.length, read.source) := by
  unfold readInto read
  cases hreader : source.reader with
  | none => rfl
  | some reader =>
    simp only [Reader.fill_eq buffer 0 reader.events (Nat.zero_le _), Reader.writeBehind_zero,
      Reader.Taken.count, Nat.sub_zero]
    cases (Reader.takeEvents buffer.length reader.events).failure with
    | none => simp only [Nat.zero_add]
    | some reason => rfl

/-- A skip by calls is a read of which only the number of bytes is kept. -/
theorem skipOver_eq (source : ByteSource) (count : ℕ) :
    source.skipOver count = source.skip count := by
  unfold skipOver skip read
  cases hreader : source.reader with
  | none => rfl
  | some reader =>
    simp only [Reader.copy_eq, Reader.Taken.count]
    cases (Reader.takeEvents count reader.events).failure with
    | none => simp only [Nat.zero_add]
    | some reason => rfl

end ByteSource

/-- A plain list of bytes that is read from its front. -/
structure PlainBytes where
  /-- The bytes that are left, until it is closed. -/
  left : Option (List UInt8)
  /-- Bytes that were served. -/
  position : ℕ

namespace PlainBytes

/-- Asks for so many bytes: the outcome, the bytes, and the list afterwards. -/
def ask (plain : PlainBytes) (count : ℕ) :
    Except SourceError Fill × List UInt8 × PlainBytes :=
  match plain.left with
  | none => (.error .closed, [], plain)
  | some left =>
    if count ≤ left.length then
      (.ok .full, left.take count, ⟨some (left.drop count), plain.position + count⟩)
    else
      (.ok (if left.length = 0 then .empty else .part left.length), left,
        ⟨some [], plain.position + left.length⟩)

/-- Serves a request. Bytes go to the front of the buffer, and what is behind them stays. -/
def serve (plain : PlainBytes) : SourceRequest → SourceAnswer × PlainBytes
  | .read buffer =>
    let (outcome, data, plain) := plain.ask buffer.length
    (⟨some outcome, data ++ buffer.drop data.length, plain.position⟩, plain)
  | .skip count =>
    let (outcome, _, plain) := plain.ask count
    (⟨some outcome, [], plain.position⟩, plain)
  | .close => (⟨none, [], plain.position⟩, { plain with left := none })

/-- Serves requests one after the other. -/
def serveAll (plain : PlainBytes) : List SourceRequest → List SourceAnswer
  | [] => []
  | request :: rest => (plain.serve request).1 :: (plain.serve request).2.serveAll rest

/-- The source has the bytes of the list, and its reader never fails. -/
structure Describes (plain : PlainBytes) (source : ByteSource) : Prop where
  /-- Both have served so many bytes. -/
  position_eq : source.position = plain.position
  /-- A closed list stands for a closed source. -/
  closed : plain.left = none → source.reader = none
  /-- What is left of an open list is what the source can serve. -/
  left : ∀ data, plain.left = some data → source.Serves plain.position data

variable {plain : PlainBytes} {source : ByteSource}

/-- A list and a source that it describes give the same bytes to a request. -/
theorem Describes.ask (h : plain.Describes source) (count : ℕ) :
    ∃ behind, source.read count = ⟨(plain.ask count).2.1, (plain.ask count).1, behind⟩ ∧
      (plain.ask count).2.2.Describes behind := by
  unfold PlainBytes.ask
  cases hleft : plain.left with
  | none =>
    refine ⟨source, ?_, h⟩
    simp only [ByteSource.read, h.closed hleft]
  | some data =>
    have hserves := h.left data hleft
    rcases Nat.lt_or_ge data.length count with hshort | hfull
    · rcases hserves.read_short hshort with ⟨behind, hread, hbehind⟩
      dsimp only
      rw [if_neg hshort.not_ge]
      refine ⟨behind, hread, hbehind.position_eq, fun hnone => ?_, fun other hother => ?_⟩
      · cases hnone
      · cases hother
        exact hbehind
    · rcases hserves.read_full hfull with ⟨behind, hread, hbehind⟩
      dsimp only
      rw [if_pos hfull]
      refine ⟨behind, hread, hbehind.position_eq, fun hnone => ?_, fun other hother => ?_⟩
      · cases hnone
      · cases hother
        exact hbehind

/-- A list answers a request like a source that it describes, and describes it afterwards. -/
theorem Describes.serve (h : plain.Describes source) (request : SourceRequest) :
    (source.serve request).1 = (plain.serve request).1 ∧
      (plain.serve request).2.Describes (source.serve request).2 := by
  cases request with
  | read buffer =>
    rcases h.ask buffer.length with ⟨behind, hread, hbehind⟩
    simp only [ByteSource.serve, ByteSource.readInto_eq, hread, PlainBytes.serve,
      hbehind.position_eq, true_and]
    exact hbehind
  | skip count =>
    rcases h.ask count with ⟨behind, hread, hbehind⟩
    simp only [ByteSource.serve, ByteSource.skipOver_eq, ByteSource.skip, hread, PlainBytes.serve,
      hbehind.position_eq, true_and]
    exact hbehind
  | close =>
    refine ⟨?_, h.position_eq, fun _ => rfl, fun data hdata => ?_⟩
    · simp only [ByteSource.serve, PlainBytes.serve, h.position_eq]
    · cases hdata

/-- A list answers requests like a source that it describes. -/
theorem Describes.serveAll (h : plain.Describes source) (requests : List SourceRequest) :
    (source.serveAll requests).1 = plain.serveAll requests := by
  induction requests generalizing plain source with
  | nil => rfl
  | cons request requests ih =>
    rcases h.serve request with ⟨hanswer, hbehind⟩
    simp only [ByteSource.serveAll, PlainBytes.serveAll, hanswer, ih hbehind]

end PlainBytes

namespace SourceRequest

/-- Bytes that a request asks for. -/
def asked : SourceRequest → ℕ
  | read buffer => buffer.length
  | skip count => count
  | close => 0

/-- The buffer of a request after these bytes came. -/
def holding (data : List UInt8) : SourceRequest → List UInt8
  | read buffer => data ++ buffer.drop data.length
  | skip _ => []
  | close => []

/-- What a closed source answers. -/
def rejection (position : ℕ) : SourceRequest → SourceAnswer
  | read buffer => ⟨some (.error .closed), buffer, position⟩
  | skip _ => ⟨some (.error .closed), [], position⟩
  | close => ⟨none, [], position⟩

/-- Bytes that a request was served. -/
def served (request : SourceRequest) (answer : SourceAnswer) : ℕ :=
  match answer.outcome with
  | some (.ok fill) => fill.served request.asked
  | _ => 0

/-- A closed source serves nothing. -/
theorem served_rejection (position : ℕ) (request : SourceRequest) :
    request.served (request.rejection position) = 0 := by
  cases request <;> rfl

/-- A closed source stays at its position. -/
theorem position_rejection (position : ℕ) (request : SourceRequest) :
    (request.rejection position).position = position := by
  cases request <;> rfl

end SourceRequest

namespace ByteSource

/-- How requests to an open source may be answered when the bytes of an input before the offset are
gone, and so many of them were served. -/
inductive Course (input : List UInt8) : ℕ → ℕ → List (SourceRequest × SourceAnswer) → Prop
  /-- No request is left. -/
  | done {offset position : ℕ} : Course input offset position []
  /-- A request is served the bytes from the offset on, as many as it asked for or all that are
  left, and the position counts them. -/
  | served {offset position count : ℕ} {request : SourceRequest}
      {rest : List (SourceRequest × SourceAnswer)} (hrequest : request ≠ .close)
      (hcount : count = min request.asked (input.length - offset))
      (later : Course input (offset + count) (position + count) rest) :
      Course input offset position
        ((request, ⟨some (.ok (.of request.asked count)),
          request.holding ((input.drop offset).take count), position + count⟩) :: rest)
  /-- A request fails after it took fewer bytes than it asked for. They are gone, and the position
  does not count them. -/
  | failed {offset position dropped : ℕ} {reason : String} {request : SourceRequest}
      {rest : List (SourceRequest × SourceAnswer)} (hrequest : request ≠ .close)
      (hdropped : dropped < request.asked) (hinput : offset + dropped ≤ input.length)
      (later : Course input (offset + dropped) position rest) :
      Course input offset position
        ((request, ⟨some (.error (.readFailed reason)),
          request.holding ((input.drop offset).take dropped), position⟩) :: rest)
  /-- The source is closed, and every later request is told so. -/
  | closed {offset position : ℕ} {rest : List (SourceRequest × SourceAnswer)}
      (later : ∀ exchange ∈ rest, exchange.2 = exchange.1.rejection position) :
      Course input offset position ((.close, SourceRequest.close.rejection position) :: rest)

/-- At every time the position is the number of bytes that were served until then. -/
theorem Course.position_eq {input : List UInt8} {offset position : ℕ}
    {exchanges : List (SourceRequest × SourceAnswer)} (h : Course input offset position exchanges)
    {front rest : List (SourceRequest × SourceAnswer)} {exchange : SourceRequest × SourceAnswer}
    (hexchanges : exchanges = front ++ exchange :: rest) :
    exchange.2.position =
      position + ((front ++ [exchange]).map fun made => made.1.served made.2).sum := by
  induction h generalizing front with
  | done =>
    exact absurd hexchanges.symm (List.append_ne_nil_of_right_ne_nil _ (List.cons_ne_nil _ _))
  | @served offset position count request later hrequest hcount hlater ih =>
    cases front with
    | nil =>
      cases hexchanges
      simp [SourceRequest.served]
    | cons first front =>
      obtain ⟨rfl, hlaterEq⟩ := List.cons.inj hexchanges
      rw [ih hlaterEq]
      simp [SourceRequest.served, Nat.add_assoc]
  | @failed offset position dropped reason request later hrequest hdropped hinput hlater ih =>
    cases front with
    | nil =>
      cases hexchanges
      simp [SourceRequest.served]
    | cons first front =>
      obtain ⟨rfl, hlaterEq⟩ := List.cons.inj hexchanges
      rw [ih hlaterEq]
      simp [SourceRequest.served]
  | @closed offset position later hlater =>
    -- All exchanges are those of a closed source, and each of them serves nothing.
    have hall : ∀ made ∈ front ++ [exchange], made.2 = made.1.rejection position := by
      intro made hmade
      have hmember :
          made ∈ (SourceRequest.close, SourceRequest.close.rejection position) :: later := by
        rw [hexchanges, List.append_cons]
        exact List.mem_append_left rest hmade
      rcases List.mem_cons.mp hmember with hfirst | hbehind
      · rw [hfirst]
      · exact hlater made hbehind
    have hnothing : ((front ++ [exchange]).map fun made => made.1.served made.2).sum = 0 := by
      refine List.sum_eq_zero fun count hcount => ?_
      rcases List.mem_map.mp hcount with ⟨made, hmade, rfl⟩
      rw [hall made hmade, SourceRequest.served_rejection]
    rw [hnothing, hall exchange (List.mem_append_right front (List.mem_singleton_self exchange))]
    exact SourceRequest.position_rejection position exchange.1

variable {source : ByteSource} {input : List UInt8} {offset position : ℕ}

/-- An open source of which the bytes of an input before the offset are gone. -/
structure StandsAt (source : ByteSource) (input : List UInt8) (offset position : ℕ) : Prop where
  /-- The bytes from the offset on are left. -/
  reader : ∃ reader, source.reader = some reader ∧ reader.remaining = input.drop offset
  /-- The offset is inside the input. -/
  offset_le : offset ≤ input.length
  /-- So many bytes were served. -/
  position_eq : source.position = position

/-- A request to an open source takes the bytes from its offset on and counts them if it serves
them. -/
theorem StandsAt.read (h : source.StandsAt input offset position) (count : ℕ) :
    (∃ served behind, served = min count (input.length - offset) ∧
      source.read count = ⟨(input.drop offset).take served, .ok (.of count served), behind⟩ ∧
      behind.StandsAt input (offset + served) (position + served)) ∨
    ∃ dropped reason behind, dropped < count ∧ offset + dropped ≤ input.length ∧
      source.read count =
        ⟨(input.drop offset).take dropped, .error (.readFailed reason), behind⟩ ∧
      behind.StandsAt input (offset + dropped) position := by
  rcases h.reader with ⟨reader, hreader, hleft⟩
  have hbytes : Reader.bytesOf reader.events = input.drop offset := hleft
  have hsplit := bytesOf_takeEvents count reader.events
  rw [hbytes] at hsplit
  have hslice : (Reader.takeEvents count reader.events).data =
      (input.drop offset).take (Reader.takeEvents count reader.events).data.length := by
    rw [hsplit, List.take_left]
  have hrest : Reader.bytesOf (Reader.takeEvents count reader.events).rest =
      input.drop (offset + (Reader.takeEvents count reader.events).data.length) := by
    rw [← List.drop_drop, hsplit, List.drop_left]
  have hinside : offset + (Reader.takeEvents count reader.events).data.length ≤ input.length := by
    have hlength := congrArg List.length hsplit
    rw [List.length_drop, List.length_append] at hlength
    have := h.offset_le
    omega
  simp only [ByteSource.read, hreader]
  cases hfailure : (Reader.takeEvents count reader.events).failure with
  | none =>
    have hserved : (Reader.takeEvents count reader.events).data.length =
        min count (input.length - offset) := by
      rw [Reader.takeEvents_of_ok hfailure, hbytes, List.length_take, List.length_drop]
    refine .inl ⟨_, _, hserved, by rw [← hslice], ?_⟩
    exact ⟨⟨⟨(Reader.takeEvents count reader.events).rest⟩, rfl, hrest⟩, hinside,
      congrArg (· + _) h.position_eq⟩
  | some reason =>
    refine .inr ⟨_, reason, _, Reader.length_lt_of_failure hfailure, hinside, by rw [← hslice], ?_⟩
    exact ⟨⟨⟨(Reader.takeEvents count reader.events).rest⟩, rfl, hrest⟩, hinside, h.position_eq⟩

/-- A closed source rejects a request and stays as it is. -/
theorem serve_of_closed (hclosed : source.reader = none) (request : SourceRequest) :
    (source.serve request).1 = request.rejection source.position ∧
      (source.serve request).2.reader = none ∧
      (source.serve request).2.position = source.position := by
  cases request with
  | read buffer =>
    simp only [serve, readInto, hclosed, SourceRequest.rejection, and_self]
  | skip count =>
    simp only [serve, skipOver, hclosed, SourceRequest.rejection, and_self]
  | close => exact ⟨rfl, rfl, rfl⟩

/-- A closed source rejects all requests. -/
theorem serveAll_of_closed (hclosed : source.reader = none) (requests : List SourceRequest) :
    ∀ exchange ∈ requests.zip (source.serveAll requests).1,
      exchange.2 = exchange.1.rejection source.position := by
  induction requests generalizing source with
  | nil => exact fun exchange hexchange => absurd hexchange List.not_mem_nil
  | cons request requests ih =>
    rcases serve_of_closed hclosed request with ⟨hanswer, hreader, hposition⟩
    simp only [serveAll, List.zip_cons_cons, List.forall_mem_cons]
    refine ⟨hanswer, fun exchange hexchange => ?_⟩
    rw [ih hreader exchange hexchange, hposition]

/-- The answers of an open source follow the bytes from its offset on. -/
theorem StandsAt.course (h : source.StandsAt input offset position)
    (requests : List SourceRequest) :
    Course input offset position (requests.zip (source.serveAll requests).1) := by
  induction requests generalizing source offset position with
  | nil => exact .done
  | cons request requests ih =>
    simp only [serveAll, List.zip_cons_cons]
    cases request with
    | read buffer =>
      rcases h.read buffer.length with ⟨served, behind, hserved, hread, hbehind⟩ |
        ⟨dropped, reason, behind, hdropped, hinside, hread, hbehind⟩
      · simp only [serve, readInto_eq, hread, hbehind.position_eq]
        exact .served (fun hclose => SourceRequest.noConfusion hclose) hserved (ih hbehind)
      · simp only [serve, readInto_eq, hread, hbehind.position_eq]
        exact .failed (fun hclose => SourceRequest.noConfusion hclose) hdropped hinside (ih hbehind)
    | skip count =>
      rcases h.read count with ⟨served, behind, hserved, hread, hbehind⟩ |
        ⟨dropped, reason, behind, hdropped, hinside, hread, hbehind⟩
      · simp only [serve, skipOver_eq, skip, hread, hbehind.position_eq]
        exact .served (fun hclose => SourceRequest.noConfusion hclose) hserved (ih hbehind)
      · simp only [serve, skipOver_eq, skip, hread, hbehind.position_eq]
        exact .failed (fun hclose => SourceRequest.noConfusion hclose) hdropped hinside (ih hbehind)
    | close =>
      simp only [serve, h.position_eq]
      refine .closed fun exchange hexchange => ?_
      have hrejection : exchange.2 = exchange.1.rejection source.close.position :=
        serveAll_of_closed rfl requests exchange hexchange
      rw [hrejection]
      exact congrArg exchange.1.rejection h.position_eq

/-- **Requests see the bytes of a reader, not its calls.** If the reader never fails, every answer,
buffer and position is that of the plain list of its bytes. In any case each request is served the
next bytes of the input, or fails and drops fewer than it asked for, until the source is closed; and
the position is the number of bytes that were served. -/
theorem answers_serveAll (reader : Reader) (requests : List SourceRequest) :
    (reader.FaultFree → ((ofReader reader).serveAll requests).1 =
      PlainBytes.serveAll ⟨some reader.remaining, 0⟩ requests) ∧
    Course reader.remaining 0 0 (requests.zip ((ofReader reader).serveAll requests).1) ∧
    ∀ front exchange rest,
      requests.zip ((ofReader reader).serveAll requests).1 = front ++ exchange :: rest →
      exchange.2.position = ((front ++ [exchange]).map fun made => made.1.served made.2).sum := by
  have hstands : (ofReader reader).StandsAt reader.remaining 0 0 :=
    ⟨⟨reader, rfl, List.drop_zero.symm⟩, Nat.zero_le _, rfl⟩
  have hcourse := hstands.course requests
  refine ⟨fun hfree => ?_, hcourse, fun front exchange rest hsplit => ?_⟩
  · have hserves := serves_ofReader hfree
    refine PlainBytes.Describes.serveAll ⟨rfl, fun hnone => ?_, fun data hdata => ?_⟩ requests
    · cases hnone
    · cases hdata
      exact hserves
  · rw [hcourse.position_eq hsplit, Nat.zero_add]

/-- A reader of five bytes in three pieces, interrupted twice, and once more behind its end. -/
def piecewiseReader : Reader :=
  ⟨[.interrupted, .bytes [1], .bytes [2, 3], .interrupted, .bytes [4, 5], .ended, .interrupted]⟩

/-- A reader that fails once behind its second byte. -/
def lostReader : Reader := ⟨[.bytes [1, 2], .failed "device lost", .bytes [3, 4]]⟩

/-- Pieces and interruptions leave no trace in the answers; a failure costs the bytes that its
request had taken. -/
theorem answers_serveAll_pieces :
    piecewiseReader.FaultFree ∧
    ((ofReader piecewiseReader).serveAll [.read [0, 0], .skip 1, .read [7, 7, 7], .skip 2, .skip 0,
        .close, .read [8]]).1 =
      [⟨some (.ok .full), [1, 2], 2⟩, ⟨some (.ok .full), [], 3⟩,
        ⟨some (.ok (.part 2)), [4, 5, 7], 5⟩, ⟨some (.ok .empty), [], 5⟩,
        ⟨some (.ok .full), [], 5⟩, ⟨none, [], 5⟩,
        ⟨some (.error .closed), [8], 5⟩] ∧
    [SourceRequest.read [0, 0, 0], .read [0, 0]].zip
        ((ofReader lostReader).serveAll [.read [0, 0, 0], .read [0, 0]]).1 =
      [(.read [0, 0, 0], ⟨some (.error (.readFailed "device lost")), [1, 2, 0], 0⟩)] ++
        (.read [0, 0], ⟨some (.ok .full), [3, 4], 2⟩) :: [] ∧
    2 = ([(.read [0, 0, 0], ⟨some (.error (.readFailed "device lost")), [1, 2, 0], 0⟩),
      (.read [0, 0], ⟨some (.ok .full), [3, 4], 2⟩)].map
        fun (made : SourceRequest × SourceAnswer) => made.1.served made.2).sum := by
  have hfree : piecewiseReader.FaultFree := by
    intro event hevent reason hfailed
    rw [hfailed] at hevent
    simp [piecewiseReader] at hevent
  have hsplit : [SourceRequest.read [0, 0, 0], .read [0, 0]].zip
      ((ofReader lostReader).serveAll [.read [0, 0, 0], .read [0, 0]]).1 =
      [(.read [0, 0, 0], ⟨some (.error (.readFailed "device lost")), [1, 2, 0], 0⟩)] ++
        (.read [0, 0], ⟨some (.ok .full), [3, 4], 2⟩) :: [] := by
    simp only [serveAll, serve, readInto_eq]
    rfl
  exact ⟨hfree, (answers_serveAll piecewiseReader _).1 hfree, hsplit,
    (answers_serveAll lostReader _).2.2 _ _ _ hsplit⟩

end ByteSource

end SampleDemux
