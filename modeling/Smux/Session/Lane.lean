import Mathlib.Data.List.Basic
import Smux.Lib.Rank
import Smux.Session.Laws

/-!
# One stream id of a session

A `Lane` is what a session keeps under one stream id: the streams that the id
has named, as their readers know them, which of them the streams map leads to,
and the answers its SYNs got. It knows nothing of other ids, of what was
written, of the token balance or of the queues.

`lane_step`: a step of the session is, to the lane of an id, the events that
the step has for this id, and no other step moves the lane. So what is read
under an id is a function of the frames handled, the reads and the drops under
that id.
-/

namespace Smux

open Runs

-- ---------------------------------------------------------------------------
-- The reader of a stream
-- ---------------------------------------------------------------------------

namespace Handle

/-- A stream without its write side. -/
def reader (self : Handle) : Handle :=
  { self with
    stream := self.stream.reader
    phase := if self.phase = .dropped then .dropped else .held
    sent := []
    accepted := [] }

/-- A stream after a `poll_read`. -/
def polled (self : Handle) (state : SessionState) (remaining : Nat) : Handle :=
  self.read (self.stream.pollRead state remaining).2.1 (self.stream.pollRead state remaining).1.bytes

def gone (self : Handle) : Handle := { self with phase := .dropped }

/-- The call ends with the stream dropped. -/
def Act.drops (channelOpen : Bool) : Act → Bool
  | .drop _ | .openDropped _ => true
  | .synResumed => !channelOpen
  | _ => false

section
variable {self self' : Handle} {config : Config} {state state' : SessionState} {channelOpen : Bool}
  {act : Act} {frames : List Frame}

theorem reader_dropped : self.reader.phase = .dropped ↔ self.phase = .dropped := by
  unfold reader
  dsimp only
  split <;> simp [*]

theorem reader_new (streamId : UInt32) {phase : Phase} (h : phase ≠ .dropped) :
    (new streamId phase).reader = new streamId .held := by
  rw [reader, new, new, if_neg h]
  rfl

theorem reader_polled {other : SessionState} (hc : other.closed = state.closed) (remaining : Nat) :
    (self.polled state remaining).reader = self.reader.polled other remaining := by
  obtain ⟨hresult, hstream⟩ := self.stream.pollRead_reader hc remaining
  rw [polled, polled, read, read, reader, reader]
  dsimp only
  rw [hresult, hstream]

theorem reader_wrote {phase : Phase} {bytes : Bytes} (hlive : self.phase ≠ .dropped) :
    (self.wrote phase isWriteClosed bytes frames).reader =
      if phase = .dropped then self.reader.gone else self.reader := by
  by_cases hph : phase = .dropped <;> simp [wrote, reader, Stream.reader, gone, hph, hlive]

theorem phase_dropStream (trySend : TrySend) : (self.dropStream trySend).1.phase = .dropped := by
  unfold dropStream
  split
  rfl

/-- No other call ends with the stream dropped. -/
theorem step_drops (h : self.step config state channelOpen act = some (self', state', frames)) :
    self'.phase = .dropped ↔ act.drops channelOpen := by
  cases act with
  | drop room | openDropped room =>
    simp only [step] at h
    split at h <;> cases h
    exact iff_of_true (phase_dropStream _) rfl
  | synResumed =>
    simp only [step] at h
    split at h
    · cases channelOpen with
      | true =>
        cases h
        simp [Act.drops, queue]
      | false =>
        cases h
        exact iff_of_true (phase_dropStream _) rfl
    · cases h
  | close room =>
    simp only [step] at h
    split at h
    · rename_i hph
      split at h <;> cases h <;> simp [Act.drops, queue, hph]
    · cases h
  | _ =>
    simp only [step] at h
    split at h <;> cases h
    simp [Act.drops, queue, *]

/-- A call reads, or drops the stream, or its reader does not know of it. -/
theorem step_reader (h : self.step config state channelOpen act = some (self', state', frames)) :
    (∃ remaining, act = .pollRead remaining ∧ self' = self.polled state remaining) ∨
      (∀ remaining, act ≠ .pollRead remaining) ∧
        self'.reader = if act.drops channelOpen then self.reader.gone else self.reader := by
  have hdrops := step_drops h
  rcases step_ok h with ⟨remaining, _, _, rfl, -, -, hr, rfl⟩ | ⟨hact, -, _, _, _, rfl, hw⟩
  · exact .inl ⟨remaining, rfl, by rw [polled, hr]⟩
  · exact .inr ⟨hact, (reader_wrote hw.live).trans (if_congr hdrops rfl rfl)⟩

end

end Handle


namespace Session

/-- What a step of a session does under one id. A stream is named by its place
among those of the id. -/
inductive Event
  | registered
  | read (rank : Nat) (remaining : Nat)
  | dropped (rank : Nat)
  /-- `handle_frame` is done with a frame. -/
  | frame (frame : Frame)
  | closed
  deriving DecidableEq, Repr

end Session

structure Lane where
  readers : List Handle
  entry : Option Nat
  closed : Bool
  answers : List (Result Unit)

namespace Lane

def new : Lane where
  readers := []
  entry := none
  closed := false
  answers := []

def update (self : Lane) (rank : Nat) (f : Handle → Handle) : Lane :=
  { self with readers := self.readers.modify rank f }

@[simp] theorem update_id (self : Lane) (rank : Nat) : self.update rank id = self := by
  rw [update, List.modify_id]

def dropEntry (self : Lane) : List Handle :=
  match self.entry with
  | none => self.readers
  | some rank => self.readers.modify rank Handle.disconnect

def remove (self : Lane) : Lane := { self with entry := none, readers := self.dropEntry }

def insert (self : Lane) (streamId : UInt32) : Lane :=
  { self with
    entry := some self.readers.length
    readers := self.dropEntry ++ [.new streamId .held] }

def synAnswer (isClient : Bool) (self : Lane) (streamId : UInt32) : Result Unit :=
  match (Session.new .default isClient).validatePeerStreamId streamId with
  | .error e => .error e
  | .ok () => if self.entry.isSome then .error (.streamAlreadyExists streamId) else .ok ()

def deliver (self : Lane) (data : Bytes) : Lane :=
  match self.entry with
  | none => self
  | some rank =>
    match self.readers[rank]? with
    | some reader =>
      if reader.phase = .dropped then self.remove else self.update rank (·.deliver data)
    | none => self.remove

def handleFrame (isClient : Bool) (self : Lane) (frame : Frame) : Lane :=
  match frame.cmd with
  | .syn =>
    let answer := self.synAnswer isClient frame.streamId
    let self := if answer = .ok () then self.insert frame.streamId else self
    { self with answers := self.answers ++ [answer] }
  | .fin => self.remove
  | .psh => if frame.data = [] then self else self.deliver frame.data
  | .upd _ _ | .nop => self

/-- A session's state, of which a read uses only whether it is closed. -/
def state (self : Lane) : SessionState := { SessionState.new 0 with closed := self.closed }

def step (isClient : Bool) (streamId : UInt32) (self : Lane) : Session.Event → Lane
  | .registered => self.insert streamId
  | .read rank remaining => self.update rank (·.polled self.state remaining)
  | .dropped rank => self.update rank Handle.gone
  | .frame frame => self.handleFrame isClient frame
  | .closed => { self with closed := true }

end Lane

namespace Session

-- ---------------------------------------------------------------------------
-- The lane of an id
-- ---------------------------------------------------------------------------

def rankOf (self : Session) (streamId : UInt32) (k : Nat) : Nat :=
  self.handles.rank (·.id == streamId) k

def readers (self : Session) (streamId : UInt32) : List Handle :=
  (self.handles.filter (·.id == streamId)).map Handle.reader

def lane (self : Session) (streamId : UInt32) (answers : List (Result Unit)) : Lane where
  readers := self.readers streamId
  entry := (self.streams streamId).map fun streamState => self.rankOf streamId streamState.dataTx
  closed := self.state.closed
  answers

/-- What a call means to the reader of its stream. -/
def callEvents (channelOpen : Bool) (rank : Nat) : Handle.Act → List Event
  | .pollRead remaining => [.read rank remaining]
  | act => if act.drops channelOpen then [.dropped rank] else []

/-- What the application's steps mean to an id. -/
def localEvents (streamId : UInt32) (u : Session) : Act → List Event
  | .register i => if i = streamId then [.registered] else []
  | .call k act =>
    if u.idAt k = some streamId then callEvents u.channelOpen (u.rankOf streamId k) act else []
  | _ => []

/-- The frames that `handle_frame` is done with in a step, of which there is one
at most. One that it drops as the session closes is none. -/
def frameEvents (streamId : UInt32) (u v : Session) : Act → List Event
  | .sessionClosing => []
  | _ => ((v.handled.drop u.handled.length).filter (·.streamId == streamId)).map .frame

/-- The events of a step under an id. A frame's place among them is where its
`handle_frame` is done with it. -/
def events (streamId : UInt32) : Session × Act → List Event
  | (u, act) =>
    match u.step act with
    | none => []
    | some v =>
      localEvents streamId u act ++ frameEvents streamId u v act ++
        if v.state.closed = u.state.closed then [] else [.closed]

/-- What `handle_syn_frame` returns for a SYN of an id. -/
def synAnswer (streamId : UInt32) : Session × Act → Option (Result Unit)
  | (u, .recv frame) =>
    if frame.cmd = .syn ∧ frame.streamId = streamId then some (u.handleSynFrame frame).1 else none
  | _ => none

-- ---------------------------------------------------------------------------
-- The streams map leads to streams of its ids
-- ---------------------------------------------------------------------------

/-- Kept whatever the peer sends. -/
def Routed (u : Session) : Prop :=
  ∀ streamId streamState, u.streams streamId = some streamState →
    u.idAt streamState.dataTx = some streamId

section
variable {config : Config} {isClient : Bool} {u v w t : Session} {act : Act} {frame : Frame}
  {streamId i : UInt32} {phase : Phase} {handle handle' : Handle} {answers : List (Result Unit)}
  {f : Handle → Handle}

theorem idAt_lt (h : u.idAt k = some i) : k < u.handles.length := by
  obtain ⟨handle, hk, -⟩ := Option.map_eq_some_iff.mp h
  exact (List.getElem?_eq_some_iff.mp hk).1

theorem streams_removeStream {streamState : StreamState}
    (h : (u.removeStream i).streams streamId = some streamState) :
    u.streams streamId = some streamState := by
  simp only [removeStream] at h
  split at h
  · cases h
  · exact h

/-- An entry was there before the step, or leads to the stream it makes. -/
theorem step_entry {streamState : StreamState} (hs : u.step act = some v)
    (h : v.streams streamId = some streamState) :
    u.streams streamId = some streamState ∨ v.idAt streamState.dataTx = some streamId := by
  have hins : ∀ {w : Session} {i phase}, (w.insertStream i phase).streams streamId = some streamState →
      w.streams streamId = some streamState ∨
        (w.insertStream i phase).idAt streamState.dataTx = some streamId := by
    intro w i phase hw
    simp only [insertStream] at hw
    split at hw
    · rename_i hi
      cases hw
      exact .inr (by simp [idAt, insertStream, length_dropEntry, hi, Handle.new, Handle.id, Stream.new])
    · exact .inl hw
  cases step_ok hs with
  | register | syn => exact hins h
  | fin => exact .inl (streams_removeStream h)
  | psh hp hpsh =>
    cases hp <;> cases hpsh with
    | gone => exact .inl (streams_removeStream h)
    | _ => exact .inl h
  | _ => exact .inl h

theorem routed_new (config : Config) (isClient : Bool) : (new config isClient).Routed := nofun

theorem routed_step (h : u.Routed) (hs : u.step act = some v) : v.Routed := by
  intro streamId streamState hv
  rcases step_entry hs hv with hu | hid
  · have hk := h _ _ hu
    rw [idAt_step hs (idAt_lt hk), hk]
  · exact hid

-- ---------------------------------------------------------------------------
-- Steps
-- ---------------------------------------------------------------------------

theorem handle_of_idAt (h : u.idAt k = some i) : ∃ handle, u.handles[k]? = some handle ∧ handle.id = i :=
  Option.map_eq_some_iff.mp h

theorem rank_dropEntry (h : u.Routed) (i streamId : UInt32) (k : Nat) :
    (u.dropEntry (u.streams i)).rank (·.id == streamId) k = u.rankOf streamId k := by
  cases hst : u.streams i with
  | none => rfl
  | some streamState =>
    obtain ⟨handle, hk, -⟩ := handle_of_idAt (h i streamState hst)
    exact List.rank_modify hk rfl

theorem filter_dropEntry_of_ne (h : u.Routed) (hi : i ≠ streamId) :
    (u.dropEntry (u.streams i)).filter (·.id == streamId) =
      u.handles.filter (·.id == streamId) := by
  cases hst : u.streams i with
  | none => rfl
  | some streamState =>
    obtain ⟨handle, hk, rfl⟩ := handle_of_idAt (h i streamState hst)
    have hkind : ¬(handle.id == streamId) = true := by simpa using hi
    exact List.filter_modify_of_neg hk hkind hkind

theorem readers_dropEntry (h : u.Routed) (streamId : UInt32) (answers : List (Result Unit)) :
    ((u.dropEntry (u.streams streamId)).filter (·.id == streamId)).map Handle.reader =
      (u.lane streamId answers).dropEntry := by
  cases hst : u.streams streamId with
  | none => simp [dropEntry, lane, readers, Lane.dropEntry, hst]
  | some streamState =>
    obtain ⟨handle, hk, rfl⟩ := handle_of_idAt (h streamId streamState hst)
    have hkind : (handle.id == handle.id) = true := beq_self_eq_true _
    have hreader : handle.disconnect.reader = handle.reader.disconnect := rfl
    rw [dropEntry, List.filter_modify hk hkind hkind,
      List.map_modify (List.getElem?_rank hk hkind) hreader]
    simp [lane, readers, Lane.dropEntry, hst, rankOf]

theorem lane_removeStream (h : u.Routed) (streamId : UInt32) (answers : List (Result Unit)) :
    (u.removeStream streamId).lane streamId answers = (u.lane streamId answers).remove := by
  rw [Lane.remove, ← readers_dropEntry h]
  simp [lane, readers, removeStream]

theorem lane_removeStream_of_ne (h : u.Routed) (hi : i ≠ streamId) (answers : List (Result Unit)) :
    (u.removeStream i).lane streamId answers = u.lane streamId answers := by
  have hrank := rank_dropEntry h i streamId
  simp [lane, readers, removeStream, filter_dropEntry_of_ne h hi, hi.symm, rankOf, hrank]

theorem lane_insertStream (h : u.Routed) (streamId : UInt32) (hphase : phase ≠ .dropped)
    (answers : List (Result Unit)) : (u.insertStream streamId phase).lane streamId answers =
      (u.lane streamId answers).insert streamId := by
  have hlen : (u.insertStream streamId phase).rankOf streamId u.handles.length =
      (u.lane streamId answers).readers.length := by
    have hle : u.handles.length ≤ (u.dropEntry (u.streams streamId)).length := by
      rw [length_dropEntry]
    rw [rankOf, insertStream, List.rank_append hle, rank_dropEntry h, rankOf, List.rank_length, lane,
      readers, List.length_map]
  have hnew : [Handle.new streamId phase].filter (·.id == streamId) = [.new streamId phase] := by
    simp [Handle.new, Handle.id, Stream.new]
  rw [Lane.insert, ← hlen, ← readers_dropEntry h]
  simp [lane, readers, insertStream, hnew, Handle.reader_new streamId hphase]

theorem lane_insertStream_of_ne (h : u.Routed) (hi : i ≠ streamId) (phase : Phase)
    (answers : List (Result Unit)) :
    (u.insertStream i phase).lane streamId answers = u.lane streamId answers := by
  have hnew : [Handle.new i phase].filter (·.id == streamId) = [] := by
    simpa [Handle.new, Handle.id, Stream.new] using hi
  have hentry : ∀ streamState, u.streams streamId = some streamState →
      (u.insertStream i phase).rankOf streamId streamState.dataTx =
        u.rankOf streamId streamState.dataTx := by
    intro streamState hst
    have hle : streamState.dataTx ≤ (u.dropEntry (u.streams i)).length := by
      rw [length_dropEntry]
      exact Nat.le_of_lt (idAt_lt (h _ _ hst))
    rw [rankOf, insertStream, List.rank_append hle, rank_dropEntry h]
  have hstreams : (u.insertStream i phase).streams streamId = u.streams streamId := if_neg hi.symm
  have hreaders : (u.insertStream i phase).readers streamId = u.readers streamId := by
    rw [readers, insertStream, List.filter_append, hnew, List.append_nil, filter_dropEntry_of_ne h hi,
      readers]
  rw [lane, hstreams, hreaders, lane]
  congr 1
  cases hst : u.streams streamId with
  | none => rfl
  | some streamState => rw [Option.map_some, Option.map_some, hentry _ hst]

theorem lane_congr (hhandles : v.handles = u.handles) (hstreams : v.streams = u.streams)
    (hclosed : v.state.closed = u.state.closed) :
    v.lane streamId answers = u.lane streamId answers := by
  simp [lane, readers, rankOf, hhandles, hstreams, hclosed]

theorem rank_set (hk : u.handles[k]? = some handle) (hid : handle'.id = handle.id)
    (streamId : UInt32) (j : Nat) :
    (u.handles.set k handle').rank (·.id == streamId) j = u.rankOf streamId j := by
  rw [List.set_eq_modify]
  exact List.rank_modify hk (congrArg (· == streamId) hid)

/-- A stream changed is a change of its reader. -/
theorem lane_set (hk : u.handles[k]? = some handle) (hid : handle'.id = handle.id)
    (hf : handle'.reader = f handle.reader) (hi : handle.id = streamId) :
    { u with handles := u.handles.set k handle' }.lane streamId answers =
      (u.lane streamId answers).update (u.rankOf streamId k) f := by
  have hkind : (handle.id == streamId) = true := beq_iff_eq.mpr hi
  have hset : { u with handles := u.handles.set k handle' }.readers streamId =
      (u.readers streamId).modify (u.rankOf streamId k) f := by
    rw [readers, List.set_eq_modify, List.filter_modify hk hkind (hid ▸ hkind)]
    exact List.map_modify (List.getElem?_rank hk hkind) hf
  have hrank := rank_set hk hid streamId
  simp [lane, Lane.update, hset, rankOf, hrank]

theorem lane_set_of_ne (hk : u.handles[k]? = some handle) (hid : handle'.id = handle.id)
    (hi : handle.id ≠ streamId) :
    { u with handles := u.handles.set k handle' }.lane streamId answers =
      u.lane streamId answers := by
  have hkind : ¬(handle.id == streamId) = true := by simpa using hi
  have hset : { u with handles := u.handles.set k handle' }.readers streamId =
      u.readers streamId := by
    rw [readers, List.set_eq_modify, List.filter_modify_of_neg hk hkind (hid ▸ hkind), readers]
  have hrank := rank_set hk hid streamId
  simp [lane, hset, rankOf, hrank]

theorem getElem_lane (hk : u.handles[k]? = some handle) (hi : handle.id = streamId) :
    (u.lane streamId answers).readers[u.rankOf streamId k]? = some handle.reader := by
  have hkind : (handle.id == streamId) = true := beq_iff_eq.mpr hi
  have hget : (u.handles.filter (·.id == streamId))[u.rankOf streamId k]? = some handle :=
    List.getElem?_rank hk hkind
  rw [lane, readers, List.getElem?_map, hget, Option.map_some]

/-- The handle that the entry of a lane leads to gets a payload. -/
theorem deliver_lane {streamState : StreamState} (data : Bytes)
    (hst : u.streams streamId = some streamState)
    (hh : u.handles[streamState.dataTx]? = some handle) (hid : handle.id = streamId) :
    (u.lane streamId answers).deliver data =
      if handle.phase = .dropped then (u.lane streamId answers).remove
      else (u.lane streamId answers).update (u.rankOf streamId streamState.dataTx)
        (·.deliver data) := by
  have hentry : (u.lane streamId answers).entry =
      some (u.rankOf streamId streamState.dataTx) := by
    rw [lane, hst, Option.map_some]
  simp only [Lane.deliver, hentry, getElem_lane hh hid, Handle.reader_dropped]

/-- A payload that `handle_psh_frame` does not wait with. -/
theorem lane_psh (h : w.Routed) (hpsh : Psh w frame v) (hdone : v.handled ≠ w.handled) :
    v.lane streamId answers =
      if frame.streamId = streamId then (w.lane streamId answers).deliver frame.data
      else w.lane streamId answers := by
  have hstate : ∀ state : SessionState, state.closed = w.state.closed →
      { w with state }.Routed ∧ ∀ i, { w with state }.lane i answers = w.lane i answers :=
    fun _ hc => ⟨h, fun i => lane_congr rfl rfl hc⟩
  cases hpsh with
  | @delivered streamState handle _ hst hh hlive =>
    obtain ⟨_, hh', hid⟩ := handle_of_idAt (h _ _ hst)
    rw [hh] at hh'
    cases hh'
    have hkept : (handle.deliver frame.data).id = handle.id := rfl
    have hreader : (handle.deliver frame.data).reader = handle.reader.deliver frame.data := rfl
    split
    · rename_i hi
      subst hi
      refine (lane_set (f := (·.deliver frame.data)) hh hkept hreader hid).trans ?_
      rw [deliver_lane frame.data hst hh hid, if_neg hlive]
    · rename_i hi
      exact lane_set_of_ne hh hkept (hid ▸ hi)
  | @gone streamState _ hst hdropped =>
    obtain ⟨handle, hh, hid⟩ := handle_of_idAt (h _ _ hst)
    obtain ⟨hrouted, hlane⟩ := hstate (w.state.returnTokens frame.data.length) rfl
    split
    · rename_i hi
      subst hi
      refine (lane_removeStream hrouted frame.streamId answers).trans ?_
      rw [hlane]
      rw [deliver_lane frame.data hst hh hid, if_pos (hdropped _ hh)]
    · rename_i hi
      exact (lane_removeStream_of_ne hrouted hi answers).trans (hlane streamId)
  | unknown _ hst =>
    obtain ⟨-, hlane⟩ := hstate (w.state.returnTokens frame.data.length) rfl
    refine (hlane streamId).trans ?_
    split
    · rename_i hi
      subst hi
      have hentry : (w.lane frame.streamId answers).entry = none := by rw [lane, hst, Option.map_none]
      simp only [Lane.deliver, hentry]
    · rfl
  | waits => exact absurd rfl hdone

theorem psh_done (hpsh : Psh w frame v) :
    v.state.closed = w.state.closed ∧
      (v.handled = w.handled ++ [frame] ∨
        v.handles = w.handles ∧ v.streams = w.streams ∧ v.handled = w.handled) := by
  cases hpsh with
  | waits => exact ⟨rfl, .inr ⟨rfl, rfl, rfl⟩⟩
  | _ => exact ⟨rfl, .inl rfl⟩

theorem lane_synAnswer (u : Session) (frame : Frame) (answers : List (Result Unit)) :
    (u.lane frame.streamId answers).synAnswer u.isClient frame.streamId =
      (u.handleSynFrame frame).1 := by
  have hpeer : (new .default u.isClient).validatePeerStreamId frame.streamId =
      u.validatePeerStreamId frame.streamId := rfl
  have hentry : (u.lane frame.streamId answers).entry.isSome = (u.streams frame.streamId).isSome :=
    Option.isSome_map
  unfold Lane.synAnswer handleSynFrame
  rw [hpeer, hentry]
  cases u.validatePeerStreamId frame.streamId with
  | error e => rfl
  | ok => cases (u.streams frame.streamId).isSome <;> rfl

theorem callEvents_of_ne {call : Handle.Act} (h : ∀ remaining, call ≠ .pollRead remaining)
    (channelOpen : Bool) (rank : Nat) :
    callEvents channelOpen rank call = if call.drops channelOpen then [.dropped rank] else [] := by
  cases call with
  | pollRead remaining => exact absurd rfl (h remaining)
  | _ => rfl

theorem frameEvents_of_ne (hact : act ≠ .sessionClosing) : frameEvents streamId u v act =
    ((v.handled.drop u.handled.length).filter (·.streamId == streamId)).map .frame := by
  cases act with
  | sessionClosing => exact absurd rfl hact
  | _ => rfl

theorem events_done (hs : u.step act = some v) (hlocal : localEvents streamId u act = [])
    (hact : act ≠ .sessionClosing) (hdone : v.handled = u.handled ++ [frame])
    (hclosed : v.state.closed = u.state.closed) :
    events streamId (u, act) = if frame.streamId = streamId then [.frame frame] else [] := by
  have hframes : frameEvents streamId u v act =
      if frame.streamId = streamId then [.frame frame] else [] := by
    have hdrop : v.handled.drop u.handled.length = [frame] := by rw [hdone, List.drop_left]
    rw [frameEvents_of_ne hact, hdrop]
    by_cases hi : frame.streamId = streamId <;> simp [hi]
  rw [events, hs]
  simp [hlocal, hframes, hclosed]

theorem events_local (hs : u.step act = some v)
    (hdone : act = .sessionClosing ∨ v.handled = u.handled)
    (hclosed : v.state.closed = u.state.closed) :
    events streamId (u, act) = localEvents streamId u act := by
  have hframes : frameEvents streamId u v act = [] := by
    by_cases hact : act = .sessionClosing
    · rw [hact, frameEvents]
    · rw [frameEvents_of_ne hact, hdone.resolve_left hact, List.drop_length]
      rfl
  rw [events, hs]
  simp [hframes, hclosed]

/-- A call on the stream of a handle. -/
theorem lane_call (hk : u.handles[k]? = some handle)
    (hcall : handle.step u.config u.state u.channelOpen call = some (handle', state', sent)) :
    (if u.idAt k = some streamId then callEvents u.channelOpen (u.rankOf streamId k) call
      else []).foldl (Lane.step isClient streamId) (u.lane streamId answers) =
      { u with handles := u.handles.set k handle' }.lane streamId answers := by
  have hid : u.idAt k = some handle.id := by rw [idAt, hk, Option.map_some]
  have hkept := (Handle.step_frame hcall).2.1
  rw [hid]
  by_cases hi : handle.id = streamId
  · rw [if_pos (congrArg some hi)]
    rcases Handle.step_reader hcall with ⟨remaining, rfl, rfl⟩ | ⟨hact, hreader⟩
    · have hclosed : (u.lane streamId answers).state.closed = u.state.closed := rfl
      have hreader : (handle.polled u.state remaining).reader =
          handle.reader.polled (u.lane streamId answers).state remaining :=
        Handle.reader_polled hclosed remaining
      exact (lane_set (f := (·.polled (u.lane streamId answers).state remaining)) hk hkept hreader
        hi).symm
    · rw [callEvents_of_ne hact]
      cases hdrops : call.drops u.channelOpen with
      | true =>
        rw [hdrops] at hreader
        exact (lane_set (f := Handle.gone) hk hkept hreader hi).symm
      | false =>
        rw [hdrops] at hreader
        exact ((lane_set (f := id) hk hkept hreader hi).trans (Lane.update_id _ _)).symm
  · rw [if_neg (by simpa using hi)]
    exact (lane_set_of_ne hk hkept hi).symm

theorem synAnswer_of_ne (hi : frame.streamId ≠ streamId) :
    synAnswer streamId (u, .recv frame) = none := if_neg fun h => hi h.2

theorem answers_kept (h : ∀ frame, act = .recv frame → frame.cmd ≠ .syn) :
    answers ++ (synAnswer streamId (u, act)).toList = answers := by
  cases act with
  | recv frame => simp [synAnswer, h frame rfl]
  | _ => exact List.append_nil _

/-- What the step does under an id is what the lane of the id does. -/
def Moves (streamId : UInt32) (answers : List (Result Unit)) (u : Session) (act : Act)
    (v : Session) : Prop :=
  (events streamId (u, act)).foldl (Lane.step u.isClient streamId) (u.lane streamId answers) =
    v.lane streamId (answers ++ (synAnswer streamId (u, act)).toList)

/-- A step that `handle_frame` is done with a frame in. -/
theorem moves_done (hs : u.step act = some v) (hlocal : localEvents streamId u act = [])
    (hact : act ≠ .sessionClosing) (hdone : v.handled = u.handled ++ [frame])
    (hclosed : v.state.closed = u.state.closed)
    (hself : frame.streamId = streamId → (u.lane streamId answers).handleFrame u.isClient frame =
      v.lane streamId (answers ++ (synAnswer streamId (u, act)).toList))
    (hother : frame.streamId ≠ streamId →
      v.lane streamId (answers ++ (synAnswer streamId (u, act)).toList) = u.lane streamId answers) :
    Moves streamId answers u act v := by
  rw [Moves, events_done hs hlocal hact hdone hclosed]
  split
  · rename_i hi
    exact hself hi
  · rename_i hi
    exact (hother hi).symm

/-- A step that no stream is part of. -/
theorem moves_nothing (hs : u.step act = some v) (hlocal : localEvents streamId u act = [])
    (hrecv : ∀ frame, act ≠ .recv frame) (hhandles : v.handles = u.handles)
    (hstreams : v.streams = u.streams) (hdone : act = .sessionClosing ∨ v.handled = u.handled)
    (hclosed : v.state.closed = u.state.closed) : Moves streamId answers u act v := by
  rw [Moves, events_local hs hdone hclosed, hlocal,
    answers_kept fun frame hf => absurd hf (hrecv frame), lane_congr hhandles hstreams hclosed]
  rfl

/-- A step that does no more than close the session. -/
theorem moves_close (hs : u.step act = some v) (hlocal : localEvents streamId u act = [])
    (hrecv : ∀ frame, act ≠ .recv frame) (hhandles : v.handles = u.handles)
    (hstreams : v.streams = u.streams) (hdone : v.handled = u.handled)
    (hclosed : v.state.closed) : Moves streamId answers u act v := by
  by_cases hc : v.state.closed = u.state.closed
  · exact moves_nothing hs hlocal hrecv hhandles hstreams (.inr hdone) hc
  · have hact : act ≠ .sessionClosing := by
      rintro rfl
      exact hc ((step_closed hs).resolve_right (by simp)).1
    have hlane : v.lane streamId answers = { u.lane streamId answers with closed := true } := by
      simp [lane, readers, rankOf, hhandles, hstreams, hclosed]
    have hframes : frameEvents streamId u v act = [] := by
      rw [frameEvents_of_ne hact, hdone, List.drop_length]
      rfl
    rw [Moves, events, hs, answers_kept fun frame hf => absurd hf (hrecv frame), hlane]
    simp [hlocal, hframes, hc, Lane.step]

theorem moves_register (h : u.Routed)
    (hs : u.step (.register i) =
      some { u.insertStream i .registered with allocated := u.allocated.erase i }) :
    Moves streamId answers u (.register i)
      { u.insertStream i .registered with allocated := u.allocated.erase i } := by
  have hlane : { u.insertStream i .registered with allocated := u.allocated.erase i }.lane streamId
      answers = (u.insertStream i .registered).lane streamId answers := rfl
  have hact : localEvents streamId u (.register i) =
      if i = streamId then [.registered] else [] := rfl
  have hno : answers ++ (synAnswer streamId (u, .register i)).toList = answers := answers_kept nofun
  rw [Moves, events_local hs (.inr rfl) rfl, hno, hlane, hact]
  split
  · rename_i he
    subst he
    rw [lane_insertStream h i (by decide)]
    rfl
  · rename_i he
    rw [lane_insertStream_of_ne h he]
    rfl

theorem localEvents_calls (h : Calls u act k call waiting) : localEvents streamId u act =
    if u.idAt k = some streamId then callEvents u.channelOpen (u.rankOf streamId k) call else [] := by
  cases h with
  | call => rfl
  | accept hin => exact (ite_self _).symm

theorem moves_called {waiting : List Nat} (hcalls : Calls u act k call waiting)
    (hk : u.handles[k]? = some handle)
    (hcall : handle.step u.config u.state u.channelOpen call = some (handle', state', sent))
    (hs : u.step act = some ({ u with
      handles := u.handles.set k handle', state := state', incoming := waiting }.queue sent)) :
    Moves streamId answers u act ({ u with
      handles := u.handles.set k handle', state := state', incoming := waiting }.queue sent) := by
  have hclosed := ((step_closed hs).resolve_right fun hc => by cases hcalls <;> simp at hc).1
  have hrecv : ∀ frame, act ≠ .recv frame := by cases hcalls <;> exact nofun
  rw [Moves, events_local hs (.inr rfl) hclosed, localEvents_calls hcalls,
    answers_kept fun frame hf => absurd hf (hrecv frame), lane_call hk hcall]
  exact lane_congr rfl rfl hclosed.symm

theorem lane_finish (frame : Frame) : (u.received.finish frame).lane streamId answers =
    u.lane streamId answers := rfl

theorem moves_refused (hs : u.step (.recv frame) = some (u.received.finish frame))
    (hc : frame.cmd = .syn) (hr : u.refuses frame) :
    Moves streamId answers u (.recv frame) (u.received.finish frame) := by
  refine moves_done hs rfl nofun rfl rfl (fun hi => ?_) (fun hi => ?_)
  · subst hi
    have hrefused : (u.handleSynFrame frame).1 ≠ .ok () := fun hok => handleSynFrame_ok.mp hok hr
    simp [Lane.handleFrame, hc, lane_synAnswer, hrefused, synAnswer, lane_finish]
    rfl
  · rw [synAnswer_of_ne hi, Option.toList_none, List.append_nil, lane_finish]

theorem moves_ignored (hs : u.step (.recv frame) = some (u.received.finish frame))
    (hcase : frame.cmd = .nop ∨ (∃ consumed window, frame.cmd = .upd consumed window) ∨
      frame.cmd = .psh ∧ frame.data = []) :
    Moves streamId answers u (.recv frame) (u.received.finish frame) := by
  have hsyn : frame.cmd ≠ .syn := by
    rcases hcase with hc | ⟨_, _, hc⟩ | ⟨hc, -⟩ <;> rw [hc] <;> rintro ⟨⟩
  have hno : answers ++ (synAnswer streamId (u, .recv frame)).toList = answers :=
    answers_kept (by rintro _ ⟨⟩; exact hsyn)
  refine moves_done hs rfl nofun rfl rfl (fun hi => ?_) (fun hi => ?_)
  · subst hi
    rw [hno, lane_finish]
    rcases hcase with hc | ⟨_, _, hc⟩ | ⟨hc, hd⟩
    · simp [Lane.handleFrame, hc]
    · simp [Lane.handleFrame, hc]
    · simp [Lane.handleFrame, hc, hd]
  · rw [hno, lane_finish]

theorem moves_syn (h : u.Routed) (hc : frame.cmd = .syn) (hr : ¬u.refuses frame)
    (hs : u.step (.recv frame) = some { u.received.insertStream frame.streamId .incoming with
      handling := some (.accepting u.handles.length), handled := u.handled ++ [frame] }) :
    Moves streamId answers u (.recv frame) { u.received.insertStream frame.streamId .incoming with
      handling := some (.accepting u.handles.length), handled := u.handled ++ [frame] } := by
  have hlane : ∀ answers, { u.received.insertStream frame.streamId .incoming with
      handling := some (.accepting u.handles.length),
      handled := u.handled ++ [frame] }.lane streamId answers =
        (u.insertStream frame.streamId .incoming).lane streamId answers := fun _ => rfl
  refine moves_done hs rfl nofun rfl rfl (fun hi => ?_) (fun hi => ?_)
  · subst hi
    rw [hlane, lane_insertStream h frame.streamId (by decide)]
    simp [Lane.handleFrame, hc, lane_synAnswer, handleSynFrame_ok.mpr hr, synAnswer]
    rfl
  · rw [synAnswer_of_ne hi, Option.toList_none, List.append_nil, hlane, lane_insertStream_of_ne h hi]

theorem moves_fin (h : u.Routed) (hc : frame.cmd = .fin)
    (hs : u.step (.recv frame) = some ((u.received.removeStream frame.streamId).finish frame)) :
    Moves streamId answers u (.recv frame)
      ((u.received.removeStream frame.streamId).finish frame) := by
  have hlane : ((u.received.removeStream frame.streamId).finish frame).lane streamId answers =
      (u.removeStream frame.streamId).lane streamId answers := rfl
  have hno : answers ++ (synAnswer streamId (u, .recv frame)).toList = answers :=
    answers_kept (by rintro _ ⟨⟩; rw [hc]; decide)
  refine moves_done hs rfl nofun rfl rfl (fun hi => ?_) (fun hi => ?_)
  · subst hi
    rw [hno]
    simp [Lane.handleFrame, hc, hlane, lane_removeStream h]
  · rw [hno, hlane, lane_removeStream_of_ne h hi]

/-- A pass through the loop of `handle_psh_frame`. -/
theorem moves_psh (h : u.Routed) (ha : u.AwaitsPsh) (hp : Pass u act frame w) (hpsh : Psh w frame v)
    (hs : u.step act = some v) : Moves streamId answers u act v := by
  obtain ⟨-, hc, hd⟩ := hp.isPsh ha
  have hno : answers ++ (synAnswer streamId (u, act)).toList = answers := by
    cases hp with
    | first => exact answers_kept (by rintro _ ⟨⟩; rw [hc]; decide)
    | again => exact answers_kept nofun
  have hlocal : localEvents streamId u act = [] := by cases hp <;> rfl
  have hact : act ≠ .sessionClosing := by cases hp <;> exact nofun
  obtain ⟨hlane, hrouted, hhandled, hclosed⟩ :
      w.lane streamId answers = u.lane streamId answers ∧ w.Routed ∧ w.handled = u.handled ∧
        w.state.closed = u.state.closed := by
    cases hp <;> exact ⟨rfl, h, rfl, rfl⟩
  obtain ⟨hclosed', hdone | ⟨hhandles, hstreams, hdone⟩⟩ := psh_done hpsh
  · have hpsh : v.lane streamId answers =
        if frame.streamId = streamId then (w.lane streamId answers).deliver frame.data
        else w.lane streamId answers := lane_psh hrouted hpsh (by simp [hdone])
    refine moves_done hs hlocal hact (hhandled ▸ hdone) (hclosed'.trans hclosed)
      (fun hi => ?_) (fun hi => ?_)
    · rw [hno, hpsh, if_pos hi, hlane]
      simp [Lane.handleFrame, hc, hd]
    · rw [hno, hpsh, if_neg hi, hlane]
  · -- it waits for tokens
    rw [Moves, events_local hs (.inr (hdone.trans hhandled)) (hclosed'.trans hclosed), hlocal, hno,
      lane_congr hhandles hstreams hclosed', hlane]
    rfl

/-- What a session does under an id is what its lane does. -/
theorem lane_step (h : u.Routed) (ha : u.AwaitsPsh) (hs : u.step act = some v) (streamId : UInt32)
    (answers : List (Result Unit)) : Moves streamId answers u act v := by
  cases step_ok hs with
  | nextStreamId | openClosed | openFailed | opened | accepted | ping | pingRefused | sendFrame =>
    exact moves_nothing hs rfl nofun rfl rfl (.inr rfl) rfl
  | sessionClosing => exact moves_nothing hs rfl nofun rfl rfl (.inl rfl) rfl
  | close | sendLoopEnded =>
    exact moves_close hs rfl nofun rfl rfl rfl (SessionState.close_closed _)
  | keepAliveTimeout hstate =>
    rcases hstate with rfl | rfl
    · exact moves_nothing hs rfl nofun rfl rfl (.inr rfl) rfl
    · exact moves_close hs rfl nofun rfl rfl rfl (SessionState.close_closed _)
  | register => exact moves_register h hs
  | called hcalls hk hcall => exact moves_called hcalls hk hcall hs
  | ignored _ _ hcase =>
    rcases hcase with hc | hc | hc | ⟨hc, hr⟩
    · exact moves_ignored hs (.inl hc)
    · exact moves_ignored hs (.inr (.inl hc))
    · exact moves_ignored hs (.inr (.inr hc))
    · exact moves_refused hs hc hr
  | syn _ _ hc hr => exact moves_syn h hc hr hs
  | fin _ _ hc => exact moves_fin h hc hs
  | psh hp hpsh => exact moves_psh h ha hp hpsh hs

-- ---------------------------------------------------------------------------
-- Runs
-- ---------------------------------------------------------------------------

/-- What two runs show under an id is the same. -/
structure SameStreams (streamId : UInt32) (tr : List (Session × Act)) (t : Session)
    (tr' : List (Session × Act)) (t' : Session) : Prop where
  present : (t.streams streamId).isSome = (t'.streams streamId).isSome
  /-- The streams that the id has named, each with the bytes queued for it and
  whether an end of file follows them. -/
  readers : t.readers streamId = t'.readers streamId
  answers : tr.filterMap (synAnswer streamId) = tr'.filterMap (synAnswer streamId)

variable {tr tr' : List (Session × Act)} {t' : Session}

/-- The session along a run, as one id sees it. -/
structure Seen (isClient : Bool) (streamId : UInt32) (tr : List (Session × Act)) (t : Session) :
    Prop where
  isClient_eq : t.isClient = isClient
  routed : t.Routed
  awaits : t.AwaitsPsh
  lane : (tr.flatMap (events streamId)).foldl (Lane.step isClient streamId) .new =
    t.lane streamId (tr.filterMap (synAnswer streamId))

theorem seen_run (hr : Run step (new config isClient) tr t) (streamId : UInt32) :
    Seen isClient streamId tr t := by
  induction hr with
  | nil => exact ⟨rfl, routed_new config isClient, nofun, rfl⟩
  | @snoc tr u act v _ hs ih =>
    obtain ⟨rfl, hrouted, hawaits, hlane⟩ := ih
    refine ⟨step_isClient hs, routed_step hrouted hs, awaitsPsh_step hawaits hs, ?_⟩
    have hanswers : (tr ++ [(u, act)]).filterMap (synAnswer streamId) =
        tr.filterMap (synAnswer streamId) ++ (synAnswer streamId (u, act)).toList := by
      cases h : synAnswer streamId (u, act) <;> simp [h]
    rw [List.flatMap_append, List.flatMap_singleton, List.foldl_append, hlane, hanswers]
    exact lane_step hrouted hawaits hs streamId _

/-- What a session shows under an id depends on the events of this id only. -/
theorem sameStreams_of_events {config' : Config} (hr : Run step (new config isClient) tr t)
    (hr' : Run step (new config' isClient) tr' t')
    (hevents : tr.flatMap (events streamId) = tr'.flatMap (events streamId)) :
    SameStreams streamId tr t tr' t' := by
  have hlane := (seen_run hr streamId).lane
  rw [hevents, (seen_run hr' streamId).lane] at hlane
  have hentry := congrArg (Option.isSome ∘ Lane.entry) hlane
  simp only [Function.comp, lane, Option.isSome_map] at hentry
  exact ⟨hentry.symm, congrArg Lane.readers hlane.symm, congrArg Lane.answers hlane.symm⟩

end

end Session

end Smux
