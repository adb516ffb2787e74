import Smux.Handle
import Smux.Lib.Runs

/-!
# Sessions

A session with its streams, up to the point where bytes are involved: the
frame channel is the list of frames in it, and incoming frames are those the
decoder yields. An action is what one task does between two awaits.

Handles are kept in a list in the order they are created, a dropped one
included, and a sender of a data channel is the index of its handle. Ids
fetched by `open_stream` and not in the streams map yet are in `allocated`:
another thread can run between the two. `queued` and `handled` are histories
of the frame channel and of `handle_frame` that the source does not keep.
-/

namespace Smux

structure StreamState where
  dataTx : Nat
  isReadClosed : Bool
  deriving DecidableEq, Repr

/-- A `handle_frame` call at an await. -/
inductive Handling
  /-- `handle_syn_frame`, sending the stream to the accept queue. -/
  | accepting (handle : Nat)
  /-- `handle_psh_frame`, in its `select!`. -/
  | awaitingTokens (frame : Frame) (tokensNotified closeNotified : Notified)
  deriving DecidableEq, Repr

structure Session where
  config : Config
  isClient : Bool
  idCounter : UInt32
  streams : UInt32 → Option StreamState
  incoming : List Nat
  frames : List Frame
  channelOpen : Bool
  state : SessionState
  handles : List Handle
  allocated : List UInt32
  handling : Option Handling
  queued : List Frame
  handled : List Frame

namespace Session

def new (config : Config) (isClient : Bool) : Session where
  config
  isClient
  idCounter := if isClient then 1 else 2
  streams _ := none
  incoming := []
  frames := []
  channelOpen := true
  state := .new config.maxReceiveBuffer
  handles := []
  allocated := []
  handling := none
  queued := []
  handled := []

-- ---------------------------------------------------------------------------
-- Stream ids
-- ---------------------------------------------------------------------------

/-- `fetch_add` wraps, and it happens also when the limit is exceeded. -/
def nextStreamId (self : Session) : Result UInt32 × Session :=
  let current := self.idCounter
  (if current > 0xFFFFFFFF - 2 then
      .error (.protocolViolation "Stream ID overflow - session should be restarted")
    else .ok current,
    { self with idCounter := current + 2 })

def validatePeerStreamId (self : Session) (streamId : UInt32) : Result Unit :=
  if streamId = 0 then .error (.invalidStreamId streamId)
  else
    let expectedParity := if self.isClient then 0 else 1
    let actualParity := streamId % 2
    if actualParity ≠ expectedParity then .error (.invalidStreamId streamId) else .ok ()

-- ---------------------------------------------------------------------------
-- The streams map
-- ---------------------------------------------------------------------------

/-- The handles once an entry of the streams map is dropped: its data channel
loses its sender. -/
def dropEntry (self : Session) : Option StreamState → List Handle
  | none => self.handles
  | some streamState => self.handles.modify streamState.dataTx Handle.disconnect

/-- `streams.remove`, with the entry dropped. The flag that `handle_fin_frame`
sets on it first is the entry's own, which no stream reads. -/
def removeStream (self : Session) (streamId : UInt32) : Session :=
  { self with
    streams := fun i => if i = streamId then none else self.streams i
    handles := self.dropEntry (self.streams streamId) }

/-- `streams.insert` of a new stream's entry; an entry it replaces is dropped. -/
def insertStream (self : Session) (streamId : UInt32) (phase : Phase) : Session :=
  { self with
    streams := fun i =>
      if i = streamId then some { dataTx := self.handles.length, isReadClosed := false }
      else self.streams i
    handles := self.dropEntry (self.streams streamId) ++ [.new streamId phase] }

/-- `open_stream` up to the insertion of its entry. -/
def openStream (self : Session) : Result UInt32 × Session :=
  if self.state.isClosed then (.error .sessionClosed, self) else self.nextStreamId

-- ---------------------------------------------------------------------------
-- Incoming frames
-- ---------------------------------------------------------------------------

/-- Up to the `send_async` to the accept queue. That send cannot fail: the
session owns a receiver of the queue. -/
def handleSynFrame (self : Session) (frame : Frame) : Result Unit × Session :=
  match self.validatePeerStreamId frame.streamId with
  | .error e => (.error e, self)
  | .ok () =>
    if (self.streams frame.streamId).isSome then (.error (.streamAlreadyExists frame.streamId), self)
    else
      let handle := self.handles.length
      (.ok (), { self.insertStream frame.streamId .incoming with handling := some (.accepting handle) })

def handleFinFrame (self : Session) (frame : Frame) : Session := self.removeStream frame.streamId

/-- `data_tx.send_async`, on an unbounded channel: the handle it reaches, if
the stream is still there to receive. -/
def receiver (self : Session) (streamState : StreamState) : Option Handle :=
  match self.handles[streamState.dataTx]? with
  | some handle => if handle.phase = .dropped then none else some handle
  | none => none

def dispatchPsh (self : Session) (frame : Frame) : Session :=
  match self.streams frame.streamId with
  | some streamState =>
    match self.receiver streamState with
    | some handle =>
      { self with handles := self.handles.set streamState.dataTx (handle.deliver frame.data) }
    | none =>
      { self with state := self.state.returnTokens frame.data.length }.removeStream frame.streamId
  | none => { self with state := self.state.returnTokens frame.data.length }

def finish (self : Session) (frame : Frame) : Session :=
  { self with handling := none, handled := self.handled ++ [frame] }

/-- One pass through the loop of `handle_psh_frame`. Tokens are taken when
there are none, and not when there are. -/
def pshLoop (self : Session) (frame : Frame) : Session :=
  if self.state.getTokens > 0 then (self.dispatchPsh frame).finish frame
  else
    { self with
      state := self.state.takeTokens frame.data.length
      handling := some
        (.awaitingTokens frame self.state.tokensReturned.notified self.state.die.notified) }

def handlePshFrame (self : Session) (frame : Frame) : Session :=
  if frame.data.length = 0 then self.finish frame else self.pshLoop frame

/-- `handle_frame` up to its end or its first await. -/
def handleFrame (self : Session) (frame : Frame) : Session :=
  match frame.cmd with
  | .syn =>
    let self := (self.handleSynFrame frame).2
    { self with handled := self.handled ++ [frame] }
  | .fin => (self.handleFinFrame frame).finish frame
  | .psh => self.handlePshFrame frame
  | .upd _ _ | .nop => self.finish frame

-- ---------------------------------------------------------------------------
-- Steps
-- ---------------------------------------------------------------------------

inductive Act
  | nextStreamId
  | openStream
  /-- `open_stream` inserts the entry of an id it has fetched. -/
  | register (streamId : UInt32)
  /-- A call on the stream of a handle. -/
  | call (handle : Nat) (act : Handle.Act)
  /-- The receive of `accept_stream`, which takes the first stream of the accept
  queue. The check of the closed flag before it is not part of this step. -/
  | acceptStream
  /-- `recv_loop` gets a frame from the decoder. -/
  | recv (frame : Frame)
  /-- The accept queue has room for the stream of a SYN. -/
  | accepted
  /-- `handle_psh_frame` wakes up: tokens were returned, -/
  | tokensReturned
  /-- or the session closes. -/
  | sessionClosing
  /-- `keep_alive_loop` sends a NOP. -/
  | ping
  | keepAliveTimeout
  /-- `send_loop` takes a frame off the channel. -/
  | sendFrame
  | close
  /-- `send_loop` ends: it closes the session and drops the receiver of the
  frame channel. -/
  | sendLoopEnded
  deriving DecidableEq, Repr

/-- The application's own steps, as opposed to those of the three loops. -/
def Act.isLocal : Act → Bool
  | .nextStreamId | .openStream | .register _ | .call _ _ | .acceptStream | .close => true
  | _ => false

def acceptBacklog : Nat := 16

def queue (self : Session) (frames : List Frame) : Session :=
  { self with frames := self.frames ++ frames, queued := self.queued ++ frames }

def step (self : Session) : Act → Option Session
  | .nextStreamId => some self.nextStreamId.2
  | .openStream =>
    match self.openStream with
    | (.ok streamId, self) => some { self with allocated := streamId :: self.allocated }
    | (.error _, self) => some self
  | .register streamId =>
    if streamId ∈ self.allocated then
      some { self.insertStream streamId .registered with
        allocated := self.allocated.erase streamId }
    else none
  | .call _ .acceptReturned => none
  | .call k act => do
    let handle ← self.handles[k]?
    let (handle, state, frames) ← handle.step self.config self.state self.channelOpen act
    return { self with handles := self.handles.set k handle, state }.queue frames
  | .acceptStream =>
    match self.incoming with
    | [] => none
    | k :: incoming => do
      let handle ← self.handles[k]?
      let (handle, state, frames) ←
        handle.step self.config self.state self.channelOpen .acceptReturned
      return { self with handles := self.handles.set k handle, state, incoming }.queue frames
  | .recv frame =>
    if self.handling.isNone ∧ frame.validate self.config = .ok () then
      some ({ self with state := self.state.markDataReceived }.handleFrame frame)
    else none
  | .accepted =>
    match self.handling with
    | some (.accepting handle) =>
      if self.incoming.length < acceptBacklog then
        some { self with handling := none, incoming := self.incoming ++ [handle] }
      else none
    | _ => none
  | .tokensReturned =>
    match self.handling with
    | some (.awaitingTokens frame tokensNotified _) =>
      if self.state.tokensReturned.wakes tokensNotified then some (self.pshLoop frame) else none
    | _ => none
  | .sessionClosing =>
    match self.handling with
    | some (.awaitingTokens frame _ closeNotified) =>
      if self.state.die.wakes closeNotified then
        some ({ self with state := self.state.returnTokens frame.data.length }.finish frame)
      else none
    | _ => none
  | .ping =>
    some (if self.channelOpen then self.queue [.newNop self.config.version] else self)
  | .keepAliveTimeout =>
    let (received, state) := self.state.checkAndResetDataReceived
    let state := if !received && state.getTokens > 0 then state.close else state
    some { self with state }
  | .sendFrame =>
    match self.frames with
    | [] => none
    | _ :: frames => if self.channelOpen then some { self with frames } else none
  | .close => some { self with state := self.state.close }
  | .sendLoopEnded => some { self with state := self.state.close, channelOpen := false }

end Session

end Smux
