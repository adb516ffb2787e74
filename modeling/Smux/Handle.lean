import Smux.Stream

/-!
# A stream with the calls made on it

A `Handle` is a `Stream` together with where it is in its life: which call on
it is at an await, if one is. It also keeps four histories that the source
does not have: the frames the stream has put in the frame channel, the bytes
its `poll_write` accepted, those its `poll_read` returned, and those sent on
its data channel.

The frame channel is bounded. Whether it has room at an attempt to send is
left to the caller of `step`, so every pattern of a full channel is covered.
-/

namespace Smux

inductive Phase
  /-- `open_stream` at its await: in the streams map, the SYN not queued. -/
  | registered
  /-- `open_stream`: the SYN is queued, the call has not returned. -/
  | synQueued
  /-- Built by `handle_syn_frame` and not handed out yet. -/
  | incoming
  /-- In the hands of the application, with no call at an await. -/
  | held
  /-- `close` at its await: the FIN not queued. -/
  | closing
  | dropped
  deriving DecidableEq, Repr

structure Handle where
  stream : Stream
  phase : Phase
  sent : List Frame
  accepted : Bytes
  returned : Bytes
  delivered : Bytes
  deriving DecidableEq, Repr

/-- The bytes a `poll_read` put in the buffer. -/
def Poll.bytes : Poll (IoResult Bytes) → Bytes
  | .ready (.ok bytes) => bytes
  | _ => []

/-- The count a `poll_write` accepted. -/
def Poll.count : Poll (IoResult Nat) → Nat
  | .ready (.ok n) => n
  | _ => 0

namespace Handle

inductive Act
  | pollRead (remaining : Nat)
  | pollWrite (buf : Bytes) (room : Bool)
  | pollShutdown (room : Bool)
  | close (room : Bool)
  /-- The pending `send_async` of `close` is resolved. -/
  | closeResumed
  /-- The future of `close` is dropped at its await. -/
  | closeDropped
  | drop (room : Bool)
  /-- The pending `send_async` of `open_stream` is resolved. -/
  | synResumed
  | opened
  /-- The future of `open_stream` is dropped at its await. -/
  | openDropped (room : Bool)
  | acceptReturned
  deriving DecidableEq, Repr

def new (streamId : UInt32) (phase : Phase) : Handle where
  stream := .new streamId .unbounded
  phase
  sent := []
  accepted := []
  returned := []
  delivered := []

def id (self : Handle) : UInt32 := self.stream.streamId

/-- `data_tx.send_async`: an unbounded channel takes the chunk at once. -/
def deliver (self : Handle) (chunk : Bytes) : Handle :=
  { self with
    stream := { self.stream with dataRx := self.stream.dataRx.send chunk }
    delivered := self.delivered ++ chunk }

/-- The sender in the streams map is dropped. -/
def disconnect (self : Handle) : Handle :=
  { self with stream := { self.stream with dataRx := self.stream.dataRx.disconnect } }

def queue (self : Handle) (frames : List Frame) : Handle := { self with sent := self.sent ++ frames }

/-- The channel's answer: `open` says whether its receiver is still there. -/
def answer (channelOpen room : Bool) : TrySend :=
  if channelOpen then (if room then .sent else .full) else .disconnected

/-- The stream goes out of scope. -/
def dropStream (self : Handle) (trySend : TrySend) : Handle × List Frame :=
  let (stream, frames) := self.stream.drop trySend
  ({ self with stream, phase := .dropped }.queue frames, frames)

/-- One call on the stream, up to its end or its next await, with the frames
it puts in the channel. -/
def step (self : Handle) (config : Config) (state : SessionState) (channelOpen : Bool) :
    Act → Option (Handle × SessionState × List Frame)
  | .pollRead remaining =>
    if self.phase = .held then
      let (result, stream, state') := self.stream.pollRead state remaining
      some ({ self with stream, returned := self.returned ++ result.bytes }, state', [])
    else none
  | .pollWrite buf room =>
    if self.phase = .held then
      let (result, frames) := self.stream.pollWrite state config buf (answer channelOpen room)
      some ({ self with accepted := self.accepted ++ buf.take result.count }.queue frames, state,
        frames)
    else none
  | .pollShutdown room =>
    if self.phase = .held then
      let (_, stream, frames) := self.stream.pollShutdown (answer channelOpen room)
      some ({ self with stream }.queue frames, state, frames)
    else none
  | .close room =>
    if self.phase = .held then
      match self.stream.close, answer channelOpen room with
      | (stream, none), _ => some ({ self with stream }, state, [])
      | (stream, some finFrame), .sent =>
        some ({ self with stream }.queue [finFrame], state, [finFrame])
      | (stream, some _), .full => some ({ self with stream, phase := .closing }, state, [])
      | (stream, some _), .disconnected => some ({ self with stream }, state, [])
    else none
  | .closeResumed =>
    if self.phase = .closing then
      let frames := if channelOpen then [Frame.newFin 1 self.id] else []
      some ({ self with phase := .held }.queue frames, state, frames)
    else none
  | .closeDropped =>
    if self.phase = .closing then some ({ self with phase := .held }, state, []) else none
  | .drop room =>
    if self.phase = .held then
      let (handle, frames) := self.dropStream (answer channelOpen room)
      some (handle, state, frames)
    else none
  | .synResumed =>
    if self.phase = .registered then
      if channelOpen then
        let frames := [Frame.newSyn config.version self.id]
        some ({ self with phase := .synQueued }.queue frames, state, frames)
      else
        let (handle, frames) := self.dropStream .disconnected
        some (handle, state, frames)
    else none
  | .opened =>
    if self.phase = .synQueued then some ({ self with phase := .held }, state, []) else none
  | .openDropped room =>
    if self.phase = .registered ∨ self.phase = .synQueued then
      let (handle, frames) := self.dropStream (answer channelOpen room)
      some (handle, state, frames)
    else none
  | .acceptReturned =>
    if self.phase = .incoming then some ({ self with phase := .held }, state, []) else none

end Handle

end Smux
