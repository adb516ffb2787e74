import Smux.Frame
import Smux.SessionState
import Smux.Lib.Channel

/-!
# Streams

The poll functions of `Stream`, as functions of the stream, the session state
it shares and, where a frame is sent, the frame channel's answer. Each gives
its result, the stream and the state it leaves, and the frames it puts in the
channel. A read buffer is its remaining capacity, and a read's result is the
bytes it puts there.
-/

namespace Smux

inductive Poll (α : Type)
  | ready (result : α)
  | pending
  deriving DecidableEq, Repr

abbrev IoResult := Except IoError

structure Stream where
  streamId : UInt32
  dataRx : Channel Bytes
  currentChunk : Option Bytes
  isReadClosed : Bool
  isWriteClosed : Bool
  deriving DecidableEq, Repr

def sessionIsClosed : IoError := { kind := .brokenPipe, message := "Session is closed" }

def streamIsClosedForWriting : IoError :=
  { kind := .brokenPipe, message := "Stream is closed for writing" }

namespace Stream

def new (streamId : UInt32) (dataRx : Channel Bytes) : Stream where
  streamId
  dataRx
  currentChunk := none
  isReadClosed := false
  isWriteClosed := false

def isClosed (self : Stream) : Bool := self.isReadClosed && self.isWriteClosed

/-- The part of `poll_read` that takes a fresh chunk off the data channel. -/
def pollChannel (this : Stream) (sessionState : SessionState) (remaining : Nat) :
    Poll (IoResult Bytes) × Stream × SessionState :=
  match this.dataRx.tryRecv with
  | (.ok chunk, dataRx) =>
    let toCopy := min chunk.length remaining
    if toCopy > 0 then
      let rest := chunk.drop toCopy
      (.ready (.ok (chunk.take toCopy)),
        { this with dataRx, currentChunk := if rest.isEmpty then this.currentChunk else some rest },
        sessionState.returnTokens toCopy)
    else (.ready (.ok []), { this with dataRx, currentChunk := some chunk }, sessionState)
  | (.error .disconnected, _) => (.ready (.ok []), this, sessionState)
  | (.error .empty, _) =>
    if this.isReadClosed then (.ready (.ok []), this, sessionState)
    else (.pending, this, sessionState)

def pollRead (this : Stream) (sessionState : SessionState) (remaining : Nat) :
    Poll (IoResult Bytes) × Stream × SessionState :=
  if this.isReadClosed then (.ready (.ok []), this, sessionState)
  else if sessionState.isClosed then (.ready (.error sessionIsClosed), this, sessionState)
  else
    match this.currentChunk with
    | some chunk =>
      let toCopy := min chunk.length remaining
      if toCopy > 0 then
        let rest := chunk.drop toCopy
        (.ready (.ok (chunk.take toCopy)),
          { this with currentChunk := if rest.isEmpty then none else some rest },
          sessionState.returnTokens toCopy)
      else this.pollChannel sessionState remaining
    | none => this.pollChannel sessionState remaining

def pollWrite (this : Stream) (sessionState : SessionState) (config : Config) (buf : Bytes)
    (trySend : TrySend) : Poll (IoResult Nat) × List Frame :=
  if sessionState.isClosed then (.ready (.error sessionIsClosed), [])
  else if this.isWriteClosed then (.ready (.error streamIsClosedForWriting), [])
  else if buf.isEmpty then (.ready (.ok 0), [])
  else
    let maxPayloadSize := config.maxFrameSize - headerSize
    let chunkSize := min buf.length maxPayloadSize
    let pshFrame := Frame.newPsh 1 this.streamId (buf.take chunkSize)
    match trySend with
    | .sent => (.ready (.ok chunkSize), [pshFrame])
    | .full => (.pending, [])
    | .disconnected => (.ready (.error sessionIsClosed), [])

def pollFlush : Poll (IoResult Unit) := .ready (.ok ())

def pollShutdown (this : Stream) (trySend : TrySend) : Poll (IoResult Unit) × Stream × List Frame :=
  if this.isWriteClosed then (.ready (.ok ()), this, [])
  else
    let finFrame := Frame.newFin 1 this.streamId
    match trySend with
    | .sent => (.ready (.ok ()), { this with isWriteClosed := true }, [finFrame])
    | .full => (.pending, this, [])
    | .disconnected => (.ready (.ok ()), { this with isWriteClosed := true }, [])

/-- `close` up to its `send_async(..).await`: the frame it goes on to send,
if it sends one. The flag is set before the send. -/
def close (this : Stream) : Stream × Option Frame :=
  if this.isWriteClosed then (this, none)
  else ({ this with isWriteClosed := true }, some (Frame.newFin 1 this.streamId))

/-- `Drop for Stream`: whatever the channel answers is ignored. -/
def drop (this : Stream) (trySend : TrySend) : Stream × List Frame :=
  if this.isWriteClosed then (this, [])
  else
    ({ this with isWriteClosed := true },
      match trySend with
      | .sent => [Frame.newFin 1 this.streamId]
      | .full | .disconnected => [])

/-- The bytes delivered to the stream and not returned by `poll_read` yet. -/
def unread (self : Stream) : Bytes := self.currentChunk.getD [] ++ self.dataRx.queue.flatten

end Stream

end Smux
