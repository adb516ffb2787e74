import Smux.Session
import Smux.Codec

/-!
# Two sessions joined by a transport

Each end is a session with the two halves of its `Framed`: the bytes it has
written and the other end has not read yet, and the bytes it has read and not
decoded. The transport neither loses nor reorders bytes; where it cuts them
into reads is left open. A step is a step of one of the sessions, or one of
the three that move frames and bytes between them.
-/

namespace Smux

inductive Side
  | client
  | server
  deriving DecidableEq, Repr

namespace Side

def isClient : Side → Bool
  | .client => true
  | .server => false

def other : Side → Side
  | .client => .server
  | .server => .client

end Side

structure End where
  session : Session
  /-- Written by this end and not read by the other. -/
  wire : Bytes
  /-- Read by this end and not decoded. -/
  buf : Bytes

namespace End

def codec (self : End) : Codec := .new self.session.config

/-- `sink.send(frame)`: a frame that cannot be encoded ends `send_loop`. -/
def sendFrame (self : End) (frame : Frame) : Option End := do
  let session ← self.session.step .sendFrame
  match (self.codec.encode frame).run' self.wire with
  | (.ok (), wire) => return { self with session, wire }
  | (.error _, wire) => return { self with session := ← session.step .sendLoopEnded, wire }

/-- A frame goes to `handle_frame`; an error ends `recv_loop`. -/
def nextFrame (self : End) : Option End :=
  match self.codec.decode.run' self.buf with
  | (.ok none, _) => none
  | (.ok (some frame), buf) => do return { self with session := ← self.session.step (.recv frame), buf }
  | (.error _, buf) => do return { self with session := ← self.session.step .close, buf }

end End

/-- What each side has. -/
abbrev Link := Side → End

namespace Link

def new (config : Config) : Link := fun side =>
  { session := .new config side.isClient, wire := [], buf := [] }

def set (self : Link) (side : Side) (e : End) : Link := fun s => if s = side then e else self s

inductive Act
  /-- A step of a session by itself: any but those for which there is an
  action below. -/
  | session (side : Side) (act : Session.Act)
  /-- `send_loop` sends a frame. -/
  | send (side : Side)
  /-- The next `n` bytes arrive, or all if there are fewer. -/
  | read (side : Side) (n : Nat)
  /-- `recv_loop` polls the decoder, which does not ask for more bytes. -/
  | next (side : Side)
  deriving DecidableEq, Repr

def step (self : Link) : Act → Option Link
  | .session _ (.recv _) | .session _ .sendFrame => none
  | .session side act => do
    return self.set side { self side with session := ← (self side).session.step act }
  | .send side =>
    match (self side).session.frames with
    | [] => none
    | frame :: _ => do return self.set side (← (self side).sendFrame frame)
  | .read side n =>
    let sender := self side.other
    some ((self.set side { self side with buf := (self side).buf ++ sender.wire.take n }).set
      side.other { sender with wire := sender.wire.drop n })
  | .next side => do return self.set side (← (self side).nextFrame)

end Link

end Smux
