import Smux.Command
import Smux.Config

namespace Smux

abbrev Bytes := List UInt8

/-- `HEADER_SIZE`: version, command, length and stream id. -/
def headerSize : Nat := 8

structure Frame where
  version : UInt8
  cmd : Command
  streamId : UInt32
  data : Bytes
  deriving DecidableEq, Repr

namespace Frame

def new (version : UInt8) (cmd : Command) (streamId : UInt32) (data : Bytes) : Frame :=
  { version, cmd, streamId, data }

def newSyn (version : UInt8) (streamId : UInt32) : Frame := new version .syn streamId []

def newFin (version : UInt8) (streamId : UInt32) : Frame := new version .fin streamId []

def newPsh (version : UInt8) (streamId : UInt32) (data : Bytes) : Frame :=
  new version .psh streamId data

def newNop (version : UInt8) : Frame := new version .nop 0 []

def totalSize (self : Frame) : Nat := headerSize + self.data.length

def validateStreamId (self : Frame) : Result Unit :=
  match self.cmd with
  | .nop => if self.streamId ≠ 0 then .error (.invalidStreamId self.streamId) else .ok ()
  | _ => if self.streamId = 0 then .error (.invalidStreamId self.streamId) else .ok ()

def validate (self : Frame) (config : Config) : Result Unit := do
  if self.version = 0 then
    throw (.invalidProtocol self.version)
  if self.cmd.requiresV2 ∧ self.version < 2 then
    throw (.protocolViolation "UPD command requires protocol version 2")
  if self.totalSize > config.maxFrameSize then
    throw (.frameTooLarge self.totalSize config.maxFrameSize)
  if self.cmd.isControl ∧ ¬self.data.isEmpty then
    throw (.protocolViolation "Control frames cannot carry data")
  self.validateStreamId

/-- What `validate` guarantees. -/
structure Valid (config : Config) (frame : Frame) : Prop where
  version : frame.version ≠ 0
  upd_version : frame.cmd.requiresV2 → 2 ≤ frame.version
  size : headerSize + frame.data.length ≤ config.maxFrameSize
  control : frame.cmd.isControl → frame.data = []
  streamId : frame.streamId = 0 ↔ frame.cmd = .nop

theorem validateStreamId_ok {frame : Frame} :
    frame.validateStreamId = .ok () ↔ (frame.streamId = 0 ↔ frame.cmd = .nop) := by
  unfold validateStreamId
  cases frame.cmd <;> simp

theorem validate_ok {config : Config} {frame : Frame} :
    frame.validate config = .ok () ↔ frame.Valid config := by
  unfold validate totalSize
  constructor
  · intro h
    simp only [bind, Except.bind, throw, throwThe, MonadExceptOf.throw] at h
    repeat' split at h
    all_goals first | cases h | skip
    rw [validateStreamId_ok] at h
    constructor <;> grind
  · rintro ⟨h1, h2, h3, h4, h5⟩
    have hv2 : ¬(frame.cmd.requiresV2 = true ∧ frame.version < 2) := fun h =>
      absurd (h2 h.1) (UInt8.not_le.mpr h.2)
    have hc : ¬(frame.cmd.isControl = true ∧ ¬frame.data.isEmpty = true) := fun h =>
      h.2 (by simp [h4 h.1])
    simp only [h1, hv2, Nat.not_lt.mpr h3, hc, if_false]
    exact validateStreamId_ok.mpr h5

end Frame

end Smux
