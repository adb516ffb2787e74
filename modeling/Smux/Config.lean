import Smux.Error

/-!
# Session configuration

Sizes are `usize` and durations `std::time::Duration` in the source; both are
natural numbers here, a duration in nanoseconds.
-/

namespace Smux

def secs (n : Nat) : Nat := n * 1000000000

structure Config where
  version : UInt8
  keepAliveInterval : Nat
  keepAliveTimeout : Nat
  maxFrameSize : Nat
  maxReceiveBuffer : Nat
  maxReceiveChannelBufferSize : Nat
  maxStreamBuffer : Nat
  enableKeepAlive : Bool
  deriving DecidableEq, Repr

namespace Config

def default : Config where
  version := 1
  keepAliveInterval := secs 10
  keepAliveTimeout := secs 30
  maxFrameSize := 32 * 1024
  maxReceiveBuffer := 4 * 1024 * 1024
  maxReceiveChannelBufferSize := 512
  maxStreamBuffer := 64 * 1024
  enableKeepAlive := true

def validate (self : Config) : Result Unit := do
  if self.version = 0 then
    throw (.config "Version cannot be 0")
  if self.enableKeepAlive ∧ self.keepAliveTimeout ≤ self.keepAliveInterval then
    throw (.config "Keep-alive timeout must be greater than keep-alive interval")
  if self.maxFrameSize = 0 then
    throw (.config "Max frame size cannot be 0")
  if self.maxFrameSize > 16 * 1024 * 1024 then
    throw (.config "Max frame size cannot exceed 16MB")
  if self.maxReceiveBuffer < self.maxFrameSize then
    throw (.config "Max receive buffer must be at least as large as max frame size")
  if self.maxStreamBuffer = 0 then
    throw (.config "Max stream buffer cannot be 0")
  return ()

/-- `keep_alive_loop` gets to its `select!`. A period of zero, which `validate`
lets pass, makes `tokio::time::interval` panic, and the task ends with that. -/
def runsKeepAlive (self : Config) : Bool :=
  self.enableKeepAlive ∧ self.keepAliveInterval ≠ 0 ∧ self.keepAliveTimeout ≠ 0

/-- What `validate` guarantees. -/
structure Valid (config : Config) : Prop where
  version : config.version ≠ 0
  keepAlive : config.enableKeepAlive → config.keepAliveInterval < config.keepAliveTimeout
  maxFrameSize_pos : 0 < config.maxFrameSize
  maxFrameSize_le : config.maxFrameSize ≤ 16 * 1024 * 1024
  maxFrameSize_le_buffer : config.maxFrameSize ≤ config.maxReceiveBuffer
  maxStreamBuffer_pos : 0 < config.maxStreamBuffer

theorem validate_ok {config : Config} : config.validate = .ok () ↔ config.Valid := by
  unfold validate
  constructor
  · intro h
    simp only [bind, Except.bind, pure, Except.pure, throw, throwThe, MonadExceptOf.throw] at h
    repeat' split at h
    all_goals cases h
    constructor <;> grind
  · rintro ⟨h1, h2, h3, h4, h5, h6⟩
    have hka : ¬(config.enableKeepAlive = true ∧
        config.keepAliveTimeout ≤ config.keepAliveInterval) := fun h =>
      absurd (h2 h.1) (Nat.not_lt.mpr h.2)
    simp [h1, hka, Nat.ne_of_gt h3, Nat.not_lt.mpr h4, Nat.not_lt.mpr h5, Nat.ne_of_gt h6,
      pure, Except.pure]

theorem validate_default : default.validate = .ok () := by decide

end Config

end Smux
