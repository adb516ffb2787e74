import Smux.Handle.Laws
import Smux.Lib.Runs

/-!
# One stream of a session

`Alone` is a stream in the hands of the application with the rest of its
session as environment: `recv_loop` sends chunks on its data channel and
drops the sender when a FIN arrives, and the session may end. `call` is a
call of the application.
-/

namespace Smux

open Runs

structure Alone where
  handle : Handle
  state : SessionState
  channelOpen : Bool
  deriving DecidableEq, Repr

namespace Alone

inductive Act
  | call (act : Handle.Act)
  /-- `handle_psh_frame`, which drops an empty payload. -/
  | psh (chunk : Bytes)
  /-- `handle_fin_frame`. -/
  | fin
  | closeSession
  /-- `send_loop` ends: it closes the session and drops the receiver of the
  frame channel. -/
  | sendLoopEnded
  deriving DecidableEq, Repr

def start (config : Config) (streamId : UInt32) : Alone where
  handle := .new streamId .held
  state := .new config.maxReceiveBuffer
  channelOpen := true

def connected (self : Alone) : Bool := self.handle.stream.dataRx.connected

def step (config : Config) (self : Alone) : Act → Option Alone
  | .call act => do
    let (handle, state, _) ← self.handle.step config self.state self.channelOpen act
    return { self with handle, state }
  | .psh chunk =>
    if chunk ≠ [] ∧ self.connected ∧ self.handle.phase ≠ .dropped then
      some { self with handle := self.handle.deliver chunk }
    else none
  | .fin => if self.connected then some { self with handle := self.handle.disconnect } else none
  | .closeSession => some { self with state := self.state.close }
  | .sendLoopEnded => some { self with state := self.state.close, channelOpen := false }

def readResult (self : Alone) (remaining : Nat) : Poll (IoResult Bytes) :=
  (self.handle.stream.pollRead self.state remaining).1

/-- The session goes on: nothing closes it and `send_loop` keeps running. -/
def Act.keepsOpen : Act → Bool
  | .closeSession | .sendLoopEnded => false
  | _ => true

-- ---------------------------------------------------------------------------
-- Steps
-- ---------------------------------------------------------------------------

section
variable {config : Config} {streamId : UInt32} {u v t : Alone} {act : Act} {tr : List (Alone × Act)}

theorem step_cases (h : u.step config act = some v) :
    (∃ remaining result stream state, act = .call (.pollRead remaining) ∧
      u.handle.phase = .held ∧
      u.handle.stream.pollRead u.state remaining = (result, stream, state) ∧
      v = { u with handle := u.handle.read stream result.bytes, state }) ∨
    (∃ call phase isWriteClosed bytes frames, act = .call call ∧
      (∀ remaining, call ≠ .pollRead remaining) ∧
      Handle.Write u.handle config u.channelOpen call phase isWriteClosed bytes frames ∧
      v = { u with handle := u.handle.wrote phase isWriteClosed bytes frames }) ∨
    (∃ chunk, act = .psh chunk ∧ chunk ≠ [] ∧ u.connected ∧ u.handle.phase ≠ .dropped ∧
      v = { u with handle := u.handle.deliver chunk }) ∨
    (act = .fin ∧ u.connected ∧ v = { u with handle := u.handle.disconnect }) ∨
    (act.keepsOpen = false ∧ ∃ channelOpen, v = { u with state := u.state.close, channelOpen }) := by
  cases act with
  | call call =>
    obtain ⟨⟨handle, state, frames⟩, hs, rfl⟩ := bind_return h
    rcases Handle.step_ok hs with
      ⟨remaining, result, stream, rfl, hph, -, hr, rfl⟩ |
      ⟨hcall, rfl, phase, isWriteClosed, bytes, rfl, hw⟩
    · exact .inl ⟨remaining, result, stream, state, rfl, hph, hr, rfl⟩
    · exact .inr (.inl ⟨call, phase, isWriteClosed, bytes, frames, rfl, hcall, hw, rfl⟩)
  | psh chunk =>
    simp only [step] at h
    split at h <;> cases h
    rename_i hc
    exact .inr (.inr (.inl ⟨chunk, rfl, hc.1, hc.2.1, hc.2.2, rfl⟩))
  | fin =>
    simp only [step] at h
    split at h <;> cases h
    exact .inr (.inr (.inr (.inl ⟨rfl, ‹_›, rfl⟩)))
  | closeSession => cases h; exact .inr (.inr (.inr (.inr ⟨rfl, _, rfl⟩)))
  | sendLoopEnded => cases h; exact .inr (.inr (.inr (.inr ⟨rfl, _, rfl⟩)))

structure Open (alone : Alone) : Prop where
  state : alone.state.closed = false
  channel : alone.channelOpen = true

theorem open_start (config : Config) (streamId : UInt32) : (start config streamId).Open := ⟨rfl, rfl⟩

theorem open_step (h : u.Open) (hk : act.keepsOpen) (hs : u.step config act = some v) : v.Open := by
  rcases step_cases hs with ⟨remaining, result, stream, state, rfl, -, hr, rfl⟩ |
    ⟨_, _, _, _, _, rfl, -, -, rfl⟩ | ⟨_, rfl, -, -, -, rfl⟩ | ⟨rfl, -, rfl⟩ | ⟨hno, -⟩
  · exact ⟨(Stream.pollRead_frame hr).2.1.trans h.state, h.channel⟩
  · exact ⟨h.state, h.channel⟩
  · exact ⟨h.state, h.channel⟩
  · exact ⟨h.state, h.channel⟩
  · rw [hno] at hk; cases hk

theorem open_run (hr : Run (step config) (start config streamId) tr t)
    (hk : ∀ p ∈ tr, p.2.keepsOpen) : ∀ u ∈ visited tr t, u.Open :=
  hr.invariant hk (open_start config streamId) open_step

end

end Alone

end Smux
