import Mathlib.Algebra.Ring.Nat
import Smux.Config
import Smux.Lib.Notify

/-!
# The state a session shares with its streams

The token balance is an `AtomicI64`: a count is cast from `usize` and the
atomic operations wrap. `i64` is that wrapping.
-/

namespace Smux

def i64 (n : Int) : Int := n.bmod (2 ^ 64)

structure SessionState where
  die : Notify
  closed : Bool
  tokens : Int
  tokensReturned : Notify
  dataReceived : Bool
  deriving DecidableEq, Repr

namespace SessionState

def new (bufferSize : Nat) : SessionState where
  die := .new
  closed := false
  tokens := i64 bufferSize
  tokensReturned := .new
  dataReceived := true

def isClosed (self : SessionState) : Bool := self.closed

def close (self : SessionState) : SessionState :=
  if self.closed then self else { self with closed := true, die := self.die.notifyWaiters }

def returnTokens (self : SessionState) (count : Nat) : SessionState :=
  { self with
    tokens := i64 (self.tokens + i64 count), tokensReturned := self.tokensReturned.notifyWaiters }

def getTokens (self : SessionState) : Int := self.tokens

def takeTokens (self : SessionState) (count : Nat) : SessionState :=
  { self with tokens := i64 (self.tokens - i64 count) }

def markDataReceived (self : SessionState) : SessionState := { self with dataReceived := true }

/-- The previous value of the flag, and the state with the flag reset. -/
def checkAndResetDataReceived (self : SessionState) : Bool × SessionState :=
  (self.dataReceived, { self with dataReceived := false })

@[simp] theorem close_closed (self : SessionState) : self.close.closed = true := by
  unfold close; split <;> simp_all

@[simp] theorem close_tokens (self : SessionState) : self.close.tokens = self.tokens := by
  unfold close; split <;> rfl

theorem close_die (self : SessionState) :
    self.close.die = if self.closed then self.die else self.die.notifyWaiters := by
  unfold close; split <;> rfl

end SessionState

end Smux
