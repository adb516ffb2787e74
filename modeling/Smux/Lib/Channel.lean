/-!
# An unbounded channel with one receiver

What the receiving half of a `flume` channel sees: the messages not taken
yet, in the order they were sent, and whether a sender is left. Messages sent
before the last sender went are still received. A bounded channel shows up
only through the answers its `try_send` gives.
-/

structure Channel (α : Type) where
  queue : List α
  connected : Bool
  deriving DecidableEq, Repr

inductive TryRecvError
  | empty | disconnected
  deriving DecidableEq, Repr

inductive TrySend
  | sent | full | disconnected
  deriving DecidableEq, Repr

namespace Channel

def unbounded : Channel α := { queue := [], connected := true }

def send (self : Channel α) (message : α) : Channel α :=
  { self with queue := self.queue ++ [message] }

def disconnect (self : Channel α) : Channel α := { self with connected := false }

def tryRecv (self : Channel α) : Except TryRecvError α × Channel α :=
  match self.queue with
  | message :: queue => (.ok message, { self with queue })
  | [] => (.error (if self.connected then .empty else .disconnected), self)

end Channel
