/-!
# A notifier whose waiters must already be waiting

`notifyWaiters` wakes exactly the waiters that exist when it is called: it
leaves no permit behind for a waiter created later. A notifier is the number
of such calls so far, and a waiter the number it saw when it was created.
-/

structure Notify where
  calls : Nat
  deriving DecidableEq, Repr

/-- A waiter, by the number of calls made before it was created. -/
structure Notified where
  since : Nat
  deriving DecidableEq, Repr

namespace Notify

def new : Notify := ⟨0⟩

def notifyWaiters (n : Notify) : Notify := ⟨n.calls + 1⟩

def notified (n : Notify) : Notified := ⟨n.calls⟩

/-- The waiter has a notification it has not taken yet. -/
def wakes (n : Notify) (w : Notified) : Bool := w.since < n.calls

@[simp] theorem wakes_notified (n : Notify) : n.wakes n.notified = false := by
  simp [wakes, notified]

end Notify
