import Smux.Lib.Refinement

/-!
# Pipes

What a stream is for, seen from outside: a pipe with a writing and a reading
end. What is read is what was written, in order; after it is finished, nothing
is written; and the reader is told of its end when it has read everything and
not before.
-/

namespace Smux

open Runs

/-- Nothing is read that was not written. -/
@[ext] structure Pipe (α : Type) where
  written : List α
  read : List α
  finished : Bool
  isPrefix : read <+: written

namespace Pipe

inductive Event (α : Type)
  | wrote (data : List α)
  | finished
  | read (data : List α)
  | eof
  deriving DecidableEq, Repr

namespace Event

@[simp] def written : Event α → List α
  | .wrote data => data
  | _ => []

@[simp] def taken : Event α → List α
  | .read data => data
  | _ => []

@[simp] def finishes : Event α → Bool
  | .finished => true
  | _ => false

end Event

def empty : Pipe α where
  written := []
  read := []
  finished := false
  isPrefix := List.prefix_rfl

/-- When an event can be seen. -/
def Allows (pipe : Pipe α) : Event α → Prop
  | .wrote _ | .finished => pipe.finished = false
  | .read data => data ≠ []
  | .eof => pipe.finished ∧ pipe.read = pipe.written

structure Step (pipe : Pipe α) (event : Event α) (pipe' : Pipe α) : Prop where
  allowed : pipe.Allows event
  written : pipe'.written = pipe.written ++ event.written
  read : pipe'.read = pipe.read ++ event.taken
  finished : pipe'.finished = (pipe.finished || event.finishes)

/-- What a sequence of events is, told without a pipe. -/
structure Reliable (events : List (Event α)) : Prop where
  data : ∀ before, before <+: events → before.flatMap Event.taken <+: before.flatMap Event.written
  wrote : ∀ before data after, events = before ++ .wrote data :: after → .finished ∉ before
  finished : ∀ before after, events = before ++ .finished :: after → .finished ∉ before
  eof : ∀ before after, events = before ++ .eof :: after →
    .finished ∈ before ∧ before.flatMap Event.taken = before.flatMap Event.written

section
variable {pipe : Pipe α} {events : List (Event α)}

/-- The state of a pipe is its events. -/
theorem trace_eq (h : Trace Step empty events pipe) :
    pipe.written = events.flatMap Event.written ∧ pipe.read = events.flatMap Event.taken ∧
      (pipe.finished ↔ .finished ∈ events) := by
  refine h.invariant (P := fun events pipe => pipe.written = events.flatMap Event.written ∧
    pipe.read = events.flatMap Event.taken ∧ (pipe.finished ↔ .finished ∈ events))
    ⟨rfl, rfl, by simp [empty]⟩ ?_
  rintro seen pipe event pipe' ⟨hwritten, hread, hfinished⟩ hs
  refine ⟨?_, ?_, ?_⟩
  · rw [hs.written, hwritten, List.flatMap_append, List.flatMap_singleton]
  · rw [hs.read, hread, List.flatMap_append, List.flatMap_singleton]
  · rw [hs.finished, Bool.or_eq_true, hfinished, List.mem_append, List.mem_singleton]
    refine or_congr_right ?_
    cases event <;> simp

theorem not_finished {before after : List (Event α)} {event : Event α} {pipe : Pipe α}
    (h : Trace Step empty (before ++ event :: after) pipe)
    (he : ∀ pipe : Pipe α, pipe.Allows event → pipe.finished = false) : .finished ∉ before := by
  obtain ⟨mid, next, hbefore, hs⟩ := h.split
  intro hm
  have hfin := (trace_eq hbefore).2.2.mpr hm
  rw [he mid hs.allowed] at hfin
  cases hfin

theorem reliable (h : Trace Step empty events pipe) : Reliable events where
  data before hb := by
    obtain ⟨after, rfl⟩ := hb
    have hbefore : ∃ pipe : Pipe α, Trace Step empty before pipe := by
      cases after with
      | nil => exact ⟨pipe, by simpa using h⟩
      | cons event after =>
        obtain ⟨mid, -, hmid, -⟩ := h.split
        exact ⟨mid, hmid⟩
    obtain ⟨mid, hmid⟩ := hbefore
    obtain ⟨hwritten, hread, -⟩ := trace_eq hmid
    rw [← hwritten, ← hread]
    exact mid.isPrefix
  wrote before data after he := by
    subst he
    exact not_finished h fun _ ha => ha
  finished before after he := by
    subst he
    exact not_finished h fun _ ha => ha
  eof before after he := by
    subst he
    obtain ⟨mid, next, hbefore, hs⟩ := h.split
    obtain ⟨hwritten, hread, hfinished⟩ := trace_eq hbefore
    obtain ⟨hfin, heq⟩ := hs.allowed
    exact ⟨hfinished.mp hfin, by rw [← hwritten, ← hread, heq]⟩

end

end Pipe

end Smux
