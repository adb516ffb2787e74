import Smux.Tasks

/-!
# Who owns a session

The tasks with the owners of `SessionInner`: the `Session` handles, and each
background task until it ends. For as long as it is owned the session has a
sender of the frame channel, and it keeps the streams that nobody accepted.
Every stream has a sender of its own.

`send_loop` ends when no sender is left, but it is an owner of the session
itself (`not_sendFailed`). So a session that nobody can reach is released
exactly if its tasks ended before (`dropReleases_iff`).
-/

namespace Smux

open Runs

structure Owned where
  tasks : Tasks
  /-- How many `Session` handles there are. -/
  sessions : Nat

/-- A stream that was opened or accepted, and is not dropped. -/
def Handle.isTaken (self : Handle) : Bool := self.phase ≠ .dropped ∧ self.phase ≠ .incoming

namespace Owned

inductive Act
  | task (act : Tasks.Act)
  /-- A `Session` handle is cloned, -/
  | clone
  /-- or goes out of scope. -/
  | drop
  deriving DecidableEq, Repr

/-- An owner of an `Arc<SessionInner>`. -/
inductive Owner
  | session
  | recvLoop
  | sendLoop
  | keepAliveLoop
  deriving DecidableEq, Repr

/-- An owner of a sender of the frame channel. -/
inductive Sender
  | inner
  | stream (streamId : UInt32)
  deriving DecidableEq, Repr

def start (config : Config) (isClient : Bool) : Owned where
  tasks := .start config isClient
  sessions := 1

def session (self : Owned) : Session := self.tasks.session

/-- A task gives up what it owns when it ends. -/
def taskOwner (owner : Owner) (loop : LoopState) : List Owner :=
  if loop = .ended then [] else [owner]

def innerOwners (self : Owned) : List Owner :=
  List.replicate self.sessions .session ++ (taskOwner .recvLoop self.tasks.recvLoop ++
    (taskOwner .sendLoop self.tasks.sendLoop ++ taskOwner .keepAliveLoop self.tasks.keepAliveLoop))

/-- A stream that nobody accepted is in `recv_loop` or in the accept queue, and
goes with the session. -/
def isAlive (self : Owned) (handle : Handle) : Bool :=
  handle.phase ≠ .dropped ∧ (handle.phase = .incoming → self.innerOwners ≠ [])

def frameSenders (self : Owned) : List Sender :=
  (if self.innerOwners = [] then [] else [.inner]) ++
    (self.session.handles.filter self.isAlive).map fun handle => .stream handle.id

/-- An `open_stream` that has not returned borrows its `Session` handle. -/
def isBorrowed (self : Owned) : Bool :=
  self.session.allocated ≠ [] ∨
    ∃ handle ∈ self.session.handles, handle.phase = .registered ∨ handle.phase = .synQueued

/-- A step that a `Session` handle is needed for. -/
def Act.needsSession : Act → Bool
  | .task (.app (.call _ _)) => false
  | .task (.app _) | .clone | .drop => true
  | _ => false

def step (self : Owned) (act : Act) : Option Owned :=
  if act.needsSession ∧ self.sessions = 0 then none
  else
    match act with
    | .clone => some { self with sessions := self.sessions + 1 }
    | .drop =>
      if self.sessions = 1 ∧ self.isBorrowed then none
      else some { self with sessions := self.sessions - 1 }
    | .task .sendFailed =>
      -- the receiver errs once it is empty and has no sender left
      if self.session.frames = [] ∧ self.frameSenders = [] then do
        return { self with tasks := ← self.tasks.step .sendFailed }
      else none
    | .task act => do return { self with tasks := ← self.tasks.step act }

/-- No `Session` handle is left, and no stream that was opened or accepted. -/
def isAbandoned (self : Owned) : Bool :=
  self.sessions = 0 ∧ ∀ handle ∈ self.session.handles, handle.isTaken = false

/-- The step leaves a session that nobody can reach. -/
def abandons (self : Owned) (act : Act) : Bool :=
  self.isAbandoned = false ∧ (self.step act).any isAbandoned

/-- No sender is left, and `send_loop`, if it is still there, is about to learn
of it. -/
structure Released (owned : Owned) : Prop where
  senders : owned.frameSenders = []
  receives : owned.tasks.sendLoop.isSelecting → owned.session.frames = [] →
    (owned.step (.task .sendFailed)).isSome

/-- Once nobody can reach it, the session is released. -/
def DropReleases (tr : List (Owned × Act)) (t : Owned) : Prop :=
  ∀ u ∈ visited tr t, u.isAbandoned → u.Released

section
variable {config : Config} {isClient : Bool} {u v t : Owned} {act : Act}
  {tr : List (Owned × Act)}

theorem taskOwner_eq_nil {owner : Owner} {loop : LoopState} :
    taskOwner owner loop = [] ↔ loop = .ended := by
  unfold taskOwner
  split <;> simp [*]

theorem innerOwners_eq_nil (u : Owned) :
    u.innerOwners = [] ↔ u.sessions = 0 ∧ u.tasks.isEnded := by
  simp [innerOwners, taskOwner_eq_nil, Tasks.isEnded, Tasks.loops]

theorem isAlive_of_nil (h : u.innerOwners = []) : u.isAlive = Handle.isTaken := by
  funext handle
  simp [isAlive, Handle.isTaken, h]

/-- The senders are gone when nobody can reach the session and its tasks have
ended. -/
theorem frameSenders_eq_nil (u : Owned) :
    u.frameSenders = [] ↔ u.isAbandoned ∧ u.tasks.isEnded := by
  have howners := u.innerOwners_eq_nil
  by_cases h : u.innerOwners = []
  · obtain ⟨hsessions, hended⟩ := howners.mp h
    simp [frameSenders, h, isAlive_of_nil h, isAbandoned, hsessions, hended]
  · constructor
    · intro hnil
      simp [frameSenders, h] at hnil
    · rintro ⟨habandoned, hended⟩
      exact absurd (howners.mpr ⟨(of_decide_eq_true habandoned).1, hended⟩) h

/-- `send_loop` never learns that the senders are gone: it keeps one itself. -/
theorem not_sendFailed (u : Owned) : u.step (.task .sendFailed) = none := by
  cases hs : u.step (.task .sendFailed) with
  | none => rfl
  | some v =>
    simp only [step, Act.needsSession, Bool.false_eq_true, false_and, if_false] at hs
    split at hs
    · rename_i hgone
      obtain ⟨-, hended⟩ := (frameSenders_eq_nil u).mp hgone.2
      have hloop : u.tasks.sendLoop = .ended := of_decide_eq_true hended _ (by simp [Tasks.loops])
      simp [Tasks.step, hloop, LoopState.isSelecting] at hs
    · cases hs

-- ---------------------------------------------------------------------------
-- Steps
-- ---------------------------------------------------------------------------

theorem step_tasks (hs : u.step act = some v) :
    v.tasks = u.tasks ∨ ∃ call, act = .task call ∧ u.tasks.step call = some v.tasks ∧
      v.sessions = u.sessions := by
  cases act with
  | clone | drop =>
    simp only [step] at hs
    repeat' split at hs
    all_goals cases hs
    exact .inl rfl
  | task call =>
    by_cases hcall : call = .sendFailed
    · rw [hcall, not_sendFailed] at hs
      cases hs
    · simp only [step] at hs
      split at hs
      · cases hs
      · obtain ⟨tasks, htasks, rfl⟩ := bind_return hs
        exact .inr ⟨call, rfl, htasks, rfl⟩

theorem isEnded_step (hs : u.step act = some v) (h : u.tasks.isEnded) : v.tasks.isEnded := by
  rcases step_tasks hs with htasks | ⟨call, -, htasks, -⟩
  · exact htasks ▸ h
  · exact Tasks.isEnded_step htasks h

/-- What the tasks do takes no stream out of the hands of the application. -/
theorem isAbandoned_of_step {call : Tasks.Act} (hcall : ∀ act, call ≠ .app act)
    (htasks : u.tasks.step call = some v.tasks) (hsessions : v.sessions = u.sessions)
    (h : v.isAbandoned) : u.isAbandoned := by
  obtain ⟨hzero, huntaken⟩ := of_decide_eq_true h
  refine decide_eq_true ⟨hsessions ▸ hzero, fun handle hm => ?_⟩
  rcases Tasks.step_session htasks with ⟨-, hsession⟩ | ⟨act, hact, hsession⟩
  · exact huntaken handle (hsession.symm ▸ hm : handle ∈ v.tasks.session.handles)
  · have hno : ∀ k made waiting, ¬Session.Calls u.tasks.session act k made waiting :=
      fun _ _ _ hcalls => hcall act (hact.eq_app hcalls)
    obtain ⟨handle', hm', hphase⟩ := Session.step_phase hsession hno hm
    have huntaken' := huntaken handle' hm'
    rwa [Handle.isTaken, hphase] at huntaken'

/-- The tasks have no part in a step that leaves a session nobody can reach. -/
theorem loops_of_abandons (hs : u.step act = some v) (h : u.abandons act) :
    v.tasks.loops = u.tasks.loops := by
  obtain ⟨hreached, hafter⟩ := of_decide_eq_true h
  rw [hs, Option.any_some] at hafter
  rcases step_tasks hs with htasks | ⟨call, -, htasks, hsessions⟩
  · rw [htasks]
  · cases call with
    | app call => exact (Tasks.step_app htasks).2
    | _ =>
      have hbefore := isAbandoned_of_step (by nofun) htasks hsessions hafter
      rw [hreached] at hbefore
      cases hbefore

-- ---------------------------------------------------------------------------
-- Runs
-- ---------------------------------------------------------------------------

theorem released_of_isEnded (h : u.isAbandoned) (hended : u.tasks.isEnded) : u.Released := by
  refine ⟨(frameSenders_eq_nil u).mpr ⟨h, hended⟩, fun hselecting => ?_⟩
  have hloop : u.tasks.sendLoop = .ended := of_decide_eq_true hended _ (by simp [Tasks.loops])
  rw [hloop] at hselecting
  cases hselecting

/-- What nobody can reach any more is released, along a run, exactly if the
tasks had ended before the last handle was dropped. -/
theorem dropReleases_iff (hr : Run step (start config isClient) tr t) :
    DropReleases tr t ↔ ∀ p ∈ tr, p.1.abandons p.2 → p.1.tasks.isEnded := by
  constructor
  · rintro h ⟨u, act⟩ hp habandons
    obtain ⟨v, hv, hs⟩ := hr.next_visited hp
    have hafter : v.isAbandoned := by
      have hafter := (of_decide_eq_true habandons).2
      rwa [hs, Option.any_some] at hafter
    obtain ⟨-, hended⟩ := (frameSenders_eq_nil v).mp (h v hv hafter).senders
    rwa [Tasks.isEnded, loops_of_abandons hs habandons] at hended
  · intro hok
    have hstart : (start config isClient).isAbandoned → (start config isClient).tasks.isEnded := by
      simp [isAbandoned, start]
    have hended : ∀ u ∈ visited tr t, u.isAbandoned → u.tasks.isEnded := by
      refine hr.invariant hok hstart ?_
      intro u act v hu hp hs hafter
      refine isEnded_step hs ?_
      cases hbefore : u.isAbandoned with
      | true => exact hu hbefore
      | false => exact hp (decide_eq_true ⟨hbefore, by rwa [hs, Option.any_some]⟩)
    exact fun u hu h => released_of_isEnded h (hended u hu h)

end

/-- The stream and then the session go out of scope, with all that they sent on
its way, and `send_loop` waits for itself. -/
def dropAll : List Act :=
  [.task .recvStarted, .task .sendStarted, .task .keepAliveStarted, .clone,
    .task (.app .openStream), .task (.app (.register 1)), .task (.app (.call 0 .synResumed)),
    .task (.app (.call 0 .opened)), .task .sendFrame, .task (.sent true), .drop,
    .task (.app (.call 0 (.drop true))), .task .sendFrame, .task (.sent true), .drop]

theorem not_dropReleases_dropAll : ∃ tr t,
    exec step (start .default true) dropAll = some (tr, t) ∧
      t.frameSenders = [.inner] ∧ ¬DropReleases tr t := by
  obtain ⟨tr, t, he, -, hsenders, habandoned⟩ := exec_sat step (start .default true) dropAll
    (fun _ t => t.frameSenders = [.inner] ∧ t.isAbandoned) (by decide +kernel)
  refine ⟨tr, t, he, hsenders, fun h => ?_⟩
  have hgone := (h t (last_visited ..) habandoned).senders
  rw [hsenders] at hgone
  cases hgone

/-- The session is dropped after keep-alive gave it up. -/
def dropAfterTimeout : List Act :=
  [.task .recvStarted, .task .sendStarted, .task .keepAliveStarted, .task .timeoutTick,
    .task .pingTick, .task .pinged, .task .sendFrame, .task (.sent true), .task .timeoutTick,
    .task .sendClosed, .task .recvClosed, .drop]

theorem dropReleases_dropAfterTimeout : ∃ tr t,
    exec step (start .default true) dropAfterTimeout = some (tr, t) ∧
      t.isAbandoned ∧ DropReleases tr t := by
  obtain ⟨tr, t, he, hr, habandoned, hok⟩ := exec_sat step (start .default true) dropAfterTimeout
    (fun tr t => t.isAbandoned ∧ ∀ p ∈ tr, p.1.abandons p.2 → p.1.tasks.isEnded)
    (by decide +kernel)
  exact ⟨tr, t, he, habandoned, (dropReleases_iff hr).mpr hok⟩

end Owned

end Smux
