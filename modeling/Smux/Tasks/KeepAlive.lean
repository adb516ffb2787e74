import Smux.Tasks

/-!
# Keep-alive on a clock

The tasks with a clock: `now` moves by itself, `recv_loop` gets frames at any
time, and the two intervals of `keep_alive_loop` have a tick to give from the
time it is due. A NOP that the frame channel has no room for may hold up the
loop for any length of time, and then the ticks it missed come one after
another. `sparesLive` says for which ticks a frame received within the
timeout saves the connection.
-/

namespace Smux

open Runs

/-- `tokio::time::interval`. The first tick is due at once, and the next one a
period after the last was due, whenever that was taken. -/
structure Interval where
  period : Nat
  next : Nat
  deriving DecidableEq, Repr

namespace Interval

def start (now period : Nat) : Interval where
  period
  next := now

def isDue (self : Interval) (now : Nat) : Bool := self.next ≤ now

def tick (self : Interval) : Interval := { self with next := self.next + self.period }

end Interval

structure Clocked where
  tasks : Tasks
  now : Nat
  pingInterval : Interval
  timeoutInterval : Interval
  /-- When `recv_loop` got its frames. -/
  received : List Nat
  /-- When `keep_alive_loop` took its last timeout tick. -/
  lastTick : Option Nat

namespace Clocked

inductive Act
  | elapse (duration : Nat)
  | task (act : Tasks.Act)
  deriving DecidableEq, Repr

def start (config : Config) (isClient : Bool) : Clocked where
  tasks := .start config isClient
  now := 0
  pingInterval := .start 0 config.keepAliveInterval
  timeoutInterval := .start 0 config.keepAliveTimeout
  received := []
  lastTick := none

def config (self : Clocked) : Config := self.tasks.session.config

def isDue (self : Clocked) : Tasks.Act → Bool
  | .pingTick => self.pingInterval.isDue self.now
  | .timeoutTick => self.timeoutInterval.isDue self.now
  | _ => true

/-- A step of the tasks, but for the tasks themselves. -/
def record (self : Clocked) : Tasks.Act → Clocked
  | .recvFrame _ => { self with received := self.now :: self.received }
  | .keepAliveStarted =>
    { self with
      pingInterval := .start self.now self.config.keepAliveInterval
      timeoutInterval := .start self.now self.config.keepAliveTimeout }
  | .pingTick => { self with pingInterval := self.pingInterval.tick }
  | .timeoutTick =>
    { self with timeoutInterval := self.timeoutInterval.tick, lastTick := some self.now }
  | _ => self

def step (self : Clocked) : Act → Option Clocked
  | .elapse duration => some { self with now := self.now + duration }
  | .task act =>
    if self.isDue act then do return { self.record act with tasks := ← self.tasks.step act }
    else none

/-- The step is a timeout tick on which `keep_alive_loop` closes the session,
which is the only way a timeout tick ends it. -/
def timesOut (self : Clocked) (act : Act) : Bool :=
  act = .task .timeoutTick ∧ (self.step act).any (·.tasks.keepAliveLoop = .ended)

/-- The step is a timeout tick that finds no data received since the last one,
and tokens left. -/
def findsSilence (self : Clocked) (act : Act) : Bool :=
  act = .task .timeoutTick ∧ self.tasks.session.state.dataReceived = false ∧
    0 < self.tasks.session.state.getTokens

/-- `keep_alive_loop` closes the session only if no frame was received during
the timeout before. -/
def SparesLive (tr : List (Clocked × Act)) : Prop :=
  ∀ u act, (u, act) ∈ tr → u.timesOut act →
    ∀ time ∈ u.received, time + u.config.keepAliveTimeout ≤ u.now

/-- A tick that finds silence comes a timeout or more after the tick before. -/
def onTime (self : Clocked) (act : Act) : Bool :=
  self.findsSilence act →
    ∀ last ∈ self.lastTick, last + self.config.keepAliveTimeout ≤ self.now

section
variable {config : Config} {isClient : Bool} {u v t : Clocked} {act : Act}
  {tr : List (Clocked × Act)}

/-- If no data was received since the last tick, all frames came before it. -/
structure Tracked (clocked : Clocked) : Prop where
  past : ∀ time ∈ clocked.received, time ≤ clocked.now
  silent : clocked.tasks.session.state.dataReceived = false →
    ∃ last ∈ clocked.lastTick, ∀ time ∈ clocked.received, time ≤ last

theorem tracked_start (config : Config) (isClient : Bool) : (start config isClient).Tracked :=
  ⟨nofun, nofun⟩

theorem step_task {call : Tasks.Act} (hs : u.step (.task call) = some v) : u.isDue call ∧
    ∃ tasks, u.tasks.step call = some tasks ∧ v = { u.record call with tasks } := by
  obtain ⟨hdue, hs⟩ := Option.ite_none_right_eq_some.mp hs
  obtain ⟨tasks, htasks, rfl⟩ := bind_return hs
  exact ⟨hdue, tasks, htasks, rfl⟩

theorem findsSilence_of_timesOut (h : u.timesOut act) : u.findsSilence act := by
  simp only [timesOut, decide_eq_true_eq] at h
  obtain ⟨rfl, hend⟩ := h
  obtain ⟨v, hv, hended⟩ := (Option.any_eq_true _ _).mp hend
  obtain ⟨-, tasks, htasks, rfl⟩ := step_task hv
  have hended : tasks.keepAliveLoop = .ended := of_decide_eq_true hended
  cases Tasks.step_ok htasks with
  | timeoutTick =>
    dsimp only at hended
    split at hended
    · rename_i htimedOut
      simpa [findsSilence] using htimedOut
    · cases hended

theorem tracked_step (h : u.Tracked) (hs : u.step act = some v) : v.Tracked := by
  cases act with
  | elapse duration =>
    cases hs
    exact ⟨fun time ht => Nat.le_add_right_of_le (h.past time ht), h.silent⟩
  | task act =>
    obtain ⟨-, tasks, htasks, rfl⟩ := step_task hs
    rcases Tasks.step_dataReceived htasks with ⟨frame, rfl, hset⟩ | rfl | ⟨hact, hkept⟩
    · refine ⟨fun time ht => ?_, fun hc => ?_⟩
      · rcases List.mem_cons.mp ht with rfl | ht
        · exact Nat.le_refl _
        · exact h.past time ht
      · rw [hset] at hc
        cases hc
    · exact ⟨h.past, fun _ => ⟨u.now, rfl, h.past⟩⟩
    · cases act with
      | recvFrame frame => exact absurd rfl (hact frame)
      | timeoutTick => exact ⟨h.past, fun _ => ⟨u.now, rfl, h.past⟩⟩
      | _ => exact ⟨h.past, fun hc => h.silent (hkept ▸ hc)⟩

/-- In a run whose timeout ticks are on time, no connection is closed that
received a frame within the timeout. -/
theorem sparesLive (hr : Run step (start config isClient) tr t)
    (hok : ∀ p ∈ tr, p.1.onTime p.2) : SparesLive tr := by
  intro u act hm hout time ht
  have htracked := hr.always (tracked_start config isClient) tracked_step u (visited_of_mem hm)
  have hsilence := findsSilence_of_timesOut hout
  have hflag : u.tasks.session.state.dataReceived = false := (of_decide_eq_true hsilence).2.1
  obtain ⟨last, hlast, hbefore⟩ := htracked.silent hflag
  have hgap := of_decide_eq_true (hok _ hm) hsilence last hlast
  calc time + u.config.keepAliveTimeout
      ≤ last + u.config.keepAliveTimeout := Nat.add_le_add_right (hbefore time ht) _
    _ ≤ u.now := hgap

end

/-- The loop waits from 10 s to 65 s to send a NOP. The two timeout ticks
missed by then come at once, and the second finds no data received since the
first, though a frame came at 50 s. -/
def blocked : List Act :=
  [.task .recvStarted, .task .keepAliveStarted, .task .timeoutTick, .task .pingTick, .task .pinged,
    .elapse (secs 10), .task .pingTick, .elapse (secs 40), .task (.recvFrame (.newNop 1)),
    .elapse (secs 15), .task .pinged, .task .timeoutTick, .task .timeoutTick]

theorem not_sparesLive_blocked : ∃ tr t, exec step (start .default true) blocked = some (tr, t) ∧
    ¬SparesLive tr := by
  obtain ⟨tr, t, he, -, u, hm, hout, time, ht, hlive⟩ := exec_sat step (start .default true) blocked
    (fun tr _ => ∃ p ∈ tr, p.1.timesOut p.2 ∧
      ∃ time ∈ p.1.received, ¬time + p.1.config.keepAliveTimeout ≤ p.1.now) (by decide +kernel)
  exact ⟨tr, t, he, fun h => hlive (h _ _ hm hout time ht)⟩

/-- A peer that falls silent after 10 s is given up at 60 s. -/
def silence : List Act :=
  [.task .recvStarted, .task .keepAliveStarted, .task .timeoutTick, .task .pingTick, .task .pinged,
    .elapse (secs 10), .task (.recvFrame (.newNop 1)), .task .pingTick, .task .pinged,
    .elapse (secs 10), .task .pingTick, .task .pinged, .elapse (secs 10), .task .timeoutTick,
    .task .pingTick, .task .pinged, .elapse (secs 10), .task .pingTick, .task .pinged,
    .elapse (secs 10), .task .pingTick, .task .pinged, .elapse (secs 10), .task .timeoutTick]

theorem sparesLive_silence : ∃ tr t, exec step (start .default true) silence = some (tr, t) ∧
    (∃ p ∈ tr, p.1.timesOut p.2) ∧ SparesLive tr := by
  obtain ⟨tr, t, he, hr, hout, hok⟩ := exec_sat step (start .default true) silence
    (fun tr _ => (∃ p ∈ tr, p.1.timesOut p.2) ∧ ∀ p ∈ tr, p.1.onTime p.2) (by decide +kernel)
  exact ⟨tr, t, he, hout, sparesLive hr hok⟩

end Clocked

end Smux
