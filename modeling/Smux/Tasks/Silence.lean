import Smux.Session.Ledger
import Smux.Tasks.KeepAlive
import Smux.Tasks.Shutdown

/-!
# A silent peer is given up

The other side of keep-alive: a session that is still open has heard from its
peer. Each timeout tick takes the flag down, and the tick that finds it down
closes the session, so no more than two timeouts go by after a frame, beyond
the time that the tick itself is late: `heardLately`. A tick that finds no
tokens left would close nothing, and there is none of those before the balance
can wrap: `neverSpares`.
-/

namespace Smux

open Runs

namespace LoopState

def isRunning : LoopState → Bool
  | .selecting _ | .awaiting => true
  | .spawned | .ended => false

theorem running_of_selecting {loop : LoopState} (h : loop.isSelecting) : loop.isRunning := by
  cases loop with
  | selecting => rfl
  | _ => cases h

end LoopState

theorem Session.keepAliveTimeout_dataReceived {u v : Session}
    (hs : u.step .keepAliveTimeout = some v) : v.state.dataReceived = false := by
  cases step_ok hs with
  | called hcall => cases hcall
  | psh hp => cases hp
  | keepAliveTimeout hstate =>
    rcases hstate with rfl | rfl
    · rfl
    · unfold SessionState.close
      split <;> rfl

theorem Tasks.step_running {u v : Tasks} (hs : u.step act = some v) (hne : act ≠ .keepAliveStarted)
    (h : v.keepAliveLoop.isRunning) : u.keepAliveLoop.isRunning := by
  cases step_ok hs with
  | keepAliveStarted => exact absurd rfl hne
  | pingTick hsel | timeoutTick hsel => exact LoopState.running_of_selecting hsel
  | pinged hloop => rw [hloop]; rfl
  | keepAliveClosed => cases h
  | _ => exact h

namespace Clocked

/-- A timeout tick that finds no data received since the last one, and closes
nothing for want of tokens. -/
def sparesSilent (self : Clocked) (act : Act) : Bool :=
  act = .task .timeoutTick ∧ self.tasks.session.state.dataReceived = false ∧
    self.tasks.session.state.getTokens ≤ 0

/-- When `recv_loop` got a frame, or `keep_alive_loop` began. -/
def SignOfLife (tr : List (Clocked × Act)) (self : Clocked) (time : Nat) : Prop :=
  time ∈ self.received ∨ ∃ u, (u, .task .keepAliveStarted) ∈ tr ∧ u.now = time

/-- The next timeout tick is due a timeout after a sign of life, or two when
a tick has passed since. -/
structure Attentive (tr : List (Clocked × Act)) (clocked : Clocked) : Prop where
  period : clocked.timeoutInterval.period = clocked.config.keepAliveTimeout
  next : clocked.tasks.keepAliveLoop.isRunning →
    clocked.timeoutInterval.next ≤ clocked.now + clocked.config.keepAliveTimeout
  heard : clocked.tasks.keepAliveLoop.isRunning → ∃ time, SignOfLife tr clocked time ∧
    clocked.timeoutInterval.next ≤ time +
      (if clocked.tasks.session.state.dataReceived then clocked.config.keepAliveTimeout
        else 2 * clocked.config.keepAliveTimeout)

section
variable {config : Config} {isClient : Bool} {u v t : Clocked} {act : Act} {call : Tasks.Act}
  {tr : List (Clocked × Act)} {time slack : Nat}

theorem attentive_start (config : Config) (isClient : Bool) :
    (start config isClient).Attentive [] :=
  ⟨rfl, by rintro ⟨⟩, by rintro ⟨⟩⟩

theorem SignOfLife.step (h : SignOfLife tr u time)
    (hreceived : ∀ time ∈ u.received, time ∈ v.received) : SignOfLife (tr ++ [(u, act)]) v time :=
  h.imp (hreceived time) fun ⟨w, hw, hnow⟩ => ⟨w, List.mem_append_left _ hw, hnow⟩

theorem Attentive.kept (h : u.Attentive tr) (hinterval : v.timeoutInterval = u.timeoutInterval)
    (hconfig : v.config = u.config) (hnow : u.now ≤ v.now) (hreceived : v.received = u.received)
    (hflag : v.tasks.session.state.dataReceived = u.tasks.session.state.dataReceived)
    (hrunning : v.tasks.keepAliveLoop.isRunning → u.tasks.keepAliveLoop.isRunning) :
    v.Attentive (tr ++ [(u, act)]) where
  period := by rw [hinterval, hconfig]; exact h.period
  next hr := by
    rw [hinterval, hconfig]
    exact Nat.le_trans (h.next (hrunning hr)) (Nat.add_le_add_right hnow _)
  heard hr := by
    obtain ⟨time, hlife, hle⟩ := h.heard (hrunning hr)
    rw [hinterval, hconfig, hflag]
    exact ⟨time, hlife.step fun _ ht => hreceived ▸ ht, hle⟩

/-- The loop goes on after a tick only when it has found the flag up. -/
theorem Attentive.tick {tasks : Tasks} (h : u.Attentive tr)
    (hok : u.sparesSilent (.task .timeoutTick) = false)
    (hdue : u.timeoutInterval.isDue u.now) (hs : u.tasks.step .timeoutTick = some tasks) :
    ({ u.record .timeoutTick with tasks } : Clocked).Attentive
      (tr ++ [(u, .task .timeoutTick)]) := by
  have hconfig : tasks.session.config = u.config := Tasks.step_config hs
  have hperiod : u.timeoutInterval.period = tasks.session.config.keepAliveTimeout :=
    hconfig ▸ h.period
  have hdue : u.timeoutInterval.next ≤ u.now := of_decide_eq_true hdue
  refine ⟨hperiod, fun _ => ?_, fun hr => ?_⟩
  · calc u.timeoutInterval.next + u.timeoutInterval.period
        ≤ u.now + u.timeoutInterval.period := Nat.add_le_add_right hdue _
      _ = u.now + tasks.session.config.keepAliveTimeout := by rw [hperiod]
  · have hflag : u.tasks.session.state.dataReceived = true := by
      cases Tasks.step_ok hs with
      | timeoutTick =>
        cases hf : u.tasks.session.state.dataReceived with
        | true => rfl
        | false =>
          have htokens : 0 < u.tasks.session.state.getTokens := by
            simpa [sparesSilent, hf] using hok
          simp [hf, htokens, LoopState.isRunning] at hr
    obtain ⟨time, hlife, hle⟩ := h.heard (Tasks.step_running hs (by rintro ⟨⟩) hr)
    rw [hflag, if_pos rfl, ← hconfig] at hle
    have hdown : tasks.session.state.dataReceived = false := by
      cases Tasks.step_ok hs with
      | timeoutTick _ hsession => exact Session.keepAliveTimeout_dataReceived hsession
    refine ⟨time, hlife.step fun _ ht => ht, ?_⟩
    simp only [hdown, Bool.false_eq_true, if_false]
    calc u.timeoutInterval.next + u.timeoutInterval.period
        ≤ time + tasks.session.config.keepAliveTimeout + u.timeoutInterval.period :=
          Nat.add_le_add_right hle _
      _ = time + 2 * tasks.session.config.keepAliveTimeout := by
          rw [hperiod, Nat.two_mul, Nat.add_assoc]

theorem attentive_step (h : u.Attentive tr) (hok : u.sparesSilent act = false)
    (hs : u.step act = some v) : v.Attentive (tr ++ [(u, act)]) := by
  cases act with
  | elapse duration =>
    cases hs
    exact h.kept rfl rfl (Nat.le_add_right _ _) rfl rfl id
  | task call =>
    obtain ⟨hdue, tasks, htasks, rfl⟩ := step_task hs
    have hconfig : tasks.session.config = u.config := Tasks.step_config htasks
    by_cases htick : call = .timeoutTick
    · subst htick
      exact h.tick hok hdue htasks
    by_cases hstarted : call = .keepAliveStarted
    · subst hstarted
      have hperiod : u.config.keepAliveTimeout = tasks.session.config.keepAliveTimeout :=
        by rw [hconfig]
      exact ⟨hperiod, fun _ => Nat.le_add_right _ _,
        fun _ => ⟨u.now, .inr ⟨u, by simp, rfl⟩, Nat.le_add_right _ _⟩⟩
    have hrunning := Tasks.step_running htasks hstarted
    rcases Tasks.step_dataReceived htasks with ⟨frame, rfl, hset⟩ | rfl | ⟨hact, hkept⟩
    · have hperiod : u.timeoutInterval.period = tasks.session.config.keepAliveTimeout :=
        hconfig ▸ h.period
      have hnext : tasks.keepAliveLoop.isRunning →
          u.timeoutInterval.next ≤ u.now + tasks.session.config.keepAliveTimeout :=
        fun hr => hconfig ▸ h.next (hrunning hr)
      refine ⟨hperiod, hnext, fun hr => ⟨u.now, .inl (List.mem_cons_self ..), ?_⟩⟩
      simp only [hset, if_true]
      exact hnext hr
    · exact absurd rfl htick
    · have hconfig : ({ u.record call with tasks } : Clocked).config = u.config := hconfig
      cases call with
      | recvFrame frame => exact absurd rfl (hact frame)
      | timeoutTick => exact absurd rfl htick
      | keepAliveStarted => exact absurd rfl hstarted
      | _ => exact h.kept rfl hconfig (Nat.le_refl _) rfl hkept hrunning

theorem attentive_run (hr : Run step (start config isClient) tr t)
    (hok : ∀ p ∈ tr, p.1.sparesSilent p.2 = false) : t.Attentive tr := by
  induction hr with
  | nil => exact attentive_start config isClient
  | @snoc tr t act v _ hs ih =>
    exact attentive_step (ih fun p hp => hok p (List.mem_append_left _ hp))
      (hok (t, act) (by simp)) hs

theorem step_config (hs : u.step act = some v) : v.config = u.config := by
  cases act with
  | elapse duration => cases hs; rfl
  | task call =>
    obtain ⟨-, tasks, htasks, rfl⟩ := step_task hs
    exact Tasks.step_config htasks

theorem config_run (hr : Run step (start config isClient) tr t) : t.config = config := by
  induction hr with
  | nil => rfl
  | snoc _ hs ih => exact (step_config hs).trans ih

theorem ending_tasks (hr : Run step (start config isClient) tr t) : t.tasks.Ending := by
  induction hr with
  | nil => exact Tasks.ending_start config isClient
  | @snoc tr t act v _ hs ih =>
    cases act with
    | elapse duration => cases hs; exact ih
    | task call =>
      obtain ⟨-, tasks, htasks, rfl⟩ := step_task hs
      exact Tasks.ending_step ih htasks

theorem heardLately_of_ticks (hr : Run step (start config isClient) tr t)
    (hok : ∀ p ∈ tr, p.1.sparesSilent p.2 = false)
    (hruns : t.config.runsKeepAlive) (hstarted : t.tasks.keepAliveLoop ≠ .spawned)
    (hopen : t.tasks.session.state.closed = false) (hslack : t.now ≤ t.timeoutInterval.next + slack) :
    ∃ time, SignOfLife tr t time ∧ t.now ≤ time + 2 * t.config.keepAliveTimeout + slack := by
  have hrunning : t.tasks.keepAliveLoop.isRunning := by
    cases hloop : t.tasks.keepAliveLoop with
    | spawned => exact absurd hloop hstarted
    | selecting | awaiting => rfl
    | ended =>
      rcases (ending_tasks hr).keepAliveLoop hloop with hc | hdisabled
      · rw [hopen] at hc
        cases hc
      · exact absurd hruns (Bool.eq_false_iff.mp hdisabled)
  obtain ⟨time, hlife, hle⟩ := (attentive_run hr hok).heard hrunning
  refine ⟨time, hlife, ?_⟩
  have hdue : t.timeoutInterval.next ≤ time + 2 * t.config.keepAliveTimeout := by
    split at hle
    · omega
    · exact hle
  exact Nat.le_trans hslack (Nat.add_le_add_right hdue _)

theorem step_sessions (hs : u.step act = some v) : v.tasks.session = u.tasks.session ∨
    ∃ call, u.tasks.session.step call = some v.tasks.session := by
  cases act with
  | elapse duration => cases hs; exact .inl rfl
  | task call =>
    obtain ⟨-, tasks, htasks, rfl⟩ := step_task hs
    exact (Tasks.step_session htasks).imp And.right fun ⟨call, _, hsession⟩ => ⟨call, hsession⟩

theorem session_run (hr : Run step (start config isClient) tr t) :
    ∃ tr', Run Session.step (.new config isClient) tr' t.tasks.session := by
  induction hr with
  | nil => exact ⟨[], .nil⟩
  | snoc _ hs ih =>
    obtain ⟨tr', hr'⟩ := ih
    rcases step_sessions hs with hsame | ⟨call, hsession⟩
    · exact ⟨tr', hsame ▸ hr'⟩
    · exact ⟨_, hr'.snoc hsession⟩

/-- No tick finds the tokens used up. -/
theorem neverSpares (hv : config.validate = .ok ()) (hr : Run step (start config isClient) tr t)
    (hsmall : config.maxReceiveBuffer + Session.payloadBytes t.tasks.session.handled < 2 ^ 63) :
    ∀ p ∈ tr, p.1.sparesSilent p.2 = false := by
  induction hr with
  | nil => rintro _ ⟨⟩
  | @snoc tr u act v hr hs ih =>
    have hle : Session.payloadBytes u.tasks.session.handled ≤
        Session.payloadBytes v.tasks.session.handled := by
      rcases step_sessions hs with hsame | ⟨call, hsession⟩
      · rw [hsame]
      · exact Session.payloadBytes_mono (Session.step_handled hsession)
    have hsmall : config.maxReceiveBuffer + Session.payloadBytes u.tasks.session.handled < 2 ^ 63 :=
      Nat.lt_of_le_of_lt (Nat.add_le_add_left hle _) hsmall
    intro p hp
    rcases List.mem_append.mp hp with hp | hp
    · exact ih hsmall p hp
    · obtain ⟨tr', hr'⟩ := session_run hr
      have htokens := (Session.ledger_run hv hr' hsmall).tokens_ge
      have hpos := Session.maxReceiveBuffer_pos hv
      have hleft : ¬u.tasks.session.state.getTokens ≤ 0 := by
        unfold SessionState.getTokens
        omega
      rw [List.mem_singleton.mp hp]
      simp [sparesSilent, hleft]

/-- No silent peer is spared. A session that is open when its
`keep_alive_loop` has begun has a sign of life from two timeouts ago or later,
where its timeout tick is late by no more than `slack`. -/
theorem heardLately (hv : config.validate = .ok ()) (hruns : config.runsKeepAlive)
    (hr : Run step (start config isClient) tr t)
    (hsmall : config.maxReceiveBuffer + Session.payloadBytes t.tasks.session.handled < 2 ^ 63) :
    (∀ p ∈ tr, p.1.sparesSilent p.2 = false) ∧
      ∀ slack, t.tasks.keepAliveLoop ≠ .spawned → t.tasks.session.state.closed = false →
        t.now ≤ t.timeoutInterval.next + slack →
        ∃ time, SignOfLife tr t time ∧ t.now ≤ time + 2 * config.keepAliveTimeout + slack := by
  have hspares := neverSpares hv hr hsmall
  refine ⟨hspares, fun slack hstarted hopen hslack => ?_⟩
  have hconfig := config_run hr
  rw [← hconfig] at hruns ⊢
  exact heardLately_of_ticks hr hspares hruns hstarted hopen hslack

end

/-- The peer falls silent after 10 s, and at 60 s, before the tick that closes
the session, its last frame is not two timeouts old. -/
theorem heardLately_silence : ∃ tr t,
    exec step (start .default true) silence.dropLast = some (tr, t) ∧ t.now = secs 60 ∧
    ∃ time, SignOfLife tr t time ∧ t.now ≤ time + 2 * secs 30 := by
  obtain ⟨tr, t, he, hr, hnow, hsmall, hstarted, hopen, hslack⟩ := exec_sat step
    (start .default true) silence.dropLast
    (fun tr t => t.now = secs 60 ∧
      Config.default.maxReceiveBuffer + Session.payloadBytes t.tasks.session.handled < 2 ^ 63 ∧
      t.tasks.keepAliveLoop ≠ .spawned ∧ t.tasks.session.state.closed = false ∧
      t.now ≤ t.timeoutInterval.next + 0)
    (by decide +kernel)
  have hheard := (heardLately (by decide) (by decide) hr hsmall).2 0 hstarted hopen hslack
  exact ⟨tr, t, he, hnow, hheard⟩

end Clocked

end Smux
