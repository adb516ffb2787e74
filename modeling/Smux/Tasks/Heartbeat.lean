import Smux.Lib.Pacing
import Smux.Tasks.Silence

/-!
# Keep-alive keeps a session alive

Two sessions with one `Config` on one clock: the NOPs of the `pinging` one are
frames that the `listening` one receives, among any others. `validate` asks
for an interval below the timeout, and this is what it is for: where the rest
of the timeout covers what delays a NOP, `keep_alive_loop` does not close the
session of a peer that is there. `staysUp` is that, and by symmetry it is so
both ways.
-/

namespace Smux

open Runs Pacing

structure Heartbeat where
  pinging : Clocked
  listening : Clocked
  /-- When the NOPs were queued that have not arrived yet. -/
  underWay : List Nat

namespace Heartbeat

inductive Act
  | elapse (duration : Nat)
  | pinging (act : Tasks.Act)
  /-- Any step of the listening side, and any frame but a NOP under way. -/
  | listening (act : Tasks.Act)
  /-- The oldest NOP arrives. -/
  | arrive
  deriving DecidableEq, Repr

def start (config : Config) (isClient : Bool) : Heartbeat where
  pinging := .start config isClient
  listening := .start config !isClient
  underWay := []

def queues (self : Heartbeat) (act : Tasks.Act) : Bool :=
  act = .pinged ∧ self.pinging.tasks.session.channelOpen

def step (self : Heartbeat) : Act → Option Heartbeat
  | .elapse duration => do
    let pinging ← self.pinging.step (.elapse duration)
    let listening ← self.listening.step (.elapse duration)
    return { self with pinging, listening }
  | .pinging act => do
    let underWay := if self.queues act then self.underWay ++ [self.pinging.now] else self.underWay
    return { self with pinging := ← self.pinging.step (.task act), underWay }
  | .listening act => do return { self with listening := ← self.listening.step (.task act) }
  | .arrive =>
    match self.underWay with
    | [] => none
    | _ :: underWay => do
      let nop := Frame.newNop self.pinging.config.version
      return { self with listening := ← self.listening.step (.task (.recvFrame nop)), underWay }

/-- The NOP of a ping tick is queued no later than `late` after the tick is
due, and the other side does not listen before the first one is. -/
def isPunctual (late : Nat) (self : Heartbeat) : Bool :=
  match self.pinging.tasks.keepAliveLoop with
  | .spawned => self.listening.tasks.keepAliveLoop = .spawned
  | .selecting _ => self.pinging.now ≤ self.pinging.pingInterval.next + late
  | .awaiting =>
    self.pinging.now + self.pinging.config.keepAliveInterval ≤
      self.pinging.pingInterval.next + late
  | .ended => true

def isPrompt (delay : Nat) (self : Heartbeat) : Bool :=
  ∀ time ∈ self.underWay, self.pinging.now ≤ time + delay

/-- The timeout ticks of the listening side are on time. -/
def onTime (self : Heartbeat) : Act → Bool
  | .listening act => self.listening.onTime (.task act)
  | _ => true

/-- A frame came after `time`, or no timeout tick did. -/
def HeardSince (listening : Clocked) (time : Nat) : Prop :=
  (∃ later ∈ listening.received, time ≤ later) ∨ ∀ last ∈ listening.lastTick, time ≤ last

/-- From the last NOP to the next tick: an interval, or two where a tick has
been taken whose NOP is not queued yet. -/
def ahead (config : Config) (loop : LoopState) : Nat :=
  if loop = .awaiting then 2 * config.keepAliveInterval else config.keepAliveInterval

structure Beating (config : Config) (late : Nat) (heartbeat : Heartbeat) : Prop where
  pinging : heartbeat.pinging.config = config
  listening : heartbeat.listening.config = config
  clock : heartbeat.listening.now = heartbeat.pinging.now
  period : heartbeat.pinging.pingInterval.period = config.keepAliveInterval
  tracked : heartbeat.listening.Tracked
  quiet : heartbeat.listening.tasks.keepAliveLoop = .spawned → heartbeat.listening.lastTick = none
  past : ∀ time ∈ heartbeat.underWay, time ≤ heartbeat.pinging.now
  unsent : heartbeat.pinging.tasks.keepAliveLoop = .spawned → heartbeat.underWay = []
  next : heartbeat.pinging.tasks.keepAliveLoop.isRunning →
    heartbeat.pinging.pingInterval.next ≤ heartbeat.pinging.now + config.keepAliveInterval
  beats : heartbeat.pinging.tasks.keepAliveLoop.isRunning → ∃ heard ≤ heartbeat.pinging.now,
    HeardSince heartbeat.listening heard ∧
    Paced (config.keepAliveInterval + late) heard heartbeat.underWay ∧
    heartbeat.pinging.pingInterval.next ≤ latest heard heartbeat.underWay +
      ahead config heartbeat.pinging.tasks.keepAliveLoop

section
variable {config : Config} {isClient : Bool} {u v t : Heartbeat} {act : Act} {late delay time : Nat}
  {tr : List (Heartbeat × Act)}

theorem beating_start (config : Config) (isClient : Bool) (late : Nat) :
    (start config isClient).Beating config late where
  pinging := rfl
  listening := rfl
  clock := rfl
  period := rfl
  tracked := Clocked.tracked_start config !isClient
  quiet _ := rfl
  past := by rintro _ ⟨⟩
  unsent _ := rfl
  next := by rintro ⟨⟩
  beats := by rintro ⟨⟩

end

end Heartbeat

namespace Clocked

variable {u v : Clocked} {act : Act} {call : Tasks.Act} {time : Nat}

theorem step_now (hs : u.step (.task call) = some v) : v.now = u.now := by
  obtain ⟨-, tasks, -, rfl⟩ := step_task hs
  cases call <;> rfl

theorem step_quiet (h : u.tasks.keepAliveLoop = .spawned → u.lastTick = none)
    (hs : u.step act = some v) : v.tasks.keepAliveLoop = .spawned → v.lastTick = none := by
  cases act with
  | elapse duration => cases hs; exact h
  | task call =>
    obtain ⟨-, tasks, htasks, rfl⟩ := step_task hs
    intro hloop
    have hloop : tasks.keepAliveLoop = .spawned := hloop
    cases Tasks.step_ok htasks with
    | keepAliveStarted =>
      dsimp only at hloop
      split at hloop <;> cases hloop
    | pinged | timeoutTick =>
      dsimp only at hloop
      split at hloop <;> cases hloop
    | pingTick | keepAliveClosed => cases hloop
    | _ => exact h hloop

/-- Only three steps of `keep_alive_loop` have to do with its pings. -/
theorem step_beat (hs : u.step (.task call) = some v) (hstarted : call ≠ .keepAliveStarted)
    (htick : call ≠ .pingTick) (hpinged : call ≠ .pinged) :
    (v.tasks.keepAliveLoop = .spawned → u.tasks.keepAliveLoop = .spawned) ∧
      (v.tasks.keepAliveLoop.isRunning → u.tasks.keepAliveLoop.isRunning ∧
        (v.tasks.keepAliveLoop = .awaiting ↔ u.tasks.keepAliveLoop = .awaiting)) := by
  obtain ⟨-, tasks, htasks, rfl⟩ := step_task hs
  dsimp only
  cases Tasks.step_ok htasks with
  | keepAliveStarted => exact absurd rfl hstarted
  | pingTick => exact absurd rfl htick
  | pinged => exact absurd rfl hpinged
  | keepAliveClosed => exact ⟨by rintro ⟨⟩, by rintro ⟨⟩⟩
  | timeoutTick hsel =>
    have hrunning := LoopState.running_of_selecting hsel
    have hne : u.tasks.keepAliveLoop ≠ .awaiting := by
      intro he
      rw [he] at hsel
      cases hsel
    dsimp only
    split
    · exact ⟨by rintro ⟨⟩, by rintro ⟨⟩⟩
    · exact ⟨by rintro ⟨⟩, fun _ => ⟨hrunning, iff_of_false (by rintro ⟨⟩) hne⟩⟩
  | _ => exact ⟨id, fun hr => ⟨hr, Iff.rfl⟩⟩

end Clocked

namespace Heartbeat

section
variable {u v : Clocked} {act : Clocked.Act} {time : Nat}

theorem HeardSince.step (h : HeardSince u time) (hle : time ≤ u.now)
    (hs : u.step act = some v) : HeardSince v time := by
  cases act with
  | elapse duration => cases hs; exact h
  | task call =>
    obtain ⟨-, tasks, -, rfl⟩ := Clocked.step_task hs
    cases call with
    | recvFrame =>
      exact h.imp_left fun ⟨later, hm, hlater⟩ => ⟨later, List.mem_cons_of_mem _ hm, hlater⟩
    | timeoutTick =>
      refine h.imp_right fun _ last hlast => ?_
      obtain rfl := Option.some.inj hlast
      exact hle
    | _ => exact h

theorem heardSince_arrive (hle : time ≤ u.now)
    (hs : u.step (.task (.recvFrame frame)) = some v) : HeardSince v time := by
  obtain ⟨-, tasks, -, rfl⟩ := Clocked.step_task hs
  exact .inl ⟨u.now, List.mem_cons_self, hle⟩

end

section
variable {config : Config} {u v t : Heartbeat} {act : Act} {call : Tasks.Act} {late delay time : Nat}
  {tr : List (Heartbeat × Act)} {pinging listening : Clocked}

theorem Beating.elapse (h : u.Beating config late) (duration : Nat)
    (hs : u.step (.elapse duration) = some v) : v.Beating config late := by
  have hlistening : u.listening.step (.elapse duration) =
    some { u.listening with now := u.listening.now + duration } := rfl
  cases hs
  have hlater {time} (hle : time ≤ u.pinging.now) : time ≤ u.pinging.now + duration :=
    Nat.le_add_right_of_le hle
  exact {
    pinging := h.pinging
    listening := h.listening
    clock := congrArg (· + duration) h.clock
    period := h.period
    tracked := Clocked.tracked_step h.tracked hlistening
    quiet := h.quiet
    past := fun time ht => hlater (h.past time ht)
    unsent := h.unsent
    next := fun hr => Nat.le_trans (h.next hr) (Nat.add_le_add_right (Nat.le_add_right ..) _)
    beats := fun hr => by
      obtain ⟨heard, hle, hsince, hpaced, hnext⟩ := h.beats hr
      exact ⟨heard, hlater hle, hsince, hpaced, hnext⟩ }

theorem Beating.listens (h : u.Beating config late)
    (hs : u.listening.step (.task call) = some listening) :
    ({ u with listening } : Heartbeat).Beating config late where
  pinging := h.pinging
  listening := (Clocked.step_config hs).trans h.listening
  clock := (Clocked.step_now hs).trans h.clock
  period := h.period
  tracked := Clocked.tracked_step h.tracked hs
  quiet := Clocked.step_quiet h.quiet hs
  past := h.past
  unsent := h.unsent
  next := h.next
  beats hr := by
    obtain ⟨heard, hle, hsince, hpaced, hnext⟩ := h.beats hr
    exact ⟨heard, hle, hsince.step (h.clock ▸ hle) hs, hpaced, hnext⟩

/-- The NOP that arrives is the last one heard. -/
theorem Beating.arrive {underWay : List Nat} (h : u.Beating config late)
    (hqueue : u.underWay = time :: underWay)
    (hs : u.listening.step (.task (.recvFrame frame)) = some listening) :
    ({ u with listening, underWay } : Heartbeat).Beating config late := by
  have hlistens := h.listens hs
  have hpast := h.past
  rw [hqueue] at hpast
  exact { hlistens with
    past := fun time ht => hpast time (List.mem_cons_of_mem _ ht)
    unsent := fun hloop => by
      have hnil := h.unsent hloop
      rw [hqueue] at hnil
      cases hnil
    beats := fun hr => by
      obtain ⟨heard, -, -, hpaced, hnext⟩ := h.beats hr
      have hle : time ≤ u.pinging.now := hpast time List.mem_cons_self
      rw [hqueue] at hpaced hnext
      rw [latest_cons] at hnext
      exact ⟨time, hle, heardSince_arrive (h.clock ▸ hle) hs, hpaced.arrive, hnext⟩ }

theorem Beating.kept (h : u.Beating config late) (hconfig : pinging.config = u.pinging.config)
    (hnow : pinging.now = u.pinging.now) (hinterval : pinging.pingInterval = u.pinging.pingInterval)
    (hspawned : pinging.tasks.keepAliveLoop = .spawned → u.pinging.tasks.keepAliveLoop = .spawned)
    (hrunning : pinging.tasks.keepAliveLoop.isRunning → u.pinging.tasks.keepAliveLoop.isRunning ∧
      ahead config pinging.tasks.keepAliveLoop = ahead config u.pinging.tasks.keepAliveLoop) :
    ({ u with pinging } : Heartbeat).Beating config late where
  pinging := hconfig.trans h.pinging
  listening := h.listening
  clock := h.clock.trans hnow.symm
  period := by rw [hinterval]; exact h.period
  tracked := h.tracked
  quiet := h.quiet
  past time ht := by rw [hnow]; exact h.past time ht
  unsent hloop := h.unsent (hspawned hloop)
  next hr := by rw [hinterval, hnow]; exact h.next (hrunning hr).1
  beats hr := by
    obtain ⟨hr, hahead⟩ := hrunning hr
    rw [hnow, hinterval, hahead]
    exact h.beats hr

theorem Beating.started (h : u.Beating config late) (hpunctual : u.isPunctual late)
    (hs : u.pinging.step (.task .keepAliveStarted) = some pinging) :
    ({ u with pinging } : Heartbeat).Beating config late := by
  have hconfig := (Clocked.step_config hs).trans h.pinging
  obtain ⟨-, tasks, htasks, rfl⟩ := Clocked.step_task hs
  have hspawned : u.pinging.tasks.keepAliveLoop = .spawned := by
    cases Tasks.step_ok htasks with
    | keepAliveStarted hloop => exact hloop
  have hlast : u.listening.lastTick = none := by
    simp only [isPunctual, hspawned, decide_eq_true_eq] at hpunctual
    exact h.quiet hpunctual
  have hinterval : u.pinging.config.keepAliveInterval = config.keepAliveInterval :=
    congrArg Config.keepAliveInterval h.pinging
  exact {
    pinging := hconfig
    listening := h.listening
    clock := h.clock
    period := hinterval
    tracked := h.tracked
    quiet := h.quiet
    past := h.past
    unsent := fun _ => h.unsent hspawned
    next := fun _ => Nat.le_add_right ..
    beats := fun _ => by
      refine ⟨u.pinging.now, Nat.le_refl _, .inr ?_, ?_, ?_⟩
      · rw [hlast]
        rintro _ ⟨⟩
      · rw [h.unsent hspawned]
        exact paced_nil
      · rw [h.unsent hspawned]
        exact Nat.le_add_right .. }

theorem Beating.pingTick (h : u.Beating config late)
    (hs : u.pinging.step (.task .pingTick) = some pinging) :
    ({ u with pinging } : Heartbeat).Beating config late := by
  have hconfig := (Clocked.step_config hs).trans h.pinging
  obtain ⟨hdue, tasks, htasks, rfl⟩ := Clocked.step_task hs
  have hdue : u.pinging.pingInterval.next ≤ u.pinging.now := of_decide_eq_true hdue
  cases Tasks.step_ok htasks with
  | pingTick hsel =>
    have hrunning := LoopState.running_of_selecting hsel
    have hwaits : ahead config u.pinging.tasks.keepAliveLoop = config.keepAliveInterval := by
      rw [ahead, if_neg]
      intro he
      rw [he] at hsel
      cases hsel
    exact {
      pinging := hconfig
      listening := h.listening
      clock := h.clock
      period := h.period
      tracked := h.tracked
      quiet := h.quiet
      past := h.past
      unsent := by rintro ⟨⟩
      next := fun _ => by
        show u.pinging.pingInterval.next + u.pinging.pingInterval.period ≤ _
        rw [h.period]
        exact Nat.add_le_add_right hdue _
      beats := fun _ => by
        obtain ⟨heard, hle, hsince, hpaced, hnext⟩ := h.beats hrunning
        refine ⟨heard, hle, hsince, hpaced, ?_⟩
        show u.pinging.pingInterval.next + u.pinging.pingInterval.period ≤ _
        rw [hwaits] at hnext
        rw [h.period, ahead, if_pos rfl, Nat.two_mul, ← Nat.add_assoc]
        exact Nat.add_le_add_right hnext _ }

/-- The NOP is queued in time to follow the one before. -/
theorem Beating.pinged (h : u.Beating config late) (hpunctual : u.isPunctual late)
    (hs : u.pinging.step (.task .pinged) = some pinging) :
    ({ u with
      pinging
      underWay := if u.queues .pinged then u.underWay ++ [u.pinging.now] else u.underWay } :
      Heartbeat).Beating config late := by
  have hconfig := (Clocked.step_config hs).trans h.pinging
  obtain ⟨-, tasks, htasks, rfl⟩ := Clocked.step_task hs
  cases Tasks.step_ok htasks with
  | pinged hloop =>
    have hrunning : u.pinging.tasks.keepAliveLoop.isRunning := by rw [hloop]; rfl
    obtain ⟨heard, hle, hsince, hpaced, hnext⟩ := h.beats hrunning
    have hgap : u.pinging.now ≤ latest heard u.underWay + (config.keepAliveInterval + late) := by
      simp only [isPunctual, hloop, h.pinging, decide_eq_true_eq] at hpunctual
      rw [hloop, ahead, if_pos rfl] at hnext
      omega
    have hpast : ∀ time ∈ (if u.queues .pinged then u.underWay ++ [u.pinging.now] else u.underWay),
        time ≤ u.pinging.now := by
      intro time ht
      split at ht
      · rcases List.mem_append.mp ht with ht | ht
        · exact h.past time ht
        · exact Nat.le_of_eq (List.mem_singleton.mp ht)
      · exact h.past time ht
    refine {
      pinging := hconfig
      listening := h.listening
      clock := h.clock
      period := h.period
      tracked := h.tracked
      quiet := h.quiet
      past := hpast
      unsent := fun hloop => ?_
      next := fun _ => h.next hrunning
      beats := fun hr => ?_ }
    · dsimp only at hloop
      split at hloop <;> cases hloop
    · dsimp only at hr ⊢
      cases hopen : u.pinging.tasks.session.channelOpen with
      | false => simp [hopen, LoopState.isRunning] at hr
      | true =>
        have hqueues : u.queues .pinged := decide_eq_true ⟨rfl, hopen⟩
        rw [if_pos hqueues, if_pos rfl]
        refine ⟨heard, hle, hsince, hpaced.send hgap, ?_⟩
        rw [latest_snoc, ahead, if_neg (by rintro ⟨⟩)]
        exact h.next hrunning

theorem beating_step (h : u.Beating config late) (hpunctual : u.isPunctual late)
    (hs : u.step act = some v) : v.Beating config late := by
  cases act with
  | elapse duration => exact h.elapse duration hs
  | listening call =>
    obtain ⟨listening, hlistening, rfl⟩ := bind_return hs
    exact h.listens hlistening
  | arrive =>
    simp only [step] at hs
    split at hs
    · cases hs
    · obtain ⟨listening, hlistening, rfl⟩ := bind_return hs
      exact h.arrive ‹_› hlistening
  | pinging call =>
    obtain ⟨pinging, hpinging, rfl⟩ := bind_return hs
    by_cases hpinged : call = .pinged
    · subst hpinged
      exact h.pinged hpunctual hpinging
    have hqueues : ¬u.queues call := fun hq => hpinged (of_decide_eq_true hq).1
    rw [if_neg hqueues]
    by_cases hstarted : call = .keepAliveStarted
    · subst hstarted
      exact h.started hpunctual hpinging
    by_cases htick : call = .pingTick
    · subst htick
      exact h.pingTick hpinging
    obtain ⟨hspawned, hrunning⟩ := Clocked.step_beat hpinging hstarted htick hpinged
    refine h.kept (Clocked.step_config hpinging) (Clocked.step_now hpinging) ?_ hspawned
      fun hr => ?_
    · obtain ⟨-, tasks, -, rfl⟩ := Clocked.step_task hpinging
      cases call with
      | keepAliveStarted => exact absurd rfl hstarted
      | pingTick => exact absurd rfl htick
      | _ => rfl
    · obtain ⟨hr, hawaiting⟩ := hrunning hr
      exact ⟨hr, by simp only [ahead, hawaiting]⟩

/-- The peer has not been silent for a timeout. -/
theorem Beating.spares (h : u.Beating config late) (hpunctual : u.isPunctual late)
    (hprompt : u.isPrompt delay)
    (hroom : config.keepAliveInterval + late + delay < config.keepAliveTimeout)
    (hontime : u.onTime (.listening call)) (hout : u.listening.timesOut (.task call)) :
    u.pinging.tasks.keepAliveLoop.isRunning = false := by
  refine Bool.eq_false_iff.mpr fun hr => ?_
  obtain ⟨heard, -, hsince, hpaced, hnext⟩ := h.beats hr
  have hsilence := Clocked.findsSilence_of_timesOut hout
  obtain ⟨last, hlast, hbefore⟩ := h.tracked.silent (of_decide_eq_true hsilence).2.1
  have hgap : last + config.keepAliveTimeout ≤ u.pinging.now := by
    have hgap := of_decide_eq_true hontime hsilence last hlast
    rwa [h.listening, h.clock] at hgap
  have hheard : heard ≤ last := by
    rcases hsince with ⟨later, hm, hlater⟩ | hlasts
    · exact Nat.le_trans hlater (hbefore later hm)
    · exact hlasts last hlast
  have hdue : u.pinging.now ≤ latest heard u.underWay + (config.keepAliveInterval + late) := by
    unfold isPunctual at hpunctual
    cases hloop : u.pinging.tasks.keepAliveLoop with
    | selecting =>
      simp only [hloop, decide_eq_true_eq] at hpunctual
      rw [hloop, ahead, if_neg (by rintro ⟨⟩)] at hnext
      omega
    | awaiting =>
      simp only [hloop, h.pinging, decide_eq_true_eq] at hpunctual
      rw [hloop, ahead, if_pos rfl] at hnext
      omega
    | spawned | ended => rw [hloop] at hr; cases hr
  have hlately : u.pinging.now ≤ heard + (config.keepAliveInterval + late) + delay :=
    hpaced.heard_lately hdue (of_decide_eq_true hprompt)
  omega

end

section
variable {config : Config} {isClient : Bool} {u v t : Heartbeat} {act : Act} {late delay : Nat}
  {tr : List (Heartbeat × Act)}

theorem beating_run (hr : Run step (start config isClient) tr t)
    (hpunctual : ∀ p ∈ tr, p.1.isPunctual late) : ∀ u ∈ visited tr t, u.Beating config late :=
  hr.invariant hpunctual (beating_start config isClient late) beating_step

theorem step_pinging (hs : u.step act = some v) : v.pinging.tasks = u.pinging.tasks ∨
    ∃ call, u.pinging.tasks.step call = some v.pinging.tasks := by
  cases act with
  | elapse duration => cases hs; exact .inl rfl
  | listening call =>
    obtain ⟨_, -, rfl⟩ := bind_return hs
    exact .inl rfl
  | arrive =>
    simp only [step] at hs
    split at hs
    · cases hs
    · obtain ⟨_, -, rfl⟩ := bind_return hs
      exact .inl rfl
  | pinging call =>
    obtain ⟨pinging, hpinging, rfl⟩ := bind_return hs
    obtain ⟨-, tasks, htasks, rfl⟩ := Clocked.step_task hpinging
    exact .inr ⟨call, htasks⟩

theorem ending_pinging (hr : Run step (start config isClient) tr t) :
    ∀ u ∈ visited tr t, u.pinging.tasks.Ending := by
  refine hr.always (Tasks.ending_start config isClient) fun h hs => ?_
  rcases step_pinging hs with hsame | ⟨call, htasks⟩
  · rw [hsame]
    exact h
  · exact Tasks.ending_step h htasks

/-- Keep-alive closes a session only when the session of its peer is closed
already. -/
theorem staysUp (hr : Run step (start config isClient) tr t)
    (hroom : config.keepAliveInterval + late + delay < config.keepAliveTimeout)
    (hruns : config.runsKeepAlive)
    (hok : ∀ p ∈ tr, p.1.isPunctual late ∧ p.1.isPrompt delay ∧ p.1.onTime p.2) :
    ∀ u call, (u, .listening call) ∈ tr → u.listening.timesOut (.task call) →
      u.pinging.tasks.session.state.closed := by
  intro u call hm hout
  obtain ⟨hpunctual, hprompt, hontime⟩ := hok _ hm
  have hbeating := beating_run hr (fun p hp => (hok p hp).1) u (visited_of_mem hm)
  have hstopped := hbeating.spares hpunctual hprompt hroom hontime hout
  have hlistening : u.listening.tasks.keepAliveLoop ≠ .spawned := by
    intro hloop
    obtain ⟨last, hlast, -⟩ := hbeating.tracked.silent
      (of_decide_eq_true (Clocked.findsSilence_of_timesOut hout)).2.1
    rw [hbeating.quiet hloop] at hlast
    cases hlast
  cases hloop : u.pinging.tasks.keepAliveLoop with
  | spawned =>
    simp only [isPunctual, hloop, decide_eq_true_eq] at hpunctual
    exact absurd hpunctual hlistening
  | selecting | awaiting => rw [hloop] at hstopped; cases hstopped
  | ended =>
    rcases (ending_pinging hr u (visited_of_mem hm)).keepAliveLoop hloop with hc | hdisabled
    · exact hc
    · have hconfig : u.pinging.tasks.session.config = config := hbeating.pinging
      rw [hconfig, hruns] at hdisabled
      cases hdisabled

end

/-- An idle minute: the NOPs take 5 s to be queued and 10 s to arrive. -/
def idleMinute : List Act :=
  [.listening .recvStarted, .pinging .keepAliveStarted, .listening .keepAliveStarted,
    .pinging .pingTick, .listening .timeoutTick, .elapse (secs 5), .pinging .pinged,
    .elapse (secs 5), .pinging .pingTick, .elapse (secs 5), .arrive, .pinging .pinged,
    .elapse (secs 5), .pinging .pingTick, .elapse (secs 5), .arrive, .pinging .pinged,
    .elapse (secs 5), .pinging .pingTick, .listening .timeoutTick, .elapse (secs 5), .arrive,
    .pinging .pinged]

/-- The pinging session is closed, and a timeout and more later the other one
closes too. -/
def silentAfterClose : List Act :=
  idleMinute ++ [.pinging (.app .close), .pinging .keepAliveClosed, .elapse (secs 10), .arrive,
    .elapse (secs 15), .listening .timeoutTick, .elapse (secs 30), .listening .timeoutTick]

theorem staysUp_closed : ∃ tr t,
    exec step (start .default true) silentAfterClose = some (tr, t) ∧
    ∃ u call, (u, .listening call) ∈ tr ∧ u.listening.timesOut (.task call) ∧
      u.pinging.tasks.session.state.closed := by
  obtain ⟨tr, t, he, hr, hok, ⟨u, act⟩, hm, hout⟩ := exec_sat step (start .default true)
    silentAfterClose
    (fun tr _ => (∀ p ∈ tr, p.1.isPunctual (secs 9) ∧ p.1.isPrompt (secs 10) ∧ p.1.onTime p.2) ∧
      ∃ p ∈ tr, p.2 = .listening .timeoutTick ∧ p.1.listening.timesOut (.task .timeoutTick))
    (by decide +kernel)
  obtain ⟨rfl, hout⟩ := hout
  exact ⟨tr, t, he, u, .timeoutTick, hm, hout,
    staysUp hr (by decide) (by decide) hok u .timeoutTick hm hout⟩

end Heartbeat

end Smux
