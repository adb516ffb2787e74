import Smux.Session.Closed
import Smux.Tasks

/-!
# How a session goes down

A loop that ends takes the session with it, except a `keep_alive_loop` that
never gets to its `select!`: `ending_run`. A close is told to the loops that are in their
`select!` when it is made, and to no other, ever: `toldByFirstClose`. And
`recv_loop` is told nothing while it holds a stream that the accept queue has
no room for: until `accept_stream` is called, no frame is handled and no
stream gets a byte, whatever else happens: `heldUp_run`.
-/

namespace Smux.Tasks

open Runs

inductive Loop
  | recv
  | send
  | keepAlive
  deriving DecidableEq, Repr

def loop (self : Tasks) : Loop → LoopState
  | .recv => self.recvLoop
  | .send => self.sendLoop
  | .keepAlive => self.keepAliveLoop

/-- The step is the close arm of a loop's `select!`. -/
def Act.toldClose : Act → Option Loop
  | .recvClosed => some .recv
  | .sendClosed => some .send
  | .keepAliveClosed => some .keepAlive
  | _ => none

structure Ending (tasks : Tasks) : Prop where
  recvLoop : tasks.recvLoop = .ended → tasks.session.state.closed
  sendLoop : tasks.sendLoop = .ended → tasks.session.state.closed
  /-- `send_loop` owns the receiver of the frame channel. -/
  channel : tasks.session.channelOpen = false ↔ tasks.sendLoop = .ended
  keepAliveLoop : tasks.keepAliveLoop = .ended →
    tasks.session.state.closed ∨ tasks.session.config.runsKeepAlive = false
  handling : tasks.session.handling.isSome ↔ tasks.recvLoop = .awaiting
  notified : 0 < tasks.session.state.die.calls → tasks.session.state.closed

end Smux.Tasks

namespace Smux.Session

section
variable {u v : Session} {act : Act} {call : Act}

/-- Only frames, and what goes on with them, change what is being handled. -/
theorem step_handling (hs : u.step act = some v) : v.handling = u.handling ∨
    (∃ frame, act = .recv frame) ∨ act = .accepted ∨ act = .tokensReturned ∨
      act = .sessionClosing := by
  cases step_ok hs with
  | ignored | syn | fin => exact .inr (.inl ⟨_, rfl⟩)
  | psh hp =>
    cases hp with
    | first => exact .inr (.inl ⟨_, rfl⟩)
    | again => exact .inr (.inr (.inr (.inl rfl)))
  | accepted => exact .inr (.inr (.inl rfl))
  | sessionClosing => exact .inr (.inr (.inr (.inr rfl)))
  | _ => exact .inl rfl

end

end Smux.Session

namespace Smux.Tasks

open Runs

section
variable {config : Config} {isClient : Bool} {u v w t : Tasks} {act : Act}
  {tr : List (Tasks × Act)}

theorem ending_start (config : Config) (isClient : Bool) : (start config isClient).Ending := by
  constructor <;> simp [start, Session.new, SessionState.new, Notify.new]

theorem step_config (hs : u.step act = some v) : v.session.config = u.session.config := by
  rcases step_session hs with ⟨-, hsame⟩ | ⟨_, -, hsession⟩
  · rw [hsame]
  · exact Session.step_config hsession

theorem closed_step (hs : u.step act = some v) (hc : u.session.state.closed) :
    v.session.state.closed := (step_loops hs).state.closed hc

theorem notified_step (h : u.Ending) (hs : u.step act = some v) :
    0 < v.session.state.die.calls → v.session.state.closed := by
  rcases (step_loops hs).state.die with ⟨hd, hc⟩ | ⟨-, hc⟩
  · rw [hd, hc]
    exact h.notified
  · exact fun _ => hc

theorem recvEnded_step (h : u.Ending) (hs : u.step act = some v) :
    v.recvLoop = .ended → v.session.state.closed := by
  have hkept : v.recvLoop = u.recvLoop → v.recvLoop = .ended → v.session.state.closed :=
    fun he hend => closed_step hs (h.recvLoop (he ▸ hend))
  cases step_ok hs with
  | recvStarted => rintro ⟨⟩
  | recvFrame | recvResumed =>
    intro hend
    dsimp only [afterHandling] at hend
    split at hend <;> cases hend
  | recvFailed _ hclose | recvClosed _ hclose =>
    cases hclose
    exact fun _ => SessionState.close_closed _
  | _ => exact hkept rfl

/-- A step of the session but the end of `send_loop` leaves the channel. -/
theorem channelOpen_step (hs : u.step act = some v) (hact : act.isSend = false) :
    v.session.channelOpen = u.session.channelOpen := by
  rcases step_session hs with ⟨-, hsame⟩ | ⟨call, hcall, hsession⟩
  · rw [hsame]
  · rcases Session.step_channelOpen hsession with ho | rfl
    · exact ho
    · exact absurd rfl (hcall.not_send hact).2

theorem sendEnded_step (h : u.Ending) (hs : u.step act = some v) :
    (v.sendLoop = .ended → v.session.state.closed) ∧
      (v.session.channelOpen = false ↔ v.sendLoop = .ended) := by
  have hopen : u.sendLoop ≠ .ended → u.session.channelOpen = true := fun hne =>
    Bool.not_eq_false _ ▸ fun hc => hne (h.channel.mp hc)
  cases hact : act.isSend with
  | false =>
    rw [step_sendLoop hs hact, channelOpen_step hs hact]
    exact ⟨fun hend => closed_step hs (h.sendLoop hend), h.channel⟩
  | true =>
    cases step_ok hs with
    | sendStarted hloop | sent hloop =>
      have := hopen (by rw [hloop]; rintro ⟨⟩)
      simp [turn, this]
    | sendFrame hsel hpop =>
      obtain ⟨_, _, -, ho, rfl⟩ := Session.sendFrame_ok hpop
      simp [ho]
    | sendError _ hend | sendFailed _ hend | sendClosed _ hend =>
      cases hend
      exact ⟨fun _ => SessionState.close_closed _, iff_of_true rfl rfl⟩
    | _ => cases hact

theorem keepAliveTimeout_closes {s s' : Session} (hs : s.step .keepAliveTimeout = some s')
    (hout : (!s.state.dataReceived && s.state.getTokens > 0) = true) : s'.state.closed := by
  have hs : some { s with
      state := if !s.state.dataReceived && s.state.getTokens > 0 then
          s.state.checkAndResetDataReceived.2.close
        else s.state.checkAndResetDataReceived.2 } = some s' := hs
  rw [if_pos hout] at hs
  cases hs
  exact SessionState.close_closed _

theorem keepAliveEnded_step (h : u.Ending) (hs : u.step act = some v) :
    v.keepAliveLoop = .ended →
      v.session.state.closed ∨ v.session.config.runsKeepAlive = false := by
  have hkept : v.keepAliveLoop = u.keepAliveLoop → v.keepAliveLoop = .ended →
      v.session.state.closed ∨ v.session.config.runsKeepAlive = false := by
    intro he hend
    rw [step_config hs]
    exact (h.keepAliveLoop (he ▸ hend)).imp_left (closed_step hs)
  cases step_ok hs with
  | keepAliveStarted =>
    intro hend
    dsimp only at hend
    split at hend
    · cases hend
    · exact .inr (Bool.eq_false_iff.mpr ‹_›)
  | pingTick => rintro ⟨⟩
  | pinged =>
    intro hend
    dsimp only at hend
    split at hend
    · cases hend
    · rename_i hc
      exact .inl (closed_step hs (h.sendLoop (h.channel.mp (Bool.eq_false_iff.mpr hc))))
  | timeoutTick _ htick =>
    intro hend
    dsimp only at hend
    split at hend
    · rename_i hout
      exact .inl (keepAliveTimeout_closes htick hout)
    · cases hend
  | keepAliveClosed hwakes =>
    refine fun _ => .inl (h.notified ?_)
    cases hloop : u.keepAliveLoop with
    | selecting w =>
      rw [hloop] at hwakes
      exact Nat.lt_of_le_of_lt (Nat.zero_le _) (of_decide_eq_true hwakes)
    | _ => rw [hloop] at hwakes; cases hwakes
  | _ => exact hkept rfl

theorem afterHandling_awaiting (s : Session) :
    s.handling.isSome ↔ afterHandling s = .awaiting := by
  unfold afterHandling turn
  cases s.handling <;> simp

theorem handling_step (h : u.Ending) (hs : u.step act = some v) :
    v.session.handling.isSome ↔ v.recvLoop = .awaiting := by
  have hidle : u.recvLoop ≠ .awaiting → u.session.handling = none := fun hne =>
    Option.not_isSome_iff_eq_none.mp fun hsome => hne (h.handling.mp hsome)
  cases step_ok hs with
  | recvStarted hloop =>
    rw [hidle (by rw [hloop]; rintro ⟨⟩)]
    simp [turn]
  | recvFrame | recvResumed => exact afterHandling_awaiting _
  | recvFailed hloop hclose =>
    cases hclose
    rw [hidle (by rintro he; rw [he] at hloop; cases hloop)]
    simp
  | recvClosed hloop hclose =>
    cases hclose
    rw [hidle (by rintro he; rw [he] at hloop; cases hloop)]
    simp
  | app hlocal hsession =>
    rcases Session.step_handling hsession with he | ⟨_, rfl⟩ | rfl | rfl | rfl
    · rw [he]; exact h.handling
    all_goals cases hlocal
  | sendFrame _ hsession | sendError _ hsession | sendFailed _ hsession | sendClosed _ hsession
  | pinged _ hsession | timeoutTick _ hsession =>
    rcases Session.step_handling hsession with he | ⟨_, he⟩ | he | he | he
    · rw [he]; exact h.handling
    all_goals cases he
  | sendStarted | sent | keepAliveStarted | pingTick | keepAliveClosed => exact h.handling

theorem ending_step (h : u.Ending) (hs : u.step act = some v) : v.Ending where
  recvLoop := recvEnded_step h hs
  sendLoop := (sendEnded_step h hs).1
  channel := (sendEnded_step h hs).2
  keepAliveLoop := keepAliveEnded_step h hs
  handling := handling_step h hs
  notified := notified_step h hs

theorem ending_run (hr : Run step (start config isClient) tr t) : ∀ u ∈ visited tr t, u.Ending :=
  hr.always (ending_start config isClient) ending_step

theorem loop_mem (u : Tasks) (l : Loop) : u.loop l ∈ u.loops := by
  cases l <;> simp [loop, loops]

theorem loop_step (hs : u.step act = some v) (l : Loop) :
    v.loop l = u.loop l ∨ (v.loop l).isSelecting = false ∨ v.loop l = turn v.session := by
  cases step_ok hs with
  | app => exact .inl rfl
  | recvFrame | recvResumed =>
    cases l with
    | recv => exact .inr (afterHandling_cases _)
    | _ => exact .inl rfl
  | recvStarted =>
    cases l with
    | recv => exact .inr (.inr rfl)
    | _ => exact .inl rfl
  | recvFailed | recvClosed =>
    cases l with
    | recv => exact .inr (.inl rfl)
    | _ => exact .inl rfl
  | sendStarted | sent =>
    cases l with
    | send => exact .inr (.inr rfl)
    | _ => exact .inl rfl
  | sendFrame | sendError | sendFailed | sendClosed =>
    cases l with
    | send => exact .inr (.inl rfl)
    | _ => exact .inl rfl
  | keepAliveStarted | pinged | timeoutTick =>
    cases l with
    | keepAlive =>
      refine .inr ?_
      dsimp only [loop]
      split
      · first | exact .inr rfl | exact .inl rfl
      · first | exact .inl rfl | exact .inr rfl
    | _ => exact .inl rfl
  | pingTick | keepAliveClosed =>
    cases l with
    | keepAlive => exact .inr (.inl rfl)
    | _ => exact .inl rfl

theorem turn_wakes (s : Session) : (turn s).wakes s = false := Notify.wakes_notified _

theorem isSelecting_of_wakes {loop : LoopState} {s : Session} (h : loop.wakes s) :
    loop.isSelecting := by
  cases loop with
  | selecting => rfl
  | _ => cases h

theorem wakes_of_toldClose {l : Loop} (hs : u.step act = some v) (h : act.toldClose = some l) :
    (u.loop l).wakes u.session := by
  cases step_ok hs with
  | recvClosed hwakes | sendClosed hwakes | keepAliveClosed hwakes => cases h; exact hwakes
  | _ => cases h

/-- No loop of a closed session is notified any more. -/
theorem wakes_step {l : Loop} (hc : u.session.state.closed) (hs : u.step act = some v)
    (hv : (v.loop l).wakes v.session) : (u.loop l).wakes u.session := by
  have hdie : v.session.state.die = u.session.state.die := by
    rcases (step_loops hs).state.die with ⟨hd, -⟩ | ⟨hd, -⟩
    · exact hd
    · rw [hd, SessionState.close_die, if_pos hc]
  rcases loop_step hs l with hl | hn | hl
  · rw [hl] at hv
    unfold LoopState.wakes at hv ⊢
    rwa [hdie] at hv
  · rw [isSelecting_of_wakes hv] at hn
    cases hn
  · rw [hl, turn_wakes] at hv
    cases hv

theorem wakes_run {l : Loop} (hc : u.session.state.closed) (hr : Run step u tr t) :
    t.session.state.closed ∧ ((t.loop l).wakes t.session → (u.loop l).wakes u.session) := by
  induction hr with
  | nil => exact ⟨hc, id⟩
  | snoc _ hs ih => exact ⟨closed_step hs ih.1, fun hw => ih.2 (wakes_step ih.1 hs hw)⟩

theorem open_before (hr : Run step u tr t) (ho : t.session.state.closed = false) :
    ∀ p ∈ tr, p.1.session.state.closed = false := by
  induction hr with
  | nil => rintro _ ⟨⟩
  | @snoc tr t act v _ hs ih =>
    have ht : t.session.state.closed = false :=
      Bool.eq_false_iff.mpr fun hc => Bool.eq_false_iff.mp ho (closed_step hs hc)
    intro p hp
    rcases List.mem_append.mp hp with hp | hp
    · exact ih ht p hp
    · rw [List.mem_singleton.mp hp]
      exact ht

/-- The step that closes a session tells all loops that are in their
`select!`, and a loop that is not then is never told. -/
theorem toldByFirstClose (hr : Run step (start config isClient) tr u)
    (ho : u.session.state.closed = false) (hs : u.step act = some v)
    (hc : v.session.state.closed) (hr' : Run step v tr' t) :
    (∀ l, (v.loop l).isSelecting → (v.loop l).wakes v.session) ∧
      ∀ w told l, (w, told) ∈ tr' → told.toldClose = some l →
        (v.loop l).isSelecting ∧ v.loop l = u.loop l := by
  constructor
  · intro l hsel
    have hawake : u.Awake := hr.invariant (open_before hr ho) (awake_start config isClient)
      (fun h ho hs => awake_step h (fun _ => ho) hs) u (last_visited ..)
    have hawake := awake_step hawake (fun _ => ho) hs
    cases hl : v.loop l with
    | selecting w => exact hawake.wakes hc w (hl ▸ v.loop_mem l)
    | _ => rw [hl] at hsel; cases hsel
  · intro w told l hm htold
    obtain ⟨tr₁, tr₂, rfl⟩ := List.append_of_mem hm
    obtain ⟨hr₁, _, hs', -⟩ := hr'.split
    have hwakes := (wakes_run hc hr₁).2 (wakes_of_toldClose hs' htold)
    have hsel := isSelecting_of_wakes hwakes
    refine ⟨hsel, (loop_step hs l).resolve_right ?_⟩
    rintro (hn | hl)
    · rw [hsel] at hn
      cases hn
    · rw [hl, turn_wakes] at hwakes
      cases hwakes

end

/-- `send_loop` ends on a write error while `keep_alive_loop` sends a NOP:
the NOP is refused, and `recv_loop` is told. -/
theorem ending_run_refused : ∃ tr t,
    exec step (start .default true) [.recvStarted, .sendStarted, .keepAliveStarted, .pingTick,
      .pinged, .pingTick, .sendFrame, .sent false, .pinged, .recvClosed] = some (tr, t) ∧
    t.isEnded ∧ ∀ u ∈ visited tr t, u.Ending := by
  obtain ⟨tr, t, he, hr, hended⟩ := exec_sat step (start .default true)
    [.recvStarted, .sendStarted, .keepAliveStarted, .pingTick, .pinged, .pingTick, .sendFrame,
      .sent false, .pinged, .recvClosed] (fun _ t => t.isEnded) (by decide)
  exact ⟨tr, t, he, hended, ending_run hr⟩

/-- The close comes while `send_loop` writes a frame: that loop is not told,
and waits in its `select!` when the other two have ended. -/
theorem toldByFirstClose_sending : ∃ tr u v tr' t,
    exec step (start .default true) [.recvStarted, .sendStarted, .keepAliveStarted, .pingTick,
      .pinged, .sendFrame] = some (tr, u) ∧
    u.step (.app .close) = some v ∧
    exec step v [.recvClosed, .sent true, .keepAliveClosed] = some (tr', t) ∧
    t.sendLoop.isSelecting ∧ ∀ w told l, (w, told) ∈ tr' → told.toldClose = some l →
      (v.loop l).isSelecting ∧ v.loop l = u.loop l := by
  obtain ⟨tr, u, he, hr, ho, hmore⟩ := exec_sat step (start .default true)
    [.recvStarted, .sendStarted, .keepAliveStarted, .pingTick, .pinged, .sendFrame]
    (fun _ u => u.session.state.closed = false ∧ (u.step (.app .close)).any fun v =>
      v.session.state.closed && (exec step v [.recvClosed, .sent true, .keepAliveClosed]).any
        (·.2.sendLoop.isSelecting)) (by decide)
  obtain ⟨v, hs, hmore⟩ := (Option.any_eq_true _ _).mp hmore
  obtain ⟨hc, hmore⟩ := Bool.and_eq_true_iff.mp hmore
  obtain ⟨⟨tr', t⟩, he', hsel⟩ := (Option.any_eq_true _ _).mp hmore
  exact ⟨tr, u, v, tr', t, he, hs, he', hsel, (toldByFirstClose hr ho hs hc (exec_run he')).2⟩

end Smux.Tasks
