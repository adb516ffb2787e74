import Smux.Session.Laws

/-!
# The background tasks

`recv_loop`, `send_loop` and `keep_alive_loop` beside the application, each
step the code between two awaits. A turn of a loop's `select!` creates a
`Notified` of its own, and what wakes it is a close that comes after: the
loops never read the closed flag. `noMissedClose_iff` says when that is
enough.
-/

namespace Smux

open Runs

inductive LoopState
  /-- Spawned and not polled yet. -/
  | spawned
  /-- In the `select!`, with the close notification it waits for. -/
  | selecting (closeNotified : Notified)
  /-- In the arm of a `select!`: in `handle_frame`, `sink.send` or
  `frame_tx.send_async`. -/
  | awaiting
  | ended
  deriving DecidableEq, Repr

structure Tasks where
  session : Session
  recvLoop : LoopState
  sendLoop : LoopState
  keepAliveLoop : LoopState

namespace LoopState

def isSelecting : LoopState → Bool
  | .selecting _ => true
  | _ => false

def wakes (session : Session) : LoopState → Bool
  | .selecting closeNotified => session.state.die.wakes closeNotified
  | _ => false

end LoopState

namespace Tasks

inductive Act
  | app (act : Session.Act)
  | recvStarted
  | recvFrame (frame : Frame)
  /-- The `handle_frame` call goes on from its await. -/
  | recvResumed (act : Session.Act)
  /-- A decode error, or the end of the transport. -/
  | recvFailed
  | recvClosed
  | sendStarted
  | sendFrame
  /-- `sink.send` is resolved. -/
  | sent (ok : Bool)
  /-- No sender of the frame channel is left. -/
  | sendFailed
  | sendClosed
  | keepAliveStarted
  | pingTick
  /-- The `send_async` of the NOP is resolved. -/
  | pinged
  | timeoutTick
  | keepAliveClosed
  deriving DecidableEq, Repr

def start (config : Config) (isClient : Bool) : Tasks where
  session := .new config isClient
  recvLoop := .spawned
  sendLoop := .spawned
  keepAliveLoop := .spawned

def turn (session : Session) : LoopState := .selecting session.state.die.notified

/-- `recv_loop` after a `handle_frame` call or a part of one. -/
def afterHandling (session : Session) : LoopState :=
  if session.handling.isNone then turn session else .awaiting

def step (self : Tasks) : Act → Option Tasks
  | .app act =>
    if act.isLocal then do return { self with session := ← self.session.step act } else none
  | .recvStarted =>
    if self.recvLoop = .spawned then some { self with recvLoop := turn self.session } else none
  | .recvFrame frame =>
    if self.recvLoop.isSelecting then do
      let session ← self.session.step (.recv frame)
      return { self with session, recvLoop := afterHandling session }
    else none
  | .recvResumed act =>
    if self.recvLoop = .awaiting ∧
        (act = .accepted ∨ act = .tokensReturned ∨ act = .sessionClosing) then do
      let session ← self.session.step act
      return { self with session, recvLoop := afterHandling session }
    else none
  | .recvFailed =>
    if self.recvLoop.isSelecting then do
      return { self with session := ← self.session.step .close, recvLoop := .ended }
    else none
  | .recvClosed =>
    if self.recvLoop.wakes self.session then do
      return { self with session := ← self.session.step .close, recvLoop := .ended }
    else none
  | .sendStarted =>
    if self.sendLoop = .spawned then some { self with sendLoop := turn self.session } else none
  | .sendFrame =>
    if self.sendLoop.isSelecting then do
      return { self with session := ← self.session.step .sendFrame, sendLoop := .awaiting }
    else none
  | .sent ok =>
    if self.sendLoop = .awaiting then
      if ok then some { self with sendLoop := turn self.session }
      else do return { self with session := ← self.session.step .sendLoopEnded, sendLoop := .ended }
    else none
  | .sendFailed =>
    if self.sendLoop.isSelecting then do
      return { self with session := ← self.session.step .sendLoopEnded, sendLoop := .ended }
    else none
  | .sendClosed =>
    if self.sendLoop.wakes self.session then do
      return { self with session := ← self.session.step .sendLoopEnded, sendLoop := .ended }
    else none
  | .keepAliveStarted =>
    if self.keepAliveLoop = .spawned then
      some { self with
        keepAliveLoop :=
          if self.session.config.runsKeepAlive then turn self.session else .ended }
    else none
  | .pingTick =>
    if self.keepAliveLoop.isSelecting then some { self with keepAliveLoop := .awaiting } else none
  | .pinged =>
    if self.keepAliveLoop = .awaiting then do
      let session ← self.session.step .ping
      -- a failed send ends the loop, and does not close the session
      return { self with
        session, keepAliveLoop := if self.session.channelOpen then turn session else .ended }
    else none
  | .timeoutTick =>
    if self.keepAliveLoop.isSelecting then do
      let session ← self.session.step .keepAliveTimeout
      let timedOut := !self.session.state.dataReceived && self.session.state.getTokens > 0
      return { self with
        session, keepAliveLoop := if timedOut then .ended else turn session }
    else none
  | .keepAliveClosed =>
    if self.keepAliveLoop.wakes self.session then some { self with keepAliveLoop := .ended }
    else none

def loops (self : Tasks) : List LoopState := [self.recvLoop, self.sendLoop, self.keepAliveLoop]

def isEnded (self : Tasks) : Bool := ∀ loop ∈ self.loops, loop = .ended

/-- In `next`, the loop that the step was one of is in a turn of its `select!`.
Of the other steps none leads there. -/
def Act.selects (next : Tasks) : Act → Bool
  | .recvStarted | .recvFrame _ | .recvResumed _ => next.recvLoop.isSelecting
  | .sendStarted | .sent _ => next.sendLoop.isSelecting
  | .keepAliveStarted | .pinged | .timeoutTick => next.keepAliveLoop.isSelecting
  | _ => false

/-- The step ends with a loop in a new turn of its `select!`. -/
def entersSelect (self : Tasks) (act : Act) : Bool := (self.step act).any (Act.selects · act)

-- ---------------------------------------------------------------------------
-- Steps
-- ---------------------------------------------------------------------------

section
variable {u v : Tasks} {act : Act}

/-- What each step does, and when. -/
inductive Step (u : Tasks) : Act → Tasks → Prop
  | app : call.isLocal → u.session.step call = some session' →
      Step u (.app call) { u with session := session' }
  | recvStarted : u.recvLoop = .spawned →
      Step u .recvStarted { u with recvLoop := turn u.session }
  | recvFrame : u.recvLoop.isSelecting → u.session.step (.recv frame) = some session' →
      Step u (.recvFrame frame) { u with session := session', recvLoop := afterHandling session' }
  | recvResumed : u.recvLoop = .awaiting →
      call = .accepted ∨ call = .tokensReturned ∨ call = .sessionClosing →
      u.session.step call = some session' →
      Step u (.recvResumed call) { u with session := session', recvLoop := afterHandling session' }
  | recvFailed : u.recvLoop.isSelecting → u.session.step .close = some session' →
      Step u .recvFailed { u with session := session', recvLoop := .ended }
  | recvClosed : u.recvLoop.wakes u.session → u.session.step .close = some session' →
      Step u .recvClosed { u with session := session', recvLoop := .ended }
  | sendStarted : u.sendLoop = .spawned →
      Step u .sendStarted { u with sendLoop := turn u.session }
  | sendFrame : u.sendLoop.isSelecting → u.session.step .sendFrame = some session' →
      Step u .sendFrame { u with session := session', sendLoop := .awaiting }
  | sent : u.sendLoop = .awaiting → Step u (.sent true) { u with sendLoop := turn u.session }
  | sendError : u.sendLoop = .awaiting → u.session.step .sendLoopEnded = some session' →
      Step u (.sent false) { u with session := session', sendLoop := .ended }
  | sendFailed : u.sendLoop.isSelecting → u.session.step .sendLoopEnded = some session' →
      Step u .sendFailed { u with session := session', sendLoop := .ended }
  | sendClosed : u.sendLoop.wakes u.session → u.session.step .sendLoopEnded = some session' →
      Step u .sendClosed { u with session := session', sendLoop := .ended }
  | keepAliveStarted : u.keepAliveLoop = .spawned →
      Step u .keepAliveStarted { u with
        keepAliveLoop := if u.session.config.runsKeepAlive then turn u.session else .ended }
  | pingTick : u.keepAliveLoop.isSelecting →
      Step u .pingTick { u with keepAliveLoop := .awaiting }
  | pinged : u.keepAliveLoop = .awaiting → u.session.step .ping = some session' →
      Step u .pinged { u with
        session := session'
        keepAliveLoop := if u.session.channelOpen then turn session' else .ended }
  | timeoutTick : u.keepAliveLoop.isSelecting → u.session.step .keepAliveTimeout = some session' →
      Step u .timeoutTick { u with
        session := session'
        keepAliveLoop :=
          if !u.session.state.dataReceived && u.session.state.getTokens > 0 then .ended
          else turn session' }
  | keepAliveClosed : u.keepAliveLoop.wakes u.session →
      Step u .keepAliveClosed { u with keepAliveLoop := .ended }

theorem step_ok (hs : u.step act = some v) : Step u act v := by
  cases act with
  | app call =>
    obtain ⟨hlocal, hs⟩ := Option.ite_none_right_eq_some.mp hs
    obtain ⟨session, hsession, rfl⟩ := bind_return hs
    exact .app hlocal hsession
  | recvFrame frame =>
    obtain ⟨hloop, hs⟩ := Option.ite_none_right_eq_some.mp hs
    obtain ⟨session, hsession, rfl⟩ := bind_return hs
    exact .recvFrame hloop hsession
  | recvResumed call =>
    obtain ⟨⟨hloop, hcall⟩, hs⟩ := Option.ite_none_right_eq_some.mp hs
    obtain ⟨session, hsession, rfl⟩ := bind_return hs
    exact .recvResumed hloop hcall hsession
  | recvFailed =>
    obtain ⟨hloop, hs⟩ := Option.ite_none_right_eq_some.mp hs
    obtain ⟨session, hsession, rfl⟩ := bind_return hs
    exact .recvFailed hloop hsession
  | recvClosed =>
    obtain ⟨hloop, hs⟩ := Option.ite_none_right_eq_some.mp hs
    obtain ⟨session, hsession, rfl⟩ := bind_return hs
    exact .recvClosed hloop hsession
  | sendFrame =>
    obtain ⟨hloop, hs⟩ := Option.ite_none_right_eq_some.mp hs
    obtain ⟨session, hsession, rfl⟩ := bind_return hs
    exact .sendFrame hloop hsession
  | sent ok =>
    obtain ⟨hloop, hs⟩ := Option.ite_none_right_eq_some.mp hs
    cases ok with
    | true =>
      cases hs
      exact .sent hloop
    | false =>
      obtain ⟨session, hsession, rfl⟩ := bind_return hs
      exact .sendError hloop hsession
  | sendFailed =>
    obtain ⟨hloop, hs⟩ := Option.ite_none_right_eq_some.mp hs
    obtain ⟨session, hsession, rfl⟩ := bind_return hs
    exact .sendFailed hloop hsession
  | sendClosed =>
    obtain ⟨hloop, hs⟩ := Option.ite_none_right_eq_some.mp hs
    obtain ⟨session, hsession, rfl⟩ := bind_return hs
    exact .sendClosed hloop hsession
  | pinged =>
    obtain ⟨hloop, hs⟩ := Option.ite_none_right_eq_some.mp hs
    obtain ⟨session, hsession, rfl⟩ := bind_return hs
    exact .pinged hloop hsession
  | timeoutTick =>
    obtain ⟨hloop, hs⟩ := Option.ite_none_right_eq_some.mp hs
    obtain ⟨session, hsession, rfl⟩ := bind_return hs
    exact .timeoutTick hloop hsession
  | recvStarted | sendStarted | keepAliveStarted | pingTick | keepAliveClosed =>
    obtain ⟨hloop, hs⟩ := Option.ite_none_right_eq_some.mp hs
    cases hs
    constructor
    exact hloop

/-- What a step is to the session, if it is anything. -/
inductive OnSession : Act → Session.Act → Prop
  | app : call.isLocal → OnSession (.app call) call
  | recvFrame : OnSession (.recvFrame frame) (.recv frame)
  | recvResumed : call = .accepted ∨ call = .tokensReturned ∨ call = .sessionClosing →
      OnSession (.recvResumed call) call
  | recvFailed : OnSession .recvFailed .close
  | recvClosed : OnSession .recvClosed .close
  | sendFrame : OnSession .sendFrame .sendFrame
  | sendError : OnSession (.sent false) .sendLoopEnded
  | sendFailed : OnSession .sendFailed .sendLoopEnded
  | sendClosed : OnSession .sendClosed .sendLoopEnded
  | pinged : OnSession .pinged .ping
  | timeoutTick : OnSession .timeoutTick .keepAliveTimeout

theorem step_session (hs : u.step act = some v) :
    (∀ call, ¬OnSession act call) ∧ v.session = u.session ∨
      ∃ call, OnSession act call ∧ u.session.step call = some v.session := by
  cases step_ok hs with
  | app hlocal hsession => exact .inr ⟨_, .app hlocal, hsession⟩
  | recvFrame _ hsession => exact .inr ⟨_, .recvFrame, hsession⟩
  | recvResumed _ hcall hsession => exact .inr ⟨_, .recvResumed hcall, hsession⟩
  | recvFailed _ hsession => exact .inr ⟨_, .recvFailed, hsession⟩
  | recvClosed _ hsession => exact .inr ⟨_, .recvClosed, hsession⟩
  | sendFrame _ hsession => exact .inr ⟨_, .sendFrame, hsession⟩
  | sendError _ hsession => exact .inr ⟨_, .sendError, hsession⟩
  | sendFailed _ hsession => exact .inr ⟨_, .sendFailed, hsession⟩
  | sendClosed _ hsession => exact .inr ⟨_, .sendClosed, hsession⟩
  | pinged _ hsession => exact .inr ⟨_, .pinged, hsession⟩
  | timeoutTick _ hsession => exact .inr ⟨_, .timeoutTick, hsession⟩
  | recvStarted | sendStarted | sent | keepAliveStarted | pingTick | keepAliveClosed =>
    exact .inl ⟨by rintro _ ⟨⟩, rfl⟩

namespace OnSession

variable {call : Session.Act}

theorem eq_recvFrame (h : OnSession act (.recv frame)) : act = .recvFrame frame := by
  cases h with
  | app hlocal => cases hlocal
  | recvFrame => rfl
  | recvResumed hcall => rcases hcall with hc | hc | hc <;> cases hc

theorem eq_timeoutTick (h : OnSession act .keepAliveTimeout) : act = .timeoutTick := by
  cases h with
  | app hlocal => cases hlocal
  | recvResumed hcall => rcases hcall with hc | hc | hc <;> cases hc
  | timeoutTick => rfl

/-- Only the application makes calls on streams. -/
theorem eq_app {session : Session} (h : OnSession act call)
    (hcalls : session.Calls call k made waiting) : act = .app call := by
  cases hcalls with
  | call | accept =>
    cases h with
    | app => rfl
    | recvResumed hcall => rcases hcall with hc | hc | hc <;> cases hc

end OnSession

/-- The steps of `send_loop`. -/
def Act.isSend : Act → Bool
  | .sendStarted | .sendFrame | .sent _ | .sendFailed | .sendClosed => true
  | _ => false

theorem OnSession.not_send {call : Session.Act} (h : OnSession act call)
    (hsend : act.isSend = false) : call ≠ .sendFrame ∧ call ≠ .sendLoopEnded := by
  cases h with
  | app hlocal => constructor <;> rintro rfl <;> cases hlocal
  | recvResumed hcall => rcases hcall with rfl | rfl | rfl <;> exact ⟨by rintro ⟨⟩, by rintro ⟨⟩⟩
  | sendFrame | sendError | sendFailed | sendClosed => cases hsend
  | _ => exact ⟨by rintro ⟨⟩, by rintro ⟨⟩⟩

theorem step_sendLoop (hs : u.step act = some v) (h : act.isSend = false) :
    v.sendLoop = u.sendLoop := by
  cases step_ok hs with
  | sendStarted | sendFrame | sent | sendError | sendFailed | sendClosed => cases h
  | _ => rfl

theorem sendLoop_ended (hs : u.step act = some v) (h : u.sendLoop = .ended) : v.sendLoop = .ended := by
  cases step_ok hs with
  | sendStarted hloop | sent hloop => cases h.symm.trans hloop
  | sendFrame hloop => exact absurd hloop (by rw [h]; decide)
  | sendError | sendFailed | sendClosed => rfl
  | _ => exact h

/-- The application's own steps are steps of the session alone. -/
theorem step_app {call : Session.Act} (hs : u.step (.app call) = some v) :
    u.session.step call = some v.session ∧ v.loops = u.loops := by
  cases step_ok hs with
  | app _ hsession => exact ⟨hsession, rfl⟩

/-- Only the application goes on when the tasks have ended. -/
theorem isEnded_step (hs : u.step act = some v) (h : u.isEnded) : v.isEnded := by
  obtain ⟨hrecv, hsend, hkeepAlive⟩ : u.recvLoop = .ended ∧ u.sendLoop = .ended ∧
      u.keepAliveLoop = .ended := by simpa [isEnded, loops] using h
  cases act with
  | app call =>
    rw [isEnded, (step_app hs).2]
    exact h
  | _ =>
    simp [step, hrecv, hsend, hkeepAlive, LoopState.isSelecting, LoopState.wakes] at hs

theorem step_dataReceived (hs : u.step act = some v) :
    (∃ frame, act = .recvFrame frame ∧ v.session.state.dataReceived) ∨ act = .timeoutTick ∨
      (∀ frame, act ≠ .recvFrame frame) ∧
        v.session.state.dataReceived = u.session.state.dataReceived := by
  rcases step_session hs with ⟨hnone, hsession⟩ | ⟨call, hcall, hsession⟩
  · refine .inr (.inr ⟨?_, by rw [hsession]⟩)
    rintro frame rfl
    exact hnone _ .recvFrame
  · rcases Session.step_dataReceived hsession with ⟨frame, rfl, hset⟩ | rfl | ⟨hne, hkept⟩
    · exact .inl ⟨frame, hcall.eq_recvFrame, hset⟩
    · exact .inr (.inl hcall.eq_timeoutTick)
    · refine .inr (.inr ⟨?_, hkept⟩)
      rintro frame rfl
      cases hcall with
      | recvFrame => exact hne _ rfl

end

/-- A session's state after some steps that may have closed it. -/
structure MayClose (state state' : SessionState) : Prop where
  closed : state.closed → state'.closed
  die : state'.die = state.die ∧ state'.closed = state.closed ∨ state'.die = state.close.die ∧ state'.closed

section
variable {u v : Tasks} {act : Act}

theorem mayClose_step {s s' : Session} {act : Session.Act} (hs : s.step act = some s') :
    MayClose s.state s'.state := by
  rcases Session.step_closed hs with ⟨hc, hd⟩ | ⟨-, hc, hd⟩
  · exact ⟨fun h => hc ▸ h, .inl ⟨hd, hc⟩⟩
  · exact ⟨fun _ => hc, .inr ⟨hd, hc⟩⟩

/-- What a step does to the loops: each goes on waiting, stops waiting, or
begins a new turn, and then the step does not close the session. -/
structure LoopsStep (u : Tasks) (act : Act) (v : Tasks) : Prop where
  state : MayClose u.session.state v.session.state
  loops : ∀ loop ∈ v.loops, loop ∈ u.loops ∨ loop.isSelecting = false ∨
    u.entersSelect act ∧ loop = turn v.session
  enters : u.entersSelect act → turn v.session ∈ v.loops ∧
    v.session.state.closed = u.session.state.closed

theorem MayClose.rfl {state : SessionState} : MayClose state state := ⟨id, .inl ⟨Eq.refl _, Eq.refl _⟩⟩

theorem MayClose.wakes {state state' : SessionState} {w : Notified} (h : MayClose state state')
    (hw : w.since ≤ state.die.calls) (hc : state.closed → state.die.wakes w) :
    w.since ≤ state'.die.calls ∧ (state'.closed → state'.die.wakes w) := by
  rcases h.die with ⟨hd, hcl⟩ | ⟨hd, -⟩
  · rw [hd, hcl]
    exact ⟨hw, hc⟩
  · rw [hd, SessionState.close_die]
    split
    · rename_i hclosed
      exact ⟨hw, fun _ => hc hclosed⟩
    · exact ⟨Nat.le_succ_of_le hw, fun _ => decide_eq_true (Nat.lt_succ_of_le hw)⟩

theorem LoopsStep.of_loop {loop : LoopState} (hs : u.step act = some v)
    (hm : MayClose u.session.state v.session.state)
    (hloops : ∀ l ∈ v.loops, l ∈ u.loops ∨ l = loop) (hmem : loop ∈ v.loops)
    (hent : Act.selects v act = loop.isSelecting)
    (hl : loop.isSelecting = false ∨ loop = turn v.session ∧
      v.session.state.closed = u.session.state.closed) : LoopsStep u act v := by
  have hent : u.entersSelect act = loop.isSelecting := by
    rw [entersSelect, hs, ← hent]
    rfl
  refine ⟨hm, fun l hv => ?_, fun he => ?_⟩
  · rcases hloops l hv with hu | rfl
    · exact .inl hu
    · rcases hl with hn | ⟨rfl, -⟩
      · exact .inr (.inl hn)
      · exact .inr (.inr ⟨hent, rfl⟩)
  · rw [hent] at he
    rcases hl with hn | ⟨rfl, hc⟩
    · rw [hn] at he; cases he
    · exact ⟨hmem, hc⟩

section
variable {session : Session} {loop : LoopState}

theorem recv_loops : ∀ l ∈ ({ u with session, recvLoop := loop } : Tasks).loops,
    l ∈ u.loops ∨ l = loop := by
  simp only [loops]; grind

theorem send_loops : ∀ l ∈ ({ u with session, sendLoop := loop } : Tasks).loops,
    l ∈ u.loops ∨ l = loop := by
  simp only [loops]; grind

theorem keepAlive_loops : ∀ l ∈ ({ u with session, keepAliveLoop := loop } : Tasks).loops,
    l ∈ u.loops ∨ l = loop := by
  simp only [loops]; grind

end

theorem afterHandling_cases (s : Session) :
    (afterHandling s).isSelecting = false ∨ afterHandling s = turn s := by
  unfold afterHandling
  split
  · exact .inr rfl
  · exact .inl rfl

theorem keepAliveTimeout_closed {s s' : Session}
    (hs : s.step .keepAliveTimeout = some s')
    (hn : (!s.state.dataReceived && s.state.getTokens > 0) = false) :
    s'.state.closed = s.state.closed := by
  have hs : some { s with
      state := if !s.state.dataReceived && s.state.getTokens > 0 then
          s.state.checkAndResetDataReceived.2.close
        else s.state.checkAndResetDataReceived.2 } = some s' := hs
  rw [hn] at hs
  cases hs
  rfl

theorem step_loops (hs : u.step act = some v) : LoopsStep u act v := by
  cases step_ok hs with
  | app _ hsession =>
    refine ⟨mayClose_step hsession, fun l hl => .inl hl, fun he => ?_⟩
    rw [entersSelect, hs] at he
    cases he
  | recvStarted => exact .of_loop hs .rfl recv_loops (by simp [loops]) rfl (.inr ⟨rfl, rfl⟩)
  | @recvFrame frame session _ hsession =>
    have hc : session.state.closed = u.session.state.closed :=
      (Session.step_closed hsession).elim And.left fun h => by simp at h
    exact .of_loop hs (mayClose_step hsession) recv_loops (by simp [loops]) rfl
      ((afterHandling_cases session).imp_right fun h => ⟨h, hc⟩)
  | @recvResumed call session _ hcall hsession =>
    have hc : session.state.closed = u.session.state.closed :=
      (Session.step_closed hsession).elim And.left fun h => by
        rcases hcall with rfl | rfl | rfl <;> simp at h
    exact .of_loop hs (mayClose_step hsession) recv_loops (by simp [loops]) rfl
      ((afterHandling_cases session).imp_right fun h => ⟨h, hc⟩)
  | recvFailed _ hsession | recvClosed _ hsession =>
    exact .of_loop hs (mayClose_step hsession) recv_loops (by simp [loops]) rfl (.inl rfl)
  | sendStarted | sent => exact .of_loop hs .rfl send_loops (by simp [loops]) rfl (.inr ⟨rfl, rfl⟩)
  | sendFrame _ hsession | sendError _ hsession | sendFailed _ hsession | sendClosed _ hsession =>
    exact .of_loop hs (mayClose_step hsession) send_loops (by simp [loops]) rfl (.inl rfl)
  | keepAliveStarted =>
    refine .of_loop hs .rfl keepAlive_loops (by simp [loops]) rfl ?_
    split
    · exact .inr ⟨rfl, rfl⟩
    · exact .inl rfl
  | pingTick | keepAliveClosed =>
    exact .of_loop hs .rfl keepAlive_loops (by simp [loops]) rfl (.inl rfl)
  | @pinged session _ hsession =>
    have hc : session.state.closed = u.session.state.closed :=
      (Session.step_closed hsession).elim And.left fun h => by simp at h
    refine .of_loop hs (mayClose_step hsession) keepAlive_loops (by simp [loops]) rfl ?_
    split
    · exact .inr ⟨rfl, hc⟩
    · exact .inl rfl
  | timeoutTick _ hsession =>
    refine .of_loop hs (mayClose_step hsession) keepAlive_loops (by simp [loops]) rfl ?_
    split
    · exact .inl rfl
    · rename_i hn
      exact .inr ⟨rfl, keepAliveTimeout_closed hsession (by simpa using hn)⟩

end

-- ---------------------------------------------------------------------------
-- Runs
-- ---------------------------------------------------------------------------

/-- No loop is left in its `select!` of a closed session without a close
notification, in any state of a run. -/
def NoMissedClose (tr : List (Tasks × Act)) (t : Tasks) : Prop :=
  ∀ u ∈ visited tr t, u.session.state.closed → ∀ loop ∈ u.loops, loop.isSelecting →
    loop.wakes u.session

structure Awake (tasks : Tasks) : Prop where
  since : ∀ w, .selecting w ∈ tasks.loops → w.since ≤ tasks.session.state.die.calls
  wakes : tasks.session.state.closed → ∀ w, .selecting w ∈ tasks.loops →
    tasks.session.state.die.wakes w

section
variable {config : Config} {isClient : Bool} {u v t : Tasks} {act : Act} {tr : List (Tasks × Act)}

theorem awake_start (config : Config) (isClient : Bool) : (start config isClient).Awake :=
  ⟨by simp [start, loops], by simp [start, loops]⟩

theorem awake_step (h : u.Awake) (ho : u.entersSelect act → u.session.state.closed = false)
    (hs : u.step act = some v) : v.Awake := by
  obtain ⟨hstate, hloops, henters⟩ := step_loops hs
  have key : ∀ w, .selecting w ∈ v.loops → w.since ≤ v.session.state.die.calls ∧
      (v.session.state.closed → v.session.state.die.wakes w) := by
    intro w hw
    rcases hloops _ hw with hu | hn | ⟨he, hturn⟩
    · exact hstate.wakes (h.since w hu) fun hc => h.wakes hc w hu
    · cases hn
    · cases hturn
      refine ⟨Nat.le_refl _, fun hc => ?_⟩
      rw [(henters he).2, ho he] at hc
      cases hc
  exact ⟨fun w hw => (key w hw).1, fun hc w hw => (key w hw).2 hc⟩

/-- No loop misses a close, along a run, exactly if none begins a turn of its
`select!` when the session is closed already. -/
theorem noMissedClose_iff (hr : Run step (start config isClient) tr t) :
    NoMissedClose tr t ↔
      ∀ p ∈ tr, p.1.entersSelect p.2 → p.1.session.state.closed = false := by
  constructor
  · rintro h ⟨u, act⟩ hp he
    obtain ⟨v, hv, hs⟩ := hr.next_visited hp
    obtain ⟨-, -, henters⟩ := step_loops hs
    obtain ⟨hmem, hc⟩ := henters he
    refine Bool.eq_false_iff.mpr fun hclosed => ?_
    have hwakes := h v hv (hc.trans hclosed) _ hmem rfl
    simp [turn, LoopState.wakes] at hwakes
  · intro hok u hu hc loop hl hsel
    have hawake := hr.invariant hok (awake_start config isClient) awake_step u hu
    cases loop with
    | selecting w => exact hawake.wakes hc w hl
    | _ => cases hsel

end

/-- `recv_loop` is first polled after the close, and waits for another one. -/
theorem not_noMissedClose_beforeFirstPoll : ∃ tr t,
    exec step (start .default true) [.app .close, .recvStarted] = some (tr, t) ∧
      ¬NoMissedClose tr t := by
  obtain ⟨tr, t, he, -, hc, hl, hw⟩ := exec_sat step (start .default true)
    [.app .close, .recvStarted]
    (fun _ t => t.session.state.closed ∧ t.recvLoop.isSelecting ∧ ¬t.recvLoop.wakes t.session)
    (by decide)
  exact ⟨tr, t, he, fun h => hw (h t (last_visited ..) hc t.recvLoop (by simp [loops]) hl)⟩

/-- A close that finds the loops in their `select!`. -/
theorem noMissedClose_selecting : ∃ tr t,
    exec step (start .default false) [.recvStarted, .sendStarted, .keepAliveStarted,
      .recvFrame (.newSyn 1 1), .recvResumed .accepted, .pingTick, .pinged, .app .close,
      .sendClosed, .recvClosed, .keepAliveClosed] = some (tr, t) ∧ NoMissedClose tr t := by
  obtain ⟨tr, t, he, hr, hok⟩ := exec_sat step (start .default false)
    [.recvStarted, .sendStarted, .keepAliveStarted, .recvFrame (.newSyn 1 1),
      .recvResumed .accepted, .pingTick, .pinged, .app .close, .sendClosed, .recvClosed,
      .keepAliveClosed]
    (fun tr _ => ∀ p ∈ tr, p.1.entersSelect p.2 → p.1.session.state.closed = false) (by decide)
  exact ⟨tr, t, he, (noMissedClose_iff hr).mpr hok⟩

end Tasks

end Smux
