import Smux.Session.Announced
import Smux.Session.Sent

/-!
# What a session says on a stream

With a peer that keeps to the protocol, a session keeps to it too: on each
stream it sends a SYN if it opens the stream, then payloads, then at most one
FIN, and on a stream of the peer's nothing before the peer's SYN. The one
exception is an `open_stream` that is given up, whose FIN may come alone.
`conversation` is that, and `released_run` says what the peer's FIN does to
the streams map.
-/

namespace Smux

open Runs

/-- A stream that is opened here has its SYN in the channel before anything
can be written to it. -/
structure Handle.Introduced (handle : Handle) : Prop where
  phase : handle.phase ≠ .incoming
  syn : handle.phase = .synQueued ∨ handle.phase = .held ∨ handle.phase = .closing →
    ∃ syn ∈ handle.sent, syn.cmd = .syn
  psh : ∀ frame ∈ handle.sent, frame.cmd = .psh → ∃ syn ∈ handle.sent, syn.cmd = .syn

theorem Handle.Introduced.wrote {self : Handle} {phase : Phase} (hphase : phase ≠ .incoming)
    (hsyn : ∃ syn ∈ self.sent ++ frames, syn.cmd = .syn) :
    (self.wrote phase isWriteClosed bytes frames).Introduced :=
  ⟨hphase, fun _ => hsyn, fun _ _ _ => hsyn⟩

theorem Handle.introduced_step {self self' : Handle} {state state' : SessionState}
    (h : self.Introduced)
    (hs : self.step config state channelOpen act = some (self', state', frames)) :
    self'.Introduced := by
  obtain ⟨hincoming, hsyn, hpsh⟩ := h
  have hkept : ∀ more : List Frame, (∃ syn ∈ self.sent, syn.cmd = .syn) →
      ∃ syn ∈ self.sent ++ more, syn.cmd = .syn :=
    fun more ⟨syn, hm, hc⟩ => ⟨syn, List.mem_append_left _ hm, hc⟩
  rcases step_ok hs with ⟨_, _, _, -, hheld, -, -, rfl⟩ | ⟨-, -, _, _, _, rfl, hw⟩
  · exact ⟨by rw [read, hheld]; decide, fun _ => hsyn (.inr (.inl hheld)), hpsh⟩
  · cases hw with
    | quiet hph | psh hph | fin hph | finRefused hph | finPending hph =>
      exact .wrote (by rintro ⟨⟩) (hkept _ (hsyn (.inr (.inl hph))))
    | finResumed hph | finAbandoned hph =>
      exact .wrote (by rintro ⟨⟩) (hkept _ (hsyn (.inr (.inr hph))))
    | syn =>
      exact .wrote (by rintro ⟨⟩) ⟨_, List.mem_append_right _ List.mem_cons_self, rfl⟩
    | handedOut hph =>
      exact .wrote (by rintro ⟨⟩) (hkept _ (hsyn (.inl (hph.resolve_right hincoming))))
    | dropFin | dropSilent =>
      -- a stream may be dropped before its SYN, and then it has sent no payload
      refine ⟨by rintro ⟨⟩, by rintro (⟨⟨⟩⟩ | ⟨⟨⟩⟩ | ⟨⟨⟩⟩), fun frame hf hc => hkept _ ?_⟩
      rcases List.mem_append.mp hf with hf | hf
      · exact hpsh frame hf hc
      · simp_all [Frame.newFin, Frame.new]

namespace Session

/-- The frames sent on a stream, in their order. -/
def said (self : Session) (streamId : UInt32) : List Frame :=
  self.queued.filter (·.streamId == streamId)

/-- What is said on a stream is a SYN, payloads and a FIN, each of the three
possibly missing. -/
structure Speaks (session : Session) (streamId : UInt32) (syn pshs fin : List Frame) : Prop where
  said : session.said streamId = syn ++ pshs ++ fin
  isSyn : syn = [] ∨ syn = [.newSyn session.config.version streamId] ∧ Own session.isClient streamId
  isPsh : ∀ frame ∈ pshs, ∃ data, frame = .newPsh 1 streamId data
  isFin : fin = [] ∨ fin = [.newFin 1 streamId]
  introduced : Own session.isClient streamId → syn = [] → pshs = []
  answers : ¬Own session.isClient streamId → session.said streamId ≠ [] →
    ∃ frame ∈ session.handled, frame.cmd = .syn ∧ frame.streamId = streamId
  accepted : ∀ handle ∈ session.handles, handle.id = streamId →
    pshs.flatMap Frame.data = handle.accepted

structure Conversing (session : Session) : Prop where
  ids : session.Ids
  mapped : Mapped session.streams session.handles session.handled
  ordered : session.Ordered
  awaits : session.AwaitsPsh
  sent : Sent session.config session.handles session.queued
  opens : ∀ handle ∈ session.handles, session.Opens handle
  introduced : ∀ handle ∈ session.handles, Own session.isClient handle.id → handle.Introduced
  released : ∀ fin ∈ session.handled, fin.cmd = .fin → session.streams fin.streamId = none

section
variable {config : Config} {isClient : Bool} {u v t : Session} {act : Act}
  {tr : List (Session × Act)} {streamId : UInt32}

theorem conversing_new (config : Config) (isClient : Bool) : (new config isClient).Conversing where
  ids := ids_new config isClient
  mapped := .new config isClient
  ordered := ordered_new config isClient
  awaits := by rintro _ _ _ ⟨⟩
  sent := .new config isClient
  opens := by rintro _ ⟨⟩
  introduced := by rintro _ ⟨⟩
  released := by rintro _ ⟨⟩

theorem introduced_step
    (h : ∀ handle ∈ u.handles, Own u.isClient handle.id → handle.Introduced)
    (hs : u.step act = some v) :
    ∀ handle ∈ v.handles, Own v.isClient handle.id → handle.Introduced := by
  intro handle' hm hown
  rw [step_isClient hs] at hown
  rcases step_mem hs hm with ⟨handle, hm, hstep⟩ | ⟨streamId, phase, rfl, hnew⟩
  · have hintro := h handle hm (hstep.id_eq ▸ hown)
    cases hstep with
    | called _ hcall => exact Handle.introduced_step hintro hcall
    | same | delivered | disconnected => exact ⟨hintro.phase, hintro.syn, hintro.psh⟩
  · cases hnew with
    | registered => exact ⟨by rintro ⟨⟩, by rintro (⟨⟨⟩⟩ | ⟨⟨⟩⟩ | ⟨⟨⟩⟩), by rintro _ ⟨⟩⟩
    | incoming _ hr => exact absurd hown (not_own_of_peer (peer_of_not_refuses hr))

theorem conversing_step (h : u.Conversing) (ha : u.Admissible act) (hs : u.step act = some v) :
    v.Conversing where
  ids := ids_step h.ids ha hs
  mapped := mapped_step h.mapped h.ids ha hs
  ordered := ordered_step h.ordered ha hs
  awaits := awaitsPsh_step h.awaits hs
  sent := sent_step h.sent h.ids h.mapped ha hs
  opens := opens_step h.opens h.ids.ownIds hs
  introduced := introduced_step h.introduced hs
  released := released_step h.released h.ids h.ordered h.awaits ha hs

theorem conversing_run (hr : Run step (new config isClient) tr t)
    (hok : ∀ p ∈ tr, p.1.Admissible p.2) : ∀ u ∈ visited tr t, u.Conversing :=
  hr.invariant hok (conversing_new config isClient) conversing_step

/-- The frames that a handle has sent are what is said on its stream. -/
theorem Conversing.said_eq {handle : Handle} (h : u.Conversing) (hm : handle ∈ u.handles) :
    u.said handle.id = handle.sent := (h.sent.sent handle hm).symm

theorem Conversing.unique {handle handle' : Handle} (h : u.Conversing) (hm : handle ∈ u.handles)
    (hm' : handle' ∈ u.handles) (hid : handle.id = handle'.id) : handle = handle' := by
  obtain ⟨j, hj⟩ := List.mem_iff_getElem?.mp hm
  obtain ⟨k, hk⟩ := List.mem_iff_getElem?.mp hm'
  obtain rfl := h.ids.unique hj hk hid
  exact Option.some.inj (hj.symm.trans hk)

theorem Conversing.speaks_handle {handle : Handle} (h : u.Conversing) (hm : handle ∈ u.handles) :
    ∃ syn pshs fin, u.Speaks handle.id syn pshs fin := by
  obtain ⟨syn, pshs, fin, hs⟩ := h.sent.shape handle hm
  have hsaid := (h.said_eq hm).trans hs.sent
  refine ⟨syn, pshs, fin, hsaid, ?_, hs.isPsh, hs.isFin.imp_right And.left, ?_, ?_, ?_⟩
  · refine hs.isSyn.imp_right fun hsyn => ⟨hsyn, ?_⟩
    refine (h.opens handle hm).own (.newSyn u.config.version handle.id) ?_ rfl
    rw [hs.sent, hsyn]
    exact List.mem_cons_self
  · rintro hown rfl
    refine List.eq_nil_iff_forall_not_mem.mpr fun psh hpsh => ?_
    obtain ⟨data, rfl⟩ := hs.isPsh psh hpsh
    have hmem : .newPsh 1 handle.id data ∈ handle.sent := by
      rw [hs.sent]
      exact List.mem_append_left _ (List.mem_append_right _ hpsh)
    obtain ⟨syn, hsyn, hc⟩ := (h.introduced handle hm hown).psh _ hmem rfl
    -- neither a payload nor a FIN is a SYN
    rw [hs.sent, List.nil_append] at hsyn
    rcases List.mem_append.mp hsyn with hsyn | hsyn
    · obtain ⟨data, rfl⟩ := hs.isPsh syn hsyn
      cases hc
    · rcases hs.isFin with rfl | ⟨rfl, -⟩
      · cases hsyn
      · rw [List.mem_singleton.mp hsyn] at hc
        cases hc
  · exact fun hpeer _ => (h.ids.peer handle hm hpeer).2
  · intro handle' hm' hid
    rw [h.unique hm' hm hid]
    exact hs.accepted

/-- Nothing is said under an id that has no stream. -/
theorem Conversing.speaks_none (h : u.Conversing) (h0 : streamId ≠ 0)
    (hnone : ∀ handle ∈ u.handles, handle.id ≠ streamId) : u.Speaks streamId [] [] [] := by
  have hsaid : u.said streamId = [] := by
    refine List.filter_eq_nil_iff.mpr fun frame hf hid => ?_
    have hid : frame.streamId = streamId := beq_iff_eq.mp hid
    by_cases hc : frame.cmd = .nop
    · obtain ⟨version, rfl⟩ := h.sent.nop frame hf hc
      exact h0 hid.symm
    · obtain ⟨handle, hm, he⟩ := h.sent.owned frame hf hc
      exact hnone handle hm (he.trans hid)
  exact {
    said := hsaid
    isSyn := .inl rfl
    isPsh := by rintro _ ⟨⟩
    isFin := .inl rfl
    introduced := fun _ _ => rfl
    answers := fun _ hne => absurd hsaid hne
    accepted := fun handle hm hid => absurd hid (hnone handle hm) }

/-- Whatever the application does with its streams, and in whatever order,
each of them keeps to the protocol. -/
theorem conversation (hr : Run step (new config isClient) tr t)
    (hok : ∀ p ∈ tr, p.1.Admissible p.2) (h0 : streamId ≠ 0) :
    ∃ syn pshs fin, t.Speaks streamId syn pshs fin := by
  have h := conversing_run hr hok t (last_visited ..)
  by_cases hstream : ∃ handle ∈ t.handles, handle.id = streamId
  · obtain ⟨handle, hm, rfl⟩ := hstream
    exact h.speaks_handle hm
  · exact ⟨[], [], [], h.speaks_none h0 fun handle hm hid => hstream ⟨handle, hm, hid⟩⟩

/-- The map has no entry for a stream of which the FIN was handled, and a
stream that is not dropped has one until then. -/
theorem released_run (hr : Run step (new config isClient) tr t)
    (hok : ∀ p ∈ tr, p.1.Admissible p.2) : ∀ u ∈ visited tr t,
    (∀ fin ∈ u.handled, fin.cmd = .fin → u.streams fin.streamId = none) ∧
      ∀ handle ∈ u.handles, handle.phase ≠ .dropped → (u.streams handle.id = none ↔
        ∃ fin ∈ u.handled, fin.cmd = .fin ∧ fin.streamId = handle.id) := by
  intro u hu
  have h := conversing_run hr hok u hu
  refine ⟨h.released, fun handle hm hlive => ⟨fun hnone => ?_, ?_⟩⟩
  · obtain ⟨k, hk⟩ := List.mem_iff_getElem?.mp hm
    refine h.mapped.fin handle hm hlive (Bool.eq_false_iff.mpr fun hconn => ?_)
    obtain ⟨streamState, hs, -⟩ := h.mapped.live hk hlive hconn
    rw [hnone] at hs
    cases hs
  · rintro ⟨fin, hf, hc, hid⟩
    rw [← hid]
    exact h.released fin hf hc

end

-- ---------------------------------------------------------------------------
-- Conforming runs
-- ---------------------------------------------------------------------------

instance (earlier frame : Frame) : Decidable (Follows earlier frame) :=
  decidable_of_iff ((frame.cmd = .syn → earlier.streamId ≠ frame.streamId) ∧
      (earlier.cmd = .fin → earlier.streamId ≠ frame.streamId))
    ⟨fun h => ⟨h.1, h.2⟩, fun h => ⟨h.syn, h.fin⟩⟩

instance (isClient : Bool) (streamId : UInt32) : Decidable (Own isClient streamId) :=
  inferInstanceAs (Decidable (_ = _))

instance (u : Session) (frame : Frame) : Decidable (u.Conforms frame) :=
  decidable_of_iff ((∀ earlier ∈ u.handled, Follows earlier frame) ∧ (frame.cmd ≠ .nop →
      Own u.isClient frame.streamId → ∃ handle ∈ u.handles, handle.id = frame.streamId))
    ⟨fun h => ⟨h.1, h.2⟩, fun h => ⟨h.follows, h.own⟩⟩

instance (u : Session) (act : Act) : Decidable (u.Admissible act) :=
  decidable_of_iff ((∀ r ∈ idResult (u, act), r.isOk) ∧ ∀ frame ∈ act.takes, u.Conforms frame) <| by
    constructor
    · rintro ⟨hids, hrecv⟩
      refine ⟨fun e he => ?_, ?_⟩
      · cases hids _ he
      · rintro frame rfl
        exact hrecv frame List.mem_cons_self
    · rintro ⟨hids, hrecv⟩
      refine ⟨fun r hr => ?_, fun frame hf => ?_⟩
      · cases r with
        | ok => rfl
        | error e => exact absurd hr (hids e)
      · cases act with
        | recv => exact hrecv frame (congrArg Act.recv (List.mem_singleton.mp hf).symm)
        | _ => cases hf

/-- A server answers on the stream of its peer, opens one and writes to it, and
gives up another one. -/
def exchange : List Act :=
  [.recv (.newSyn 1 1), .accepted, .acceptStream, .recv (.newPsh 1 1 [7]), .call 0 (.pollRead 4),
    .openStream, .register 2, .call 1 .synResumed, .call 0 (.pollWrite [8] true),
    .call 1 .opened, .call 1 (.pollWrite [9] true), .recv (.newFin 1 1),
    .call 0 (.pollShutdown true), .openStream, .register 4, .call 2 (.openDropped true), .ping,
    .recv (.newPsh 1 2 [5])]

theorem conversation_exchange : ∃ tr t, exec step (new .default false) exchange = some (tr, t) ∧
    t.said 1 = [.newPsh 1 1 [8], .newFin 1 1] ∧ t.said 2 = [.newSyn 1 2, .newPsh 1 2 [9]] ∧
    t.said 4 = [.newFin 1 4] ∧ ∃ syn pshs fin, t.Speaks 2 syn pshs fin := by
  obtain ⟨tr, t, he, hr, hok, h1, h2, h4⟩ := exec_sat step (new .default false) exchange
    (fun tr t => (∀ p ∈ tr, p.1.Admissible p.2) ∧ t.said 1 = [.newPsh 1 1 [8], .newFin 1 1] ∧
      t.said 2 = [.newSyn 1 2, .newPsh 1 2 [9]] ∧ t.said 4 = [.newFin 1 4]) (by decide +kernel)
  exact ⟨tr, t, he, h1, h2, h4, conversation hr hok (by decide)⟩

theorem released_run_exchange : ∃ tr t, exec step (new .default false) exchange = some (tr, t) ∧
    t.streams 1 = none ∧ ∀ fin ∈ t.handled, fin.cmd = .fin → t.streams fin.streamId = none := by
  obtain ⟨tr, t, he, hr, hok, h1⟩ := exec_sat step (new .default false) exchange
    (fun tr t => (∀ p ∈ tr, p.1.Admissible p.2) ∧ t.streams 1 = none) (by decide +kernel)
  exact ⟨tr, t, he, h1, (released_run hr hok t (last_visited ..)).1⟩

end Session

end Smux
