import Smux.Link.Order
import Smux.Session.Received

/-!
# Streams between two sessions

`integrity`: whatever the two sessions and the transport do, and in whatever
order, the bytes that `poll_read` has returned for a stream id on one side are
a prefix of those `poll_write` has accepted for it on the other side, and an
end of file is read only when that side has queued a FIN and everything it
accepted was returned.
-/

namespace Smux

open Runs

namespace Session

/-- The bytes `poll_read` has returned on the stream of an id. -/
def returnedOf (self : Session) (streamId : UInt32) : Bytes :=
  (self.handles.filter (·.id == streamId)).flatMap Handle.returned

/-- The bytes `poll_write` has accepted on the stream of an id. -/
def acceptedOf (self : Session) (streamId : UInt32) : Bytes :=
  (self.handles.filter (·.id == streamId)).flatMap Handle.accepted

-- ---------------------------------------------------------------------------
-- One end
-- ---------------------------------------------------------------------------

structure Sound (config : Config) (side : Side) (session : Session) : Prop where
  config_eq : session.config = config
  isClient_eq : session.isClient = side.isClient
  receives : session.Receives
  sent : Sent session.config session.handles session.queued

section
variable {config : Config} {side : Side} {u v : Session} {act : Act} {handle handle' : Handle}

theorem sound_new (config : Config) (side : Side) : (new config side.isClient).Sound config side :=
  ⟨rfl, rfl, receives_new config side.isClient, .new config side.isClient⟩

theorem sound_step (h : u.Sound config side) (ha : u.Admissible act)
    (hread : ∀ k, act ≠ .call k (.pollRead 0)) (hs : u.step act = some v) : v.Sound config side where
  config_eq := (step_config hs).trans h.config_eq
  isClient_eq := (step_isClient hs).trans h.isClient_eq
  receives := receives_step h.receives ha hread hs
  sent := sent_step h.sent h.receives.ids h.receives.mapped ha hs

theorem Sound.orderly (h : u.Sound config side) : u.Orderly config side :=
  ⟨h.config_eq, h.isClient_eq, h.receives.ids, h.receives.mapped, h.sent⟩

theorem filter_id {handles : List Handle} (h : UniqueIds handles) (hm : handle ∈ handles) :
    handles.filter (·.id == handle.id) = [handle] := by
  induction handles with
  | nil => cases hm
  | cons x l ih =>
    have htail : UniqueIds l := fun j k a b hj hk he =>
      Nat.succ.inj (h (j := j + 1) (k := k + 1) hj hk he)
    rcases List.mem_cons.mp hm with rfl | hm
    · have hnone : l.filter (·.id == handle.id) = [] := by
        refine List.filter_eq_nil_iff.mpr fun y hy he => ?_
        obtain ⟨k, hk⟩ := List.mem_iff_getElem?.mp hy
        have := h (j := 0) (k := k + 1) rfl hk (beq_iff_eq.mp he).symm
        cases this
      rw [List.filter_cons, if_pos (beq_self_eq_true _), hnone]
    · have hne : x.id ≠ handle.id := by
        intro he
        obtain ⟨k, hk⟩ := List.mem_iff_getElem?.mp hm
        have := h (j := 0) (k := k + 1) rfl hk he
        cases this
      rw [List.filter_cons, if_neg (by simpa using hne), ih htail hm]

/-- What a stream has accepted is what is queued under its id. -/
theorem Sound.accepted_eq (h : u.Sound config side) (hm : handle ∈ u.handles) :
    payloadOf handle.id u.queued = handle.accepted := by
  obtain ⟨syn, pshs, fin, hs⟩ := h.sent.shape handle hm
  have hsyn : syn.flatMap Frame.data = [] := by rcases hs.isSyn with rfl | rfl <;> rfl
  have hfin : fin.flatMap Frame.data = [] := by rcases hs.isFin with rfl | ⟨rfl, -⟩ <;> rfl
  rw [payloadOf, ← h.sent.sent handle hm, hs.sent, List.flatMap_append, List.flatMap_append, hsyn,
    hfin, hs.accepted, List.nil_append, List.append_nil]

theorem Sound.handle_of_data (h : u.Sound config side) (hf : frame ∈ u.queued)
    (hd : frame.data ≠ []) : ∃ handle ∈ u.handles, handle.id = frame.streamId := by
  refine h.sent.owned frame hf fun hc => ?_
  obtain ⟨version, rfl⟩ := h.sent.nop frame hf hc
  exact hd rfl

theorem Sound.acceptedOf_eq (h : u.Sound config side) (streamId : UInt32) :
    u.acceptedOf streamId = payloadOf streamId u.queued := by
  rcases Classical.em (∃ handle ∈ u.handles, handle.id = streamId) with ⟨handle, hm, rfl⟩ | hno
  · rw [acceptedOf, filter_id h.receives.ids.unique hm, h.accepted_eq hm, List.flatMap_singleton]
  · have hnone : u.handles.filter (·.id == streamId) = [] :=
      List.filter_eq_nil_iff.mpr fun handle hm he => hno ⟨handle, hm, beq_iff_eq.mp he⟩
    have hempty : payloadOf streamId u.queued = [] := by
      refine payloadOf_eq_nil fun frame hf hd hid => ?_
      obtain ⟨handle, hm, he⟩ := h.handle_of_data hf hd
      exact hno ⟨handle, hm, he.trans hid⟩
    rw [acceptedOf, hnone, hempty, List.flatMap_nil]

theorem Sound.isPrefix_returnedOf (h : u.Sound config side) (streamId : UInt32) :
    u.returnedOf streamId <+: payloadOf streamId u.handled := by
  rcases Classical.em (∃ handle ∈ u.handles, handle.id = streamId) with ⟨handle, hm, rfl⟩ | hno
  · rw [returnedOf, filter_id h.receives.ids.unique hm, List.flatMap_singleton]
    exact h.receives.delivery.returned handle hm
  · have hnone : u.handles.filter (·.id == streamId) = [] :=
      List.filter_eq_nil_iff.mpr fun handle hm he => hno ⟨handle, hm, beq_iff_eq.mp he⟩
    rw [returnedOf, hnone, List.flatMap_nil]
    exact List.nil_prefix

/-- An end of file is read when the FIN was handled and everything before it
returned. -/
theorem Sound.eof (h : u.Sound config side) (hm : handle ∈ u.handles) (hheld : handle.phase = .held)
    (hroom : room ≠ 0) (hres : (handle.stream.pollRead u.state room).1 = .ready (.ok [])) :
    handle.returned = payloadOf handle.id u.handled ∧
      ∃ fin ∈ u.handled, fin.cmd = .fin ∧ fin.streamId = handle.id := by
  have hintact := h.receives.delivery.intact handle hm
  have hlive : handle.phase ≠ .dropped := by rw [hheld]; decide
  cases hc : u.state.closed with
  | true =>
    rw [Stream.pollRead_of_closed hintact.readOpen hc] at hres
    cases hres
  | false =>
    obtain ⟨this', state', hread⟩ := Stream.read_of_result hintact.chunks hres
    rcases hread.eof_of_ready hroom with hclosed | ⟨hun, hrx⟩
    · rw [hintact.readOpen] at hclosed
      cases hclosed
    · refine ⟨?_, h.receives.mapped.fin handle hm hlive (by rw [hrx])⟩
      have hdel := h.receives.delivery.delivered hc handle hm hlive
      have hall := hintact.conserved
      rw [hun, List.append_nil] at hall
      exact hall.trans hdel

theorem Sound.fin_sent (h : u.Sound config side) (hf : frame ∈ u.queued) (hc : frame.cmd = .fin) :
    ∃ handle ∈ u.handles, handle.id = frame.streamId ∧
      .newFin 1 frame.streamId ∈ handle.sent := by
  obtain ⟨handle, hm, hid⟩ := h.sent.owned frame hf (by rw [hc]; nofun)
  refine ⟨handle, hm, hid, ?_⟩
  have hmem : frame ∈ handle.sent := by
    rw [h.sent.sent handle hm]
    exact List.mem_filter.mpr ⟨hf, beq_iff_eq.mpr hid.symm⟩
  obtain ⟨syn, pshs, fin, hs⟩ := h.sent.shape handle hm
  rw [hs.sent] at hmem
  rcases List.mem_append.mp hmem with hmem | hmem
  · exfalso
    rcases List.mem_append.mp hmem with hmem | hmem
    · rcases hs.isSyn with rfl | rfl
      · cases hmem
      · rw [List.mem_singleton.mp hmem] at hc; cases hc
    · obtain ⟨data, rfl⟩ := hs.isPsh frame hmem
      cases hc
  · rcases hs.isFin with rfl | ⟨rfl, -⟩
    · cases hmem
    · rw [hs.sent, ← hid]
      exact List.mem_append_right _ (List.mem_singleton.mpr rfl)

end

end Session

-- ---------------------------------------------------------------------------
-- Both ends
-- ---------------------------------------------------------------------------

section
variable {config : Config} {side : Side} {sender receiver : Session} {wire buf : Bytes}
  {frame : Frame} {transit rest : List Frame} {handle : Handle}

open Session

theorem payloadOf_of_fin (hs : sender.Sound config side) (htaken : receiver.taken <+: sender.queued)
    (hf : frame ∈ receiver.handled) (hc : frame.cmd = .fin) :
    payloadOf frame.streamId receiver.handled = payloadOf frame.streamId sender.queued := by
  obtain ⟨more, hmore⟩ := htaken
  have hfollows := hs.sent.follows hs.receives.ids.ne_zero
  rw [← hmore, taken, List.append_assoc] at hfollows ⊢
  have hnone : payloadOf frame.streamId (receiver.pending ++ more) = [] :=
    payloadOf_eq_nil fun later hl _ hid =>
      ((List.pairwise_append.mp hfollows).2.2 frame hf later hl).fin hc hid.symm
  rw [payloadOf_append, hnone, List.append_nil]

end

namespace Link

/-- No `poll_read` is made into a full buffer. -/
def Act.hasRoom : Act → Bool
  | .session _ (.call _ (.pollRead room)) => room ≠ 0
  | _ => true

structure Inv (config : Config) (link : Link) : Prop where
  sound : ∀ side, (link side).session.Sound config side
  fifo : ∀ side, Fifo config (link side).session (link side).wire (link side.other).buf
    (link side.other).session

section
variable {config : Config} {u v : Link} {side : Side} {act : Act} {e e' : End}

theorem inv_new (config : Config) : (new config).Inv config :=
  ⟨fun side => Session.sound_new config side, fun side => Fifo.new config side⟩

theorem Inv.joined (h : u.Inv config) : u.Joined config :=
  ⟨fun side => (h.sound side).orderly, h.fifo⟩

theorem sound_set (h : u.Inv config) (hsound : e.session.Sound config side) :
    ∀ s, (u.set side e s).session.Sound config s := by
  rw [Side.forall_iff side]
  simpa using ⟨hsound, h.sound side.other⟩

theorem sound_step (h : u.Inv config) (hids : u.idsLeft act) (hroom : act.hasRoom)
    (hs : u.step act = some v) : ∀ side, (v side).session.Sound config side := by
  cases step_ok hs with
  | session htakes _ hcall =>
    refine sound_set h
      (Session.sound_step (h.sound _) (admissible_of_idsLeft hids htakes) ?_ hcall)
    rintro k rfl
    cases hroom
  | sent _ hpop =>
    exact sound_set h
      (Session.sound_step (h.sound _) (Session.admissible_of_loop rfl rfl) (by nofun) hpop)
  | sendFailed hpop hend =>
    have hmid := Session.sound_step (h.sound _) (Session.admissible_of_loop rfl rfl) (by nofun) hpop
    exact sound_set h
      (Session.sound_step hmid (Session.admissible_of_loop rfl rfl) (by nofun) hend)
  | @read side n =>
    rw [Side.forall_iff side]
    simpa using ⟨h.sound side, h.sound side.other⟩
  | next hdec hrecv =>
    exact sound_set h
      (Session.sound_step (h.sound _) (h.joined.admissible_recv hdec hrecv) (by nofun) hrecv)
  | undecodable hdec hclose =>
    exact sound_set h
      (Session.sound_step (h.sound _) (Session.admissible_of_loop rfl rfl) (by nofun) hclose)

theorem inv_step (hmax : config.maxFrameSize ≤ headerSize + 65535) (h : u.Inv config)
    (hids : u.idsLeft act) (hroom : act.hasRoom) (hs : u.step act = some v) : v.Inv config :=
  ⟨sound_step h hids hroom hs, (joined_step hmax h.joined hids hs).fifo⟩

end

-- ---------------------------------------------------------------------------
-- Streams from end to end
-- ---------------------------------------------------------------------------

/-- What the application sees at both ends. -/
structure Integrity (link : Link) : Prop where
  /-- An id names one stream of a side. -/
  unique : ∀ side, Session.UniqueIds (link side).session.handles
  data : ∀ side streamId,
    (link side).session.returnedOf streamId <+: (link side.other).session.acceptedOf streamId
  /-- An end of file, read with room in the buffer. -/
  eof : ∀ side, ∀ handle ∈ (link side).session.handles, handle.phase = .held → ∀ room, room ≠ 0 →
    (handle.stream.pollRead (link side).session.state room).1 = .ready (.ok []) →
    ∃ peer ∈ (link side.other).session.handles, peer.id = handle.id ∧
      .newFin 1 handle.id ∈ peer.sent ∧ handle.returned = peer.accepted

theorem integrity_of_inv {config : Config} {link : Link} (h : link.Inv config) : link.Integrity where
  unique side := (h.sound side).receives.ids.unique
  data side streamId := by
    have hfifo := (h.fifo side.other).isPrefix_taken
    rw [Side.other_other] at hfifo
    rw [(h.sound side.other).acceptedOf_eq]
    exact ((h.sound side).isPrefix_returnedOf streamId).trans
      (Session.payloadOf_mono ((List.prefix_append ..).trans hfifo))
  eof side handle hm hheld room hroom hres := by
    have hfifo := (h.fifo side.other).isPrefix_taken
    rw [Side.other_other] at hfifo
    obtain ⟨hreturned, fin, hf, hc, hid⟩ := (h.sound side).eof hm hheld hroom hres
    have hqueued := hfifo.subset (List.mem_append_left _ hf)
    obtain ⟨peer, hpeer, hpid, hsent⟩ := (h.sound side.other).fin_sent hqueued hc
    refine ⟨peer, hpeer, hpid.trans hid, hid ▸ hsent, ?_⟩
    rw [hreturned, ← hid, payloadOf_of_fin (h.sound side.other) hfifo hf hc, ← hpid,
      (h.sound side.other).accepted_eq hpeer]

/-- Streams are intact in every state of a run, whatever the order of its
steps. -/
theorem integrity {config : Config} (hmax : config.maxFrameSize ≤ headerSize + 65535)
    (hr : Run step (new config) tr t) (hids : ∀ p ∈ tr, p.1.idsLeft p.2)
    (hroom : ∀ p ∈ tr, p.2.hasRoom) : ∀ u ∈ visited tr t, u.Integrity := by
  have hok : ∀ p ∈ tr, p.1.idsLeft p.2 ∧ p.2.hasRoom := fun p hp => ⟨hids p hp, hroom p hp⟩
  have hinv := hr.invariant hok (inv_new config) fun h ho hs => inv_step hmax h ho.1 ho.2 hs
  exact fun u hu => integrity_of_inv (hinv u hu)

/-- A stream is opened, written and shut down by the client, and read to its
end by the server, with the bytes arriving in three pieces. -/
def transfer : List Act :=
  [.session .client .openStream, .session .client (.register 1),
    .session .client (.call 0 .synResumed), .session .client (.call 0 .opened),
    .session .client (.call 0 (.pollWrite [1, 2, 3] true)), .send .client, .send .client,
    .read .server 5, .read .server 8, .next .server, .session .server .accepted,
    .session .server .acceptStream, .read .server 6, .next .server,
    .session .server (.call 0 (.pollRead 2)), .session .client (.call 0 (.pollShutdown true)),
    .send .client, .read .server 8, .next .server, .session .server (.call 0 (.pollRead 2)),
    .session .server (.call 0 (.pollRead 2))]

theorem integrity_transfer : ∃ tr t, exec step (new .default) transfer = some (tr, t) ∧
    (t .server).session.returnedOf 1 = [1, 2, 3] ∧ ∀ u ∈ visited tr t, u.Integrity := by
  obtain ⟨tr, t, he, hr, hret, hids, hroom⟩ := exec_sat step (new .default) transfer
    (fun tr t => (t .server).session.returnedOf 1 = [1, 2, 3] ∧ (∀ p ∈ tr, p.1.idsLeft p.2) ∧
      ∀ p ∈ tr, p.2.hasRoom) (by decide +kernel)
  exact ⟨tr, t, he, hret, integrity (by decide) hr hids hroom⟩

end Link

end Smux
