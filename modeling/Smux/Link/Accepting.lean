import Smux.Link.Order
import Smux.Session.Opening

/-!
# Accepting what the other side opens

`opensInOrder`: whatever the two sessions and the transport do, the streams
that one side accepts are those that the other has opened, each once and in
the order in which their SYNs were queued, and no SYN is refused.
-/

namespace Smux.Link

open Runs

/-- The id of the stream that a side accepts in a step. -/
def acceptedId (side : Side) : Link × Act → Option UInt32
  | (u, .session s call) => if s = side then Session.acceptedId ((u side).session, call) else none
  | _ => none

def acceptedIds (side : Side) (tr : List (Link × Act)) : List UInt32 :=
  tr.filterMap (acceptedId side)

/-- Everything the other side has queued was decoded and, if it was a SYN,
accepted. -/
structure Drained (link : Link) (side : Side) : Prop where
  channelOpen : (link side.other).session.channelOpen
  frames : (link side.other).session.frames = []
  wire : (link side.other).wire = []
  buf : (link side).buf = []
  unaccepted : (link side).session.unaccepted = []

/-- The SYNs in the frame channel are those of `open_stream`. -/
structure OpensInOrder (tr : List (Link × Act)) (t : Link) : Prop where
  accepted : ∀ side, acceptedIds side tr <+: Session.synIds (t side.other).session.queued
  once : ∀ side, (acceptedIds side tr).Nodup
  notRefused : ∀ u side frame buf, (u, .next side) ∈ tr →
    (u side).codec.decode.run' (u side).buf = (.ok (some frame), buf) → frame.cmd = .syn →
    ((u side).session.handleSynFrame frame).1 = .ok ()
  /-- The frames of a stream whose `open_stream` returned come after its SYN. -/
  afterSyn : ∀ u side k handle, (u, .session side (.call k .opened)) ∈ tr →
    (u side).session.handles[k]? = some handle →
    ∀ earlier frame later, (t side.other).session.taken = earlier ++ frame :: later →
    frame.streamId = handle.id → frame.cmd = .psh ∨ frame.cmd = .fin →
    ∃ syn ∈ earlier, syn.cmd = .syn ∧ syn.streamId = handle.id
  /-- Frames reach `handle_frame` in the order in which they were queued. -/
  taken : ∀ side, (t side).session.taken <+: (t side.other).session.queued
  all : ∀ side, t.Drained side → acceptedIds side tr = Session.synIds (t side.other).session.queued

-- ---------------------------------------------------------------------------
-- Steps
-- ---------------------------------------------------------------------------

structure SidesAccept (config : Config) (tr : List (Link × Act)) (t : Link) : Prop where
  joined : t.Joined config
  sides : ∀ side, (t side).session.AcceptsInOrder (acceptedIds side tr)

section
variable {config : Config} {u v t : Link} {side : Side} {act : Act} {frame : Frame} {e : End}
  {tr : List (Link × Act)} {session : Session} {buf : Bytes}

theorem acceptedIds_snoc (side : Side) (tr : List (Link × Act)) (u : Link) (act : Act) :
    acceptedIds side (tr ++ [(u, act)]) = acceptedIds side tr ++ (acceptedId side (u, act)).toList := by
  cases h : acceptedId side (u, act) <;> simp [acceptedIds, h]

/-- The SYNs that a side gets are of the other side's parity. -/
theorem SidesAccept.not_refuses (h : SidesAccept config tr u)
    (hdec : (Codec.new (u side).session.config).decode.run' (u side).buf = (.ok (some frame), buf))
    (hs : (u side).session.step (.recv frame) = some session) (hc : frame.cmd = .syn) :
    ¬(u side).session.refuses frame := by
  have horderly := h.joined.orderly side
  obtain ⟨transit, rest, hway⟩ := h.joined.decoded hdec
  have hqueued : frame ∈ (u side.other).session.queued := by rw [hway.queued]; simp
  have hother := h.joined.orderly side.other
  obtain ⟨opener, hm, hid⟩ := hother.sent.owned frame hqueued (by rw [hc]; nofun)
  have hsent : frame ∈ opener.sent := by
    rw [hother.sent.sent opener hm]
    exact List.mem_filter.mpr ⟨hqueued, beq_iff_eq.mpr hid.symm⟩
  have hown := ((h.sides side.other).opens opener hm).own frame hsent hc
  rw [hother.isClient_eq, hid] at hown
  have hconforms := (h.joined.admissible_recv hdec hs).recv frame rfl
  have hvalid := (Session.recv_enabled hs).2
  refine hconforms.not_refuses horderly.ids horderly.mapped ?_ hc ?_
  · intro h0
    rw [hvalid.streamId.mp h0] at hc
    cases hc
  · rw [horderly.isClient_eq]
    exact Side.not_own_other hown

theorem sides_set (h : SidesAccept config tr u)
    (hself : e.session.AcceptsInOrder (acceptedIds side tr ++ (acceptedId side (u, act)).toList))
    (hother : acceptedId side.other (u, act) = none) :
    ∀ s, (u.set side e s).session.AcceptsInOrder (acceptedIds s (tr ++ [(u, act)])) := by
  rw [Side.forall_iff side]
  simp only [set_self, set_other, acceptedIds_snoc, hother, Option.toList_none, List.append_nil]
  exact ⟨hself, h.sides side.other⟩

theorem sidesAccept_step (hmax : config.maxFrameSize ≤ headerSize + 65535)
    (h : SidesAccept config tr u) (hids : u.idsLeft act) (hs : u.step act = some v) :
    SidesAccept config (tr ++ [(u, act)]) v := by
  refine ⟨joined_step hmax h.joined hids hs, ?_⟩
  have hown := fun side => (h.joined.orderly side).ids.ownIds
  cases step_ok hs with
  | session htakes _ hcall =>
    refine sides_set h ?_ (if_neg (Side.other_ne _).symm)
    rw [acceptedId, if_pos rfl]
    refine Session.acceptsInOrder_step (h.sides _) (hown _) (fun frame hf => ?_) hcall
    subst hf
    cases htakes
  | sent _ hpop =>
    exact sides_set h (Session.acceptsInOrder_step (h.sides _) (hown _) (by nofun) hpop) rfl
  | sendFailed hpop hend =>
    have hmid := Session.acceptsInOrder_step (h.sides _) (hown _) (by nofun) hpop
    have hids := Session.ownIds_step (hown _) (by nofun) hpop
    have hlast := Session.acceptsInOrder_step hmid hids (by nofun) hend
    rw [List.append_assoc] at hlast
    exact sides_set h hlast rfl
  | @read side n =>
    rw [Side.forall_iff side]
    simpa [acceptedIds_snoc, acceptedId] using ⟨h.sides side, h.sides side.other⟩
  | next hdec hrecv =>
    refine sides_set h (Session.acceptsInOrder_step (h.sides _) (hown _) (fun frame hf hc => ?_) hrecv) rfl
    cases hf
    exact h.not_refuses hdec hrecv hc
  | undecodable _ hclose =>
    exact sides_set h (Session.acceptsInOrder_step (h.sides _) (hown _) (by nofun) hclose) rfl

theorem sidesAccept_run (hmax : config.maxFrameSize ≤ headerSize + 65535)
    (hr : Run step (new config) tr t) (hids : ∀ p ∈ tr, p.1.idsLeft p.2) :
    SidesAccept config tr t := by
  induction hr with
  | nil => exact ⟨joined_new config, fun side => Session.acceptsInOrder_new config side.isClient⟩
  | snoc _ hs ih =>
    have h := ih fun p hp => hids p (List.mem_append_left _ hp)
    exact sidesAccept_step hmax h (hids _ (List.mem_append_right _ (List.mem_singleton.mpr rfl))) hs

theorem queued_step (hs : u.step act = some v) (side : Side) :
    (u side).session.queued <+: (v side).session.queued := by
  have hset : ∀ {s e}, (u s).session.queued <+: e.session.queued →
      (u side).session.queued <+: (u.set s e side).session.queued := by
    intro s e h
    by_cases hside : side = s
    · subst hside
      rwa [set_self]
    · have hkept : u.set s e side = u side := if_neg hside
      exact hkept ▸ List.prefix_rfl
  cases step_ok hs with
  | session _ _ hcall => exact hset (Session.queued_step hcall)
  | sent _ hpop => exact hset (Session.queued_step hpop)
  | sendFailed hpop hend =>
    exact hset ((Session.queued_step hpop).trans (Session.queued_step hend))
  | @read s n => cases side <;> cases s <;> exact List.prefix_rfl
  | next _ hrecv => exact hset (Session.queued_step hrecv)
  | undecodable _ hclose => exact hset (Session.queued_step hclose)

-- ---------------------------------------------------------------------------
-- Runs
-- ---------------------------------------------------------------------------

/-- The ids of one side are accepted on the other in order. -/
theorem SidesAccept.accepted (h : SidesAccept config tr t) (side : Side) :
    acceptedIds side tr <+: Session.synIds (t side.other).session.queued := by
  obtain ⟨more, hmore⟩ := (h.joined.fifo_in side).isPrefix_taken
  refine ⟨(t side).session.unacceptedIds ++ Session.synIds more, ?_⟩
  rw [← List.append_assoc, (h.sides side).conserved, ← Session.synIds_append, hmore]

theorem SidesAccept.all (h : SidesAccept config tr t) (hd : t.Drained side) :
    acceptedIds side tr = Session.synIds (t side.other).session.queued := by
  obtain ⟨transit, rest, hway⟩ := h.joined.fifo_in side
  have hrest : rest = [] := (hway.rest_eq hd.channelOpen).trans hd.frames
  have hbytes := hway.bytes
  rw [hd.buf, hd.wire, List.append_nil] at hbytes
  have htransit : transit = [] := by
    refine List.eq_nil_iff_forall_not_mem.mpr fun frame hf => ?_
    have hwire := List.flatMap_eq_nil_iff.mp hbytes.symm frame hf
    have hlen := Codec.length_wire frame
    rw [hwire] at hlen
    simp only [headerSize, List.length_nil] at hlen
    omega
  have hcons := (h.sides side).conserved
  rw [Session.unacceptedIds, hd.unaccepted, List.filterMap_nil, List.append_nil] at hcons
  rw [hcons, hway.queued, htransit, hrest, List.append_nil, List.append_nil]

/-- When `open_stream` returns, the SYN is queued. -/
theorem SidesAccept.syn_queued {handle : Handle} (h : SidesAccept config tr u)
    (hs : u.step (.session side (.call k .opened)) = some v)
    (hk : (u side).session.handles[k]? = some handle) :
    ∃ syn ∈ (u side).session.queued, syn.cmd = .syn ∧ syn.streamId = handle.id := by
  have hm := List.mem_of_getElem? hk
  obtain ⟨session, hcall⟩ : ∃ session, (u side).session.step (.call k .opened) = some session := by
    cases step_ok hs with
    | session _ _ hcall => exact ⟨_, hcall⟩
  obtain ⟨_, _, _, _, hk', hopened, -, -⟩ := Session.call_ok hcall
  cases hk.symm.trans hk'
  have hsent := ((h.sides side).opens handle hm).synQueued (Handle.opened_synQueued hopened)
  rw [(h.joined.orderly side).sent.sent handle hm] at hsent
  exact ⟨_, (List.mem_filter.mp hsent).1, rfl, rfl⟩

/-- What one side opens, the other accepts, whatever the order of the steps
of a run. -/
theorem opensInOrder (hmax : config.maxFrameSize ≤ headerSize + 65535)
    (hr : Run step (new config) tr t) (hids : ∀ p ∈ tr, p.1.idsLeft p.2) : OpensInOrder tr t := by
  have h := sidesAccept_run hmax hr hids
  have hbefore : ∀ {u act}, (u, act) ∈ tr → ∃ before after v, SidesAccept config before u ∧
      u.step act = some v ∧ Run step v after t := by
    intro u act hm
    obtain ⟨before, after, rfl⟩ := List.append_of_mem hm
    obtain ⟨hr, v, hs, hafter⟩ := hr.split
    exact ⟨before, after, v,
      sidesAccept_run hmax hr fun p hp => hids p (List.mem_append_left _ hp), hs, hafter⟩
  refine ⟨h.accepted, fun side => ?_, fun u side frame buf hm hdec hc => ?_, ?_,
    fun side => (h.joined.fifo_in side).isPrefix_taken, fun side => h.all⟩
  · exact (h.accepted side).sublist.nodup (Session.nodup_synIds (h.joined.orderly side.other).follows)
  · obtain ⟨before, _, v, hu, hs, -⟩ := hbefore hm
    cases step_ok hs with
    | next hdec' hrecv =>
      rw [End.codec, hdec'] at hdec
      cases hdec
      exact Session.handleSynFrame_ok.mpr (hu.not_refuses hdec' hrecv hc)
    | undecodable hdec' =>
      rw [End.codec, hdec'] at hdec
      cases hdec
  · intro u side k handle hm hk earlier frame later htaken hid hcmd
    obtain ⟨before, after, v, hu, hs, hafter⟩ := hbefore hm
    obtain ⟨syn, hsyn, hc, hsid⟩ := hu.syn_queued hs hk
    have hmono : ∀ w ∈ visited after t, (v side).session.queued <+: (w side).session.queued :=
      hafter.always List.prefix_rfl fun hp hs => hp.trans (queued_step hs side)
    have hlast := ((queued_step hs side).trans (hmono t (last_visited ..))).subset hsyn
    obtain ⟨more, hmore⟩ := (h.joined.fifo side).isPrefix_taken
    have hfollows := (h.joined.orderly side).follows
    rw [← hmore, htaken, List.append_assoc, List.cons_append] at hfollows hlast
    refine ⟨syn, Session.syn_before hfollows hlast hc (hsid.trans hid.symm) ?_, hc, hsid⟩
    rcases hcmd with hcmd | hcmd <;> rw [hcmd] <;> decide

end

/-- Two streams opened together by the client, the second first, and one by
the server. -/
def crossing : List Act :=
  [.session .client .openStream, .session .client .openStream, .session .server .openStream,
    .session .client (.register 3), .session .client (.register 1), .session .server (.register 2),
    .session .client (.call 0 .synResumed), .session .client (.call 1 .synResumed),
    .session .server (.call 0 .synResumed), .session .client (.call 0 .opened),
    .session .client (.call 0 (.pollWrite [7] true)), .send .client, .send .client, .send .server,
    .send .client, .read .client 8, .next .client, .session .client .accepted,
    .session .client .acceptStream, .read .server 20, .next .server, .session .server .accepted,
    .next .server, .session .server .accepted, .session .server .acceptStream,
    .session .server .acceptStream, .read .server 5, .next .server]

theorem opensInOrder_crossing : ∃ tr t, exec step (new .default) crossing = some (tr, t) ∧
    acceptedIds .server tr = [3, 1] ∧ acceptedIds .client tr = [2] ∧ OpensInOrder tr t := by
  obtain ⟨tr, t, he, hr, hserver, hclient, hids⟩ := exec_sat step (new .default) crossing
    (fun tr _ => acceptedIds .server tr = [3, 1] ∧ acceptedIds .client tr = [2] ∧
      ∀ p ∈ tr, p.1.idsLeft p.2) (by decide +kernel)
  exact ⟨tr, t, he, hserver, hclient, opensInOrder (by decide) hr hids⟩

end Smux.Link
