import Mathlib.Data.List.Basic
import Smux.Session.Received

/-!
# Opening and accepting streams

On the opening side, a stream whose `open_stream` has got past its await has
its SYN in the frame channel, and a SYN there has an id of one's own. On the
accepting side, the streams that `accept_stream` has returned, followed by
those waiting for it, are those of the SYNs taken, in this order.
-/

namespace Smux

theorem Handle.opened_synQueued {self : Handle}
    (h : self.step config state channelOpen .opened = some r) : self.phase = .synQueued := by
  simp only [step] at h
  split at h
  · assumption
  · cases h

/-- A stream leaves the phase `registered` with its SYN, or is dropped. -/
theorem Handle.step_syn {self self' : Handle} {state state' : SessionState}
    (h : self.step config state channelOpen act = some (self', state', frames)) :
    self'.phase ≠ .registered ∧
      (self'.phase = .synQueued → .newSyn config.version self.id ∈ frames) ∧
      ∀ frame ∈ frames, frame.cmd = .syn → self.phase = .registered := by
  rcases step_ok h with ⟨_, _, _, -, hheld, rfl, -, rfl⟩ | ⟨-, -, _, _, _, rfl, hw⟩
  · refine ⟨?_, fun hq => ?_, by rintro _ ⟨⟩⟩
    · rw [read, hheld]; decide
    · exact absurd (hheld.symm.trans hq) (by decide)
  · cases hw with
    | syn hph =>
      exact ⟨(by decide : Phase.synQueued ≠ .registered), fun _ => List.mem_singleton.mpr rfl,
        fun _ _ _ => hph⟩
    | quiet | finRefused | finPending | finAbandoned | handedOut | dropSilent =>
      exact ⟨by rintro ⟨⟩, by rintro ⟨⟩, by rintro _ ⟨⟩⟩
    | psh | fin | finResumed | dropFin =>
      refine ⟨by rintro ⟨⟩, by rintro ⟨⟩, fun frame hf hc => ?_⟩
      rw [List.mem_singleton.mp hf] at hc
      cases hc

namespace Session

def synIds (frames : List Frame) : List UInt32 :=
  (frames.filter (·.cmd = .syn)).map Frame.streamId

theorem synIds_append (frames frames' : List Frame) :
    synIds (frames ++ frames') = synIds frames ++ synIds frames' := by
  simp [synIds]

theorem nodup_synIds {frames : List Frame} (h : frames.Pairwise Follows) : (synIds frames).Nodup := by
  refine List.pairwise_map.mpr (List.Pairwise.imp_of_mem (fun _ hb hf => ?_) (h.filter _))
  exact hf.syn (of_decide_eq_true (List.mem_filter.mp hb).2)

/-- A SYN comes before the other frames of its id. -/
theorem syn_before {earlier later : List Frame} {frame syn : Frame}
    (h : (earlier ++ frame :: later).Pairwise Follows) (hsyn : syn ∈ earlier ++ frame :: later)
    (hc : syn.cmd = .syn) (hid : syn.streamId = frame.streamId) (hne : frame.cmd ≠ .syn) :
    syn ∈ earlier := by
  rcases List.mem_append.mp hsyn with he | hl
  · exact he
  · exfalso
    rcases List.mem_cons.mp hl with rfl | hl
    · exact hne hc
    · have hafter := (List.pairwise_cons.mp (List.pairwise_append.mp h).2.1).1 syn hl
      exact hafter.syn hc hid.symm

-- ---------------------------------------------------------------------------
-- The opening side
-- ---------------------------------------------------------------------------

/-- A stream that queues its SYN has an id of one's own. -/
structure Opens (session : Session) (handle : Handle) : Prop where
  registered : handle.phase = .registered → Own session.isClient handle.id
  synQueued : handle.phase = .synQueued →
    .newSyn session.config.version handle.id ∈ handle.sent
  own : ∀ frame ∈ handle.sent, frame.cmd = .syn → Own session.isClient handle.id

section
variable {config : Config} {side : Bool} {u v : Session} {act : Act} {frame : Frame}

theorem opens_step (h : ∀ handle ∈ u.handles, u.Opens handle) (hi : u.OwnIds)
    (hs : u.step act = some v) : ∀ handle ∈ v.handles, v.Opens handle := by
  have hrole := step_isClient hs
  have hconfig := step_config hs
  intro handle' hm
  rcases step_mem hs hm with ⟨handle, hm, hstep⟩ | ⟨streamId, phase, rfl, hnew⟩
  · obtain ⟨hreg, hqueued, hown⟩ := h handle hm
    rw [← hrole] at hreg hown
    rw [← hconfig] at hqueued
    cases hstep with
    | same | delivered | disconnected => exact ⟨hreg, hqueued, hown⟩
    | called _ hcall =>
      obtain ⟨hnot, hsyn, hphase⟩ := Handle.step_syn hcall
      obtain ⟨hsent, -⟩ := Handle.step_sent hcall
      have hid := (Handle.step_frame hcall).2.1
      refine ⟨fun hr => absurd hr hnot, fun hq => ?_, fun frame hf hc => ?_⟩
      · rw [hsent, hid, hconfig]
        exact List.mem_append_right _ (hsyn hq)
      · rw [hsent] at hf
        rw [hid]
        rcases List.mem_append.mp hf with hf | hf
        · exact hown frame hf hc
        · exact hreg (hphase frame hf hc)
  · refine ⟨fun hr => ?_, fun hq => ?_, nofun⟩
    · cases hnew with
      | registered hal => exact hrole ▸ (hi.allocated _ hal).1
      | incoming => cases hr
    · cases hnew <;> cases hq

end

-- ---------------------------------------------------------------------------
-- The accepting side
-- ---------------------------------------------------------------------------

/-- The streams on their way to `accept_stream`, the one of the SYN that
`handle_syn_frame` has in hand included. -/
def unaccepted (self : Session) : List Nat :=
  self.incoming ++ match self.handling with
    | some (.accepting handle) => [handle]
    | _ => []

def unacceptedIds (self : Session) : List UInt32 := self.unaccepted.filterMap self.idAt

/-- The id of the stream that a step accepts. -/
def acceptedId : Session × Act → Option UInt32
  | (u, .acceptStream) => u.incoming.head?.bind u.idAt
  | _ => none

section
variable {u v w : Session} {act : Act} {frame : Frame}

theorem peer_of_not_own {streamId : UInt32} (h0 : streamId ≠ 0) (h : ¬Own u.isClient streamId) :
    u.validatePeerStreamId streamId = .ok () := by
  have hparity : streamId % 2 = 0 ∨ streamId % 2 = 1 := by
    rw [← UInt32.toNat_inj, ← UInt32.toNat_inj, UInt32.toNat_mod]
    exact Nat.mod_two_eq_zero_or_one _
  unfold Own at h
  rcases hparity with hp | hp <;> cases hc : u.isClient <;>
    simp [hc, hp] at h <;> simp [validatePeerStreamId, h0, hc, hp]

/-- A step that takes no SYN leaves those waiting, or hands out the first of
them. -/
theorem step_unaccepted (hs : u.step act = some v) :
    v.unaccepted = u.unaccepted ∧ acceptedId (u, act) = none ∧ synIds act.takes = [] ∨
    (∃ k, act = .acceptStream ∧ u.incoming = k :: v.incoming ∧ u.unaccepted = k :: v.unaccepted) ∨
    ∃ frame, act = .recv frame ∧ frame.cmd = .syn ∧
      (u.refuses frame ∧ v.unaccepted = u.unaccepted ∨
        ¬u.refuses frame ∧ v.unaccepted = u.unaccepted ++ [u.handles.length] ∧
          v.idAt u.handles.length = some frame.streamId) := by
  have hrecv : ∀ {frame : Frame}, frame.cmd ≠ .syn → synIds [frame] = [] := by
    intro frame hc
    simp [synIds, hc]
  cases step_ok hs with
  | called hcall =>
    cases hcall with
    | call => exact .inl ⟨rfl, rfl, rfl⟩
    | accept hin => exact .inr (.inl ⟨_, rfl, hin, by simp [unaccepted, hin, queue]⟩)
  | @ignored frame hn hv hcase =>
    have hw : (u.received.finish frame).unaccepted = u.unaccepted := by
      simp [unaccepted, finish, received, hn]
    rcases hcase with hc | ⟨_, _, hc⟩ | ⟨hc, -⟩ | ⟨hc, hr⟩
    · exact .inl ⟨hw, rfl, hrecv (by rw [hc]; rintro ⟨⟩)⟩
    · exact .inl ⟨hw, rfl, hrecv (by rw [hc]; rintro ⟨⟩)⟩
    · exact .inl ⟨hw, rfl, hrecv (by rw [hc]; rintro ⟨⟩)⟩
    · exact .inr (.inr ⟨_, rfl, hc, .inl ⟨hr, hw⟩⟩)
  | syn hn _ hc hr =>
    refine .inr (.inr ⟨_, rfl, hc, .inr ⟨hr, ?_, ?_⟩⟩)
    · simp [unaccepted, hn, insertStream, received]
    · simp [idAt, insertStream, length_dropEntry, received, Handle.new, Handle.id, Stream.new]
  | fin hn _ hc =>
    exact .inl ⟨by simp [unaccepted, finish, removeStream, received, hn], rfl,
      hrecv (by rw [hc]; rintro ⟨⟩)⟩
  | psh hp hpsh =>
    cases hp with
    | first hn _ hc =>
      refine .inl ⟨?_, rfl, hrecv (by rw [hc]; rintro ⟨⟩)⟩
      cases hpsh <;> simp [unaccepted, finish, removeStream, received, hn]
    | again hn =>
      refine .inl ⟨?_, rfl, rfl⟩
      cases hpsh <;> simp [unaccepted, finish, removeStream, hn]
  | accepted hn => exact .inl ⟨by simp [unaccepted, hn], rfl, rfl⟩
  | sessionClosing hn => exact .inl ⟨by simp [unaccepted, finish, hn], rfl, rfl⟩
  | _ => exact .inl ⟨rfl, rfl, rfl⟩

theorem idAt_unaccepted (h : ∀ k ∈ u.unaccepted, k < u.handles.length) (hs : u.step act = some v) :
    u.unaccepted.filterMap v.idAt = u.unacceptedIds :=
  List.filterMap_congr fun k hk => idAt_step hs (h k hk)

/-- No stream is lost or overtaken between its SYN and `accept_stream`. -/
theorem unacceptedIds_step (h : ∀ k ∈ u.unaccepted, k < u.handles.length) (hs : u.step act = some v)
    (hok : ∀ frame, act = .recv frame → frame.cmd = .syn → ¬u.refuses frame) :
    (∀ k ∈ v.unaccepted, k < v.handles.length) ∧
      (acceptedId (u, act)).toList ++ v.unacceptedIds = u.unacceptedIds ++ synIds act.takes := by
  have hlen := length_step hs
  have hids := idAt_unaccepted h hs
  rcases step_unaccepted hs with ⟨hw, hacc, hsyn⟩ | ⟨k, rfl, hin, hw⟩ | ⟨frame, rfl, hc, hframe⟩
  · refine ⟨fun k hk => Nat.lt_of_lt_of_le (h k (hw ▸ hk)) hlen, ?_⟩
    rw [hacc, hsyn, unacceptedIds, hw, hids, Option.toList_none, List.nil_append, List.append_nil]
  · have hk := h k (hw ▸ List.mem_cons_self)
    refine ⟨fun j hj => Nat.lt_of_lt_of_le (h j (hw ▸ List.mem_cons_of_mem _ hj)) hlen, ?_⟩
    have hid : acceptedId (u, .acceptStream) = v.idAt k := by
      rw [acceptedId, hin, List.head?_cons, Option.bind_some, idAt_step hs hk]
    rw [hw, List.filterMap_cons] at hids
    have hsyn : synIds Act.acceptStream.takes = [] := rfl
    rw [hid, ← hids, hsyn, List.append_nil, unacceptedIds]
    cases v.idAt k <;> rfl
  · obtain ⟨hr, -⟩ | ⟨-, hw, hid⟩ := hframe
    · exact absurd hr (hok frame rfl hc)
    · have hsyn : synIds (Act.recv frame).takes = [frame.streamId] := by
        simp [synIds, Act.takes, hc]
      have hnew : u.handles.length < v.handles.length := by
        obtain ⟨handle, hk, -⟩ := Option.map_eq_some_iff.mp hid
        exact (List.getElem?_eq_some_iff.mp hk).1
      refine ⟨fun k hk => ?_, ?_⟩
      · rw [hw] at hk
        rcases List.mem_append.mp hk with hk | hk
        · exact Nat.lt_of_lt_of_le (h k hk) hlen
        · exact List.mem_singleton.mp hk ▸ hnew
      · rw [unacceptedIds, hw, List.filterMap_append, hids, hsyn, List.filterMap_cons, hid]
        rfl

/-- A SYN of a conforming peer is not refused. -/
theorem Conforms.not_refuses (h : u.Conforms frame) (hi : u.Ids)
    (hm : Mapped u.streams u.handles u.handled) (h0 : frame.streamId ≠ 0) (hc : frame.cmd = .syn)
    (hown : ¬Own u.isClient frame.streamId) : ¬u.refuses frame := by
  rintro (hr | hr)
  · exact hr (peer_of_not_own h0 hown)
  · obtain ⟨streamState, hs⟩ := Option.ne_none_iff_exists'.mp hr
    obtain ⟨handle, hk, hid⟩ := hm.entry hs
    obtain ⟨-, syn, hsyn, -, hsid⟩ := hi.peer handle (List.mem_of_getElem? hk) (hid ▸ hown)
    exact (h.follows syn hsyn).syn hc (hsid.trans hid)

/-- Both sides of a session, with the ids it has accepted so far. -/
structure AcceptsInOrder (accepted : List UInt32) (session : Session) : Prop where
  opens : ∀ handle ∈ session.handles, session.Opens handle
  inRange : ∀ k ∈ session.unaccepted, k < session.handles.length
  conserved : accepted ++ session.unacceptedIds = synIds session.taken

theorem acceptsInOrder_new (config : Config) (isClient : Bool) : (new config isClient).AcceptsInOrder [] := by
  constructor
  · simp [new]
  · simp [new, unaccepted]
  · rfl

theorem acceptsInOrder_step {accepted : List UInt32} (h : u.AcceptsInOrder accepted) (hi : u.OwnIds)
    (hok : ∀ frame, act = .recv frame → frame.cmd = .syn → ¬u.refuses frame)
    (hs : u.step act = some v) : v.AcceptsInOrder (accepted ++ (acceptedId (u, act)).toList) := by
  obtain ⟨hrange, hcons⟩ := unacceptedIds_step h.inRange hs hok
  refine ⟨opens_step h.opens hi hs, hrange, ?_⟩
  rw [List.append_assoc, hcons, ← List.append_assoc, h.conserved, step_taken hs, synIds_append]

end

end Session

end Smux
