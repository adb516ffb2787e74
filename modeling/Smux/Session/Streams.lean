import Smux.Session.StreamIds

/-!
# The streams of a session

Before its ids run out, and for as long as the peer's frames come in the
order a stream sends them, a session has one handle for each stream id, and
its streams map leads from the id of a live stream to its handle until the
FIN of the stream is handled.
-/

namespace Smux.Session

-- ---------------------------------------------------------------------------
-- Frames in the order a stream sends them
-- ---------------------------------------------------------------------------

/-- `frame` may come after `earlier`: a SYN is the first frame of its id, and
a FIN the last. -/
structure Follows (earlier frame : Frame) : Prop where
  syn : frame.cmd = .syn → earlier.streamId ≠ frame.streamId
  fin : earlier.cmd = .fin → earlier.streamId ≠ frame.streamId

/-- `frame` continues the frames handled so far as a peer's streams send them;
one of an id of one's own needs a stream that was opened here. -/
structure Conforms (u : Session) (frame : Frame) : Prop where
  follows : ∀ earlier ∈ u.handled, Follows earlier frame
  own : frame.cmd ≠ .nop → Own u.isClient frame.streamId →
    ∃ handle ∈ u.handles, handle.id = frame.streamId

/-- A step in a run with a conforming peer and ids left. -/
structure Admissible (u : Session) (act : Act) : Prop where
  ids : ∀ e, idResult (u, act) ≠ some (.error e)
  recv : ∀ frame, act = .recv frame → u.Conforms frame

-- ---------------------------------------------------------------------------
-- Ids
-- ---------------------------------------------------------------------------

def Fetched (session : Session) (streamId : UInt32) : Prop :=
  Own session.isClient streamId ∧ streamId ≠ 0 ∧ streamId < session.idCounter

def UniqueIds (handles : List Handle) : Prop :=
  ∀ ⦃j k : Nat⦄ ⦃handle handle' : Handle⦄, handles[j]? = some handle →
    handles[k]? = some handle' → handle.id = handle'.id → j = k

/-- The ids of one's own come from the counter, each once. -/
structure OwnIds (session : Session) : Prop where
  counter : Own session.isClient session.idCounter ∧ session.idCounter ≠ 0
  allocated : ∀ i ∈ session.allocated, session.Fetched i
  distinct : session.allocated.Nodup
  unregistered : ∀ i ∈ session.allocated, ∀ handle ∈ session.handles, handle.id ≠ i
  own : ∀ handle ∈ session.handles, Own session.isClient handle.id → session.Fetched handle.id

/-- Handles have distinct ids: those of one's own come from the counter, those
of the peer from a SYN. -/
structure Ids (session : Session) : Prop where
  counter : Own session.isClient session.idCounter ∧ session.idCounter ≠ 0
  allocated : ∀ i ∈ session.allocated, session.Fetched i
  distinct : session.allocated.Nodup
  unregistered : ∀ i ∈ session.allocated, ∀ handle ∈ session.handles, handle.id ≠ i
  unique : UniqueIds session.handles
  own : ∀ handle ∈ session.handles, Own session.isClient handle.id → session.Fetched handle.id
  peer : ∀ handle ∈ session.handles, ¬Own session.isClient handle.id →
    handle.id ≠ 0 ∧ ∃ frame ∈ session.handled, frame.cmd = .syn ∧ frame.streamId = handle.id

section
variable {u v : Session} {act : Act} {streamId : UInt32} {phase : Phase}

theorem Ids.ownIds (h : u.Ids) : u.OwnIds :=
  ⟨h.counter, h.allocated, h.distinct, h.unregistered, h.own⟩

theorem ids_new (config : Config) (isClient : Bool) : (new config isClient).Ids where
  counter := by cases isClient <;> simp [new, Own]
  allocated := by simp [new]
  distinct := List.nodup_nil
  unregistered := by simp [new]
  unique _ _ _ _ h := by simp [new] at h
  own := by simp [new]
  peer := by simp [new]

/-- The counter does not wrap before the ids run out. -/
theorem counter_step (hn : ∀ e, idResult (u, act) ≠ some (.error e)) (hs : u.step act = some v) :
    v.idCounter = u.idCounter ∨ v.idCounter.toNat = u.idCounter.toNat + 2 := by
  rcases step_idCounter hs with ⟨hc, -⟩ | ⟨hc, hi⟩
  · exact .inl hc
  · right
    have hle : ¬u.idCounter > 0xFFFFFFFF - 2 := by
      intro hgt
      rw [idOf, if_pos hgt] at hi
      exact hn _ hi
    rw [gt_iff_lt, UInt32.lt_iff_toNat_lt] at hle
    rw [hc, UInt32.toNat_add]
    simp at hle ⊢
    omega

theorem own_of_toNat {isClient : Bool} {i j : UInt32} (h : Own isClient i)
    (he : j.toNat = i.toNat + 2) : Own isClient j := by
  unfold Own at *
  rw [← h]
  apply UInt32.toNat_inj.mp
  rw [UInt32.toNat_mod, UInt32.toNat_mod, he]
  simp

theorem fetched_step (hn : ∀ e, idResult (u, act) ≠ some (.error e)) (hs : u.step act = some v)
    (h : u.Fetched streamId) : v.Fetched streamId := by
  obtain ⟨hown, h0, hlt⟩ := h
  refine ⟨by rwa [step_isClient hs], h0, ?_⟩
  rcases counter_step hn hs with hc | hc
  · rwa [hc]
  · rw [UInt32.lt_iff_toNat_lt] at hlt ⊢
    omega

theorem peer_of_not_refuses {frame : Frame} (hr : ¬u.refuses frame) :
    u.validatePeerStreamId frame.streamId = .ok () :=
  Classical.not_not.mp fun h => hr (.inl h)

theorem NewHandle.fresh (h : u.Ids) (ha : u.Admissible act)
    (hnew : NewHandle u act streamId phase) : ∀ handle ∈ u.handles, handle.id ≠ streamId := by
  intro handle hm
  cases hnew with
  | registered hi => exact h.unregistered _ hi handle hm
  | incoming hc hr =>
    rintro hid
    have hnot : ¬Own u.isClient handle.id :=
      hid ▸ not_own_of_peer (peer_of_not_refuses hr)
    obtain ⟨-, syn, hsyn, -, he⟩ := h.peer handle hm hnot
    exact ((ha.recv _ rfl).follows syn hsyn).syn hc (he.trans hid)

theorem recv_handled {frame : Frame} (hc : frame.cmd ≠ .psh)
    (hs : u.step (.recv frame) = some v) : v.handled = u.handled ++ [frame] := by
  cases step_ok hs with
  | called hcall => cases hcall
  | psh hp =>
    cases hp with
    | first _ _ h => exact absurd h hc
  | _ => rfl

theorem peer_ne_zero (h : u.validatePeerStreamId streamId = .ok ()) : streamId ≠ 0 := by
  rintro rfl
  simp [validatePeerStreamId] at h

/-- Allocated ids, after a step: those before, and the one the counter gives. -/
theorem mem_allocated (hs : u.step act = some v) (hi : streamId ∈ v.allocated) :
    streamId ∈ u.allocated ∨ streamId = u.idCounter ∧ idResult (u, act) = some (.ok u.idCounter) := by
  rcases step_allocated hs with ⟨ha, -⟩ | ⟨i, -, hr, rfl, ha⟩ | ⟨i, -, -, ha⟩ <;> rw [ha] at hi
  · exact .inl hi
  · rcases List.mem_cons.mp hi with rfl | hi
    · exact .inr ⟨rfl, hr⟩
    · exact .inl hi
  · exact .inl (List.mem_of_mem_erase hi)

section
variable (h : u.OwnIds) (hn : ∀ e, idResult (u, act) ≠ some (.error e)) (hs : u.step act = some v)
include h hn hs

theorem counter_ids : Own v.isClient v.idCounter ∧ v.idCounter ≠ 0 := by
  obtain ⟨hown, h0⟩ := h.counter
  rw [step_isClient hs]
  rcases counter_step hn hs with hc | hc
  · rw [hc]; exact ⟨hown, h0⟩
  · refine ⟨own_of_toNat hown hc, ?_⟩
    intro hz
    rw [hz] at hc
    simp at hc

theorem fetched_next (hi : idResult (u, act) = some (.ok u.idCounter)) : v.Fetched u.idCounter := by
  refine ⟨step_isClient hs ▸ h.counter.1, h.counter.2, ?_⟩
  rcases counter_step hn hs with hc | hc
  · rcases step_idCounter hs with ⟨-, hnone⟩ | ⟨hc', -⟩
    · rw [hi] at hnone; cases hnone
    · have := congrArg UInt32.toNat (hc.symm.trans hc')
      simp [UInt32.toNat_add] at this
      omega
  · rw [UInt32.lt_iff_toNat_lt]; omega

theorem allocated_ids : ∀ i ∈ v.allocated, v.Fetched i := by
  intro i hi
  rcases mem_allocated hs hi with hi | ⟨rfl, hr⟩
  · exact fetched_step hn hs (h.allocated i hi)
  · exact fetched_next h hn hs hr

omit hn in
theorem distinct_ids : v.allocated.Nodup := by
  rcases step_allocated hs with ⟨hal, -⟩ | ⟨i, -, -, rfl, hal⟩ | ⟨i, -, -, hal⟩ <;> rw [hal]
  · exact h.distinct
  · refine List.nodup_cons.mpr ⟨fun hm => ?_, h.distinct⟩
    exact absurd (h.allocated _ hm).2.2 (UInt32.lt_irrefl _)
  · exact h.distinct.erase i

theorem unregistered_ids : ∀ i ∈ v.allocated, ∀ handle ∈ v.handles, handle.id ≠ i := by
  intro i hi handle' hm
  rcases step_mem hs hm with ⟨handle, hm, hstep⟩ | ⟨streamId, phase, rfl, hnew⟩
  · rw [hstep.id_eq]
    rcases mem_allocated hs hi with hi | ⟨rfl, -⟩
    · exact h.unregistered i hi handle hm
    · -- the counter has given out the ids of handles only
      intro he
      obtain ⟨-, -, hlt⟩ := h.own handle hm (he ▸ h.counter.1)
      rw [he] at hlt
      exact UInt32.lt_irrefl _ hlt
  · rintro rfl
    cases hnew with
    | registered hreg =>
      rcases step_allocated hs with ⟨-, hne⟩ | ⟨_, hact, -⟩ | ⟨i, hact, -, hal⟩
      · exact hne _ rfl
      · cases hact
      · cases hact
        rw [hal] at hi
        exact h.distinct.not_mem_erase hi
    | incoming _ hr =>
      have hown := (allocated_ids h hn hs _ hi).1
      rw [step_isClient hs] at hown
      exact not_own_of_peer (peer_of_not_refuses hr) hown

theorem own_ids : ∀ handle ∈ v.handles, Own v.isClient handle.id → v.Fetched handle.id := by
  intro handle' hm hown
  have hrole := step_isClient hs
  rcases step_mem hs hm with ⟨handle, hm, hstep⟩ | ⟨streamId, phase, rfl, hnew⟩
  · rw [hstep.id_eq] at hown ⊢
    exact fetched_step hn hs (h.own handle hm (hrole ▸ hown))
  · cases hnew with
    | registered hi => exact fetched_step hn hs (h.allocated _ hi)
    | incoming _ hr => exact absurd (hrole ▸ hown) (not_own_of_peer (peer_of_not_refuses hr))

theorem ownIds_step : v.OwnIds where
  counter := counter_ids h hn hs
  allocated := allocated_ids h hn hs
  distinct := distinct_ids h hs
  unregistered := unregistered_ids h hn hs
  own := own_ids h hn hs

end

section
variable (h : u.Ids) (ha : u.Admissible act) (hs : u.step act = some v)
include h ha hs

theorem unique_ids : UniqueIds v.handles := by
  intro j k handle handle' hj hk hid
  rcases step_handle hs hj with ⟨x, hx, hxs⟩ | ⟨hj', _, _, rfl, hnew⟩ <;>
    rcases step_handle hs hk with ⟨y, hy, hys⟩ | ⟨hk', _, _, rfl, hnew'⟩
  · rw [hxs.id_eq, hys.id_eq] at hid
    exact h.unique hx hy hid
  · rw [hxs.id_eq] at hid
    exact absurd hid (hnew'.fresh h ha x (List.mem_of_getElem? hx))
  · rw [hys.id_eq] at hid
    exact absurd hid.symm (hnew.fresh h ha y (List.mem_of_getElem? hy))
  · rw [hj', hk']

theorem peer_ids : ∀ handle ∈ v.handles, ¬Own v.isClient handle.id → handle.id ≠ 0 ∧
    ∃ frame ∈ v.handled, frame.cmd = .syn ∧ frame.streamId = handle.id := by
  intro handle' hm hown
  have hrole := step_isClient hs
  rcases step_mem hs hm with ⟨handle, hm, hstep⟩ | ⟨streamId, phase, rfl, hnew⟩
  · rw [hstep.id_eq] at hown ⊢
    obtain ⟨h0, syn, hsyn, hc⟩ := h.peer handle hm (hrole ▸ hown)
    exact ⟨h0, syn, (step_handled hs).subset hsyn, hc⟩
  · cases hnew with
    | registered hi => exact absurd (h.allocated _ hi).1 (hrole ▸ hown)
    | @incoming frame hc hr =>
      refine ⟨peer_ne_zero (peer_of_not_refuses hr), frame, ?_, hc, rfl⟩
      rw [recv_handled (by rw [hc]; nofun) hs]
      exact List.mem_append_right _ (List.mem_singleton.mpr rfl)

theorem ids_step : v.Ids :=
  have hown := ownIds_step h.ownIds ha.ids hs
  { hown with unique := unique_ids h ha hs, peer := peer_ids h ha hs }

end

end

-- ---------------------------------------------------------------------------
-- The streams map
-- ---------------------------------------------------------------------------

theorem getElem_removeStream (u : Session) (streamId : UInt32) (k : Nat) :
    (u.removeStream streamId).handles[k]? = (u.handles[k]?).map fun handle =>
      if (u.streams streamId).any (·.dataTx == k) then handle.disconnect else handle := by
  simp only [removeStream, dropEntry]
  cases u.streams streamId with
  | none => simp
  | some streamState => simp [List.getElem?_modify]

theorem mem_removeStream {u : Session} {handle' : Handle}
    (h : handle' ∈ (u.removeStream streamId).handles) :
    ∃ handle ∈ u.handles, handle' = handle ∨ handle' = handle.disconnect := by
  obtain ⟨k, hk⟩ := List.mem_iff_getElem?.mp h
  rw [getElem_removeStream] at hk
  obtain ⟨handle, hh, rfl⟩ := Option.map_eq_some_iff.mp hk
  refine ⟨handle, List.mem_of_getElem? hh, ?_⟩
  split
  · exact .inr rfl
  · exact .inl rfl

/-- The streams map leads from an id to the handle of that id, and a live
stream is in it for as long as its data channel has a sender: until its FIN. -/
structure Mapped (streams : UInt32 → Option StreamState) (handles : List Handle)
    (handled : List Frame) : Prop where
  entry : ∀ {streamId streamState}, streams streamId = some streamState →
    ∃ handle, handles[streamState.dataTx]? = some handle ∧ handle.id = streamId
  live : ∀ {k : Nat} {handle : Handle}, handles[k]? = some handle → handle.phase ≠ .dropped →
    handle.stream.dataRx.connected → ∃ streamState, streams handle.id = some streamState ∧
      streamState.dataTx = k
  fin : ∀ handle ∈ handles, handle.phase ≠ .dropped → handle.stream.dataRx.connected = false →
    ∃ frame ∈ handled, frame.cmd = .fin ∧ frame.streamId = handle.id

namespace Mapped

variable {streams : UInt32 → Option StreamState} {handles : List Handle}
  {handled handled' : List Frame} {streamId : UInt32} {handle handle' : Handle}

theorem new (config : Config) (isClient : Bool) :
    Mapped (new config isClient).streams (new config isClient).handles
      (new config isClient).handled where
  entry h := nomatch h
  live h := by simp [Session.new] at h
  fin := by simp [Session.new]

theorem mono (h : Mapped streams handles handled) (hsub : handled ⊆ handled') :
    Mapped streams handles handled' where
  entry := h.entry
  live := h.live
  fin handle hm hlive hd := by
    obtain ⟨frame, hf, hfin⟩ := h.fin handle hm hlive hd
    exact ⟨frame, hsub hf, hfin⟩

theorem set (h : Mapped streams handles handled) (hk : handles[k]? = some handle)
    (hid : handle'.id = handle.id)
    (hconn : handle'.stream.dataRx.connected = handle.stream.dataRx.connected)
    (hphase : handle'.phase ≠ .dropped → handle.phase ≠ .dropped) :
    Mapped streams (handles.set k handle') handled where
  entry {i streamState} hs := by
    obtain ⟨x, hx, hxid⟩ := h.entry hs
    by_cases he : k = streamState.dataTx
    · subst he
      rw [hk] at hx
      cases hx
      exact ⟨handle', by rw [List.getElem?_set_self (List.getElem?_eq_some_iff.mp hk).1], hid.trans hxid⟩
    · exact ⟨x, by rw [List.getElem?_set_ne he, hx], hxid⟩
  live {j x} hx hlive hc := by
    rcases set_cases hx with ⟨rfl, rfl⟩ | ⟨-, hx⟩
    · rw [hid]
      exact h.live hk (hphase hlive) (hconn ▸ hc)
    · exact h.live hx hlive hc
  fin x hx hlive hd := by
    rcases List.mem_or_eq_of_mem_set hx with hx | rfl
    · exact h.fin x hx hlive hd
    · rw [hid]
      exact h.fin handle (List.mem_of_getElem? hk) (hphase hlive) (hconn ▸ hd)

theorem insert (h : Mapped streams handles handled) (hfresh : ∀ handle ∈ handles, handle.id ≠ streamId)
    (phase : Phase) :
    Mapped (fun i => if i = streamId then some ⟨handles.length, false⟩ else streams i)
      (handles ++ [.new streamId phase]) handled where
  entry {i streamState} hs := by
    split at hs
    · rename_i hi
      cases hs
      exact ⟨.new streamId phase, by simp, hi.symm⟩
    · obtain ⟨x, hx, hid⟩ := h.entry hs
      exact ⟨x, by rw [List.getElem?_append_left (List.getElem?_eq_some_iff.mp hx).1, hx], hid⟩
  live {k x} hx hlive hc := by
    rw [List.getElem?_append] at hx
    split at hx
    · have hne := hfresh x (List.mem_of_getElem? hx)
      simp only [hne, if_false]
      exact h.live hx hlive hc
    · rename_i hk
      rw [List.getElem?_singleton] at hx
      split at hx <;> cases hx
      exact ⟨⟨handles.length, false⟩, if_pos rfl, by dsimp only; omega⟩
  fin x hx hlive hd := by
    rcases List.mem_append.mp hx with hx | hx
    · exact h.fin x hx hlive hd
    · rw [List.mem_singleton.mp hx] at hd
      cases hd

theorem remove {u : Session} (h : Mapped u.streams u.handles handled)
    (hfin : ∀ handle ∈ u.handles, handle.phase ≠ .dropped → handle.id = streamId →
      ∃ frame ∈ handled, frame.cmd = .fin ∧ frame.streamId = streamId) :
    Mapped (u.removeStream streamId).streams (u.removeStream streamId).handles handled where
  entry {i streamState} hs := by
    simp only [removeStream] at hs
    split at hs
    · cases hs
    · obtain ⟨x, hx, hid⟩ := h.entry hs
      rw [getElem_removeStream, hx]
      refine ⟨_, rfl, ?_⟩
      split <;> exact hid
  live {k x} hx hlive hc := by
    rw [getElem_removeStream] at hx
    obtain ⟨y, hy, rfl⟩ := Option.map_eq_some_iff.mp hx
    split at hc
    · cases hc
    · rename_i hn
      rw [if_neg hn] at hlive ⊢
      obtain ⟨streamState, hs, hk⟩ := h.live hy hlive hc
      refine ⟨streamState, ?_, hk⟩
      have hne : y.id ≠ streamId := by
        rintro rfl
        exact hn (by simp [hs, hk])
      simp only [removeStream, hne, if_false, hs]
  fin x hx hlive hd := by
    obtain ⟨k, hx⟩ := List.mem_iff_getElem?.mp hx
    rw [getElem_removeStream] at hx
    obtain ⟨y, hy, rfl⟩ := Option.map_eq_some_iff.mp hx
    have hym := List.mem_of_getElem? hy
    by_cases hs : (u.streams streamId).any (·.dataTx == k)
    · rw [if_pos hs] at hlive ⊢
      obtain ⟨streamState, hs, hk⟩ := Option.any_eq_true _ _ |>.mp hs
      obtain ⟨z, hz, hid⟩ := h.entry hs
      rw [beq_iff_eq.mp hk, hy] at hz
      cases hz
      obtain ⟨frame, hf, hc, he⟩ := hfin y hym hlive hid
      exact ⟨frame, hf, hc, he.trans hid.symm⟩
    · rw [if_neg hs] at hlive hd ⊢
      exact h.fin y hym hlive hd

end Mapped

section
variable {u v : Session} {act : Act} {frame : Frame}

theorem mapped_psh {w : Session} (h : Mapped w.streams w.handles w.handled)
    (hunique : UniqueIds w.handles) (hpsh : Psh w frame v) : Mapped v.streams v.handles v.handled := by
  have hsub : w.handled ⊆ w.handled ++ [frame] := List.subset_append_left ..
  cases hpsh with
  | @delivered streamState handle _ _ hh =>
    have hset : Mapped w.streams (w.handles.set streamState.dataTx (handle.deliver frame.data))
        w.handled := h.set hh rfl rfl id
    exact hset.mono hsub
  | gone _ hs hdropped =>
    -- the handle that the entry leads to is the only one of this id
    have hgone : ∀ handle ∈ w.handles, handle.phase ≠ .dropped → handle.id = frame.streamId →
        ∃ fin ∈ w.handled, fin.cmd = .fin ∧ fin.streamId = frame.streamId := by
      intro handle hm hlive hid
      obtain ⟨k, hk⟩ := List.mem_iff_getElem?.mp hm
      obtain ⟨x, hx, hxid⟩ := h.entry hs
      cases hunique hk hx (hid.trans hxid.symm)
      exact absurd (hdropped handle hk) hlive
    exact (h.remove hgone).mono hsub
  | unknown => exact h.mono hsub
  | waits => exact h

theorem NewHandle.unmapped (hnew : NewHandle u act streamId phase)
    (h : Mapped u.streams u.handles u.handled) (hi : u.Ids) (ha : u.Admissible act) :
    u.streams streamId = none := by
  refine Option.eq_none_iff_forall_ne_some.mpr fun streamState hst => ?_
  obtain ⟨handle, hk, hid⟩ := h.entry hst
  exact hnew.fresh hi ha handle (List.mem_of_getElem? hk) hid

theorem mapped_step (h : Mapped u.streams u.handles u.handled) (hi : u.Ids) (ha : u.Admissible act)
    (hs : u.step act = some v) : Mapped v.streams v.handles v.handled := by
  have hins : ∀ {streamId phase}, NewHandle u act streamId phase →
      Mapped (u.insertStream streamId phase).streams (u.insertStream streamId phase).handles
        u.handled := by
    intro streamId phase hnew
    have := h.insert (hnew.fresh hi ha) phase
    simpa only [insertStream, hnew.unmapped h hi ha, dropEntry] using this
  cases step_ok hs with
  | register hreg => exact hins (.registered hreg)
  | syn _ _ hc hr =>
    exact (hins (.incoming hc hr)).mono (List.subset_append_left ..)
  | called _ hh hcall =>
    obtain ⟨hlive, hid, hconn⟩ := Handle.step_frame hcall
    exact h.set hh hid hconn fun _ => hlive
  | @fin frame _ _ hc =>
    refine Mapped.remove (u := u.received) (h.mono (List.subset_append_left ..)) ?_
    exact fun _ _ _ _ => ⟨frame, List.mem_concat_self, hc, rfl⟩
  | psh hp hpsh =>
    cases hp with
    | first => exact mapped_psh (w := u.received) h hi.unique hpsh
    | again => exact mapped_psh h hi.unique hpsh
  | ignored | sessionClosing => exact h.mono (List.subset_append_left ..)
  | _ => exact h

end

end Smux.Session
