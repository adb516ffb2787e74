import Smux.Session.Streams

/-!
# What a session has sent

The frames a session has queued are its pings and, for each stream id, the
frames that the handle of this id has sent. So the frames of a stream are in
the order of its calls, whatever the other streams do in between.
-/

namespace Smux.Session

/-- The frames queued, by the handles that sent them. -/
structure Sent (config : Config) (handles : List Handle) (queued : List Frame) : Prop where
  shape : ∀ handle ∈ handles, ∃ syn pshs fin, handle.Sends config syn pshs fin
  sent : ∀ handle ∈ handles, handle.sent = queued.filter (·.streamId == handle.id)
  owned : ∀ frame ∈ queued, frame.cmd ≠ .nop → ∃ handle ∈ handles, handle.id = frame.streamId
  nop : ∀ frame ∈ queued, frame.cmd = .nop → ∃ version, frame = .newNop version

namespace Sent

variable {config : Config} {handles : List Handle} {queued frames : List Frame}
  {handle handle' : Handle} {streamId : UInt32} {phase : Phase}

theorem new (config : Config) (isClient : Bool) :
    Sent config (new config isClient).handles (new config isClient).queued := by
  constructor <;> simp [Session.new]

theorem set (h : Sent config handles queued) (hk : handles[k]? = some handle)
    (hunique : UniqueIds handles) (hid : handle'.id = handle.id)
    (hshape : ∃ syn pshs fin, handle'.Sends config syn pshs fin)
    (hsent : handle'.sent = handle.sent ++ frames)
    (hframes : ∀ frame ∈ frames, frame.streamId = handle.id ∧ frame.cmd ≠ .nop) :
    Sent config (handles.set k handle') (queued ++ frames) where
  shape x hx := by
    rcases List.mem_or_eq_of_mem_set hx with hx | rfl
    · exact h.shape x hx
    · exact hshape
  sent x hx := by
    obtain ⟨j, hj⟩ := List.mem_iff_getElem?.mp hx
    rw [List.filter_append]
    rcases set_cases hj with ⟨rfl, rfl⟩ | ⟨he, hj⟩
    · have hown : frames.filter (·.streamId == x.id) = frames :=
        List.filter_eq_self.mpr fun frame hf => by rw [(hframes frame hf).1, hid]; exact beq_self_eq_true _
      rw [hsent, hown, h.sent handle (List.mem_of_getElem? hk), hid]
    · have hne : handle.id ≠ x.id := fun hx => he (hunique hk hj hx)
      have hnone : frames.filter (·.streamId == x.id) = [] :=
        List.filter_eq_nil_iff.mpr fun frame hf => by rw [(hframes frame hf).1]; simpa using hne
      rw [hnone, List.append_nil]
      exact h.sent x (List.mem_of_getElem? hj)
  owned frame hf hc := by
    rcases List.mem_append.mp hf with hf | hf
    · obtain ⟨x, hx, hxid⟩ := h.owned frame hf hc
      obtain ⟨j, hj⟩ := List.mem_iff_getElem?.mp hx
      by_cases he : k = j
      · subst he
        rw [hk] at hj
        cases hj
        exact ⟨handle', List.mem_set (List.getElem?_eq_some_iff.mp hk).1 _, hid.trans hxid⟩
      · exact ⟨x, List.mem_of_getElem? (by rw [List.getElem?_set_ne he, hj]), hxid⟩
    · exact ⟨handle', List.mem_set (List.getElem?_eq_some_iff.mp hk).1 _,
        hid.trans (hframes frame hf).1.symm⟩
  nop frame hf hc := by
    rcases List.mem_append.mp hf with hf | hf
    · exact h.nop frame hf hc
    · exact absurd hc (hframes frame hf).2

theorem ping (h : Sent config handles queued) (h0 : ∀ handle ∈ handles, handle.id ≠ 0)
    (version : UInt8) : Sent config handles (queued ++ [.newNop version]) where
  shape := h.shape
  sent x hx := by
    have hnone : [Frame.newNop version].filter (·.streamId == x.id) = [] := by
      simpa [Frame.newNop, Frame.new] using (h0 x hx).symm
    rw [List.filter_append, hnone, List.append_nil]
    exact h.sent x hx
  owned frame hf hc := by
    rcases List.mem_append.mp hf with hf | hf
    · exact h.owned frame hf hc
    · exact absurd (List.mem_singleton.mp hf ▸ rfl) hc
  nop frame hf hc := by
    rcases List.mem_append.mp hf with hf | hf
    · exact h.nop frame hf hc
    · exact ⟨version, List.mem_singleton.mp hf⟩

/-- A new stream has sent nothing, and nobody else has under its id. -/
theorem insert (h : Sent config handles queued)
    (hfresh : ∀ handle ∈ handles, handle.id ≠ streamId) (h0 : streamId ≠ 0)
    (hphase : phase ≠ .closing) : Sent config (handles ++ [.new streamId phase]) queued where
  shape x hx := by
    rcases List.mem_append.mp hx with hx | hx
    · exact h.shape x hx
    · rw [List.mem_singleton.mp hx]
      exact ⟨[], [], [], Handle.sends_new config streamId phase hphase⟩
  sent x hx := by
    rcases List.mem_append.mp hx with hx | hx
    · exact h.sent x hx
    · rw [List.mem_singleton.mp hx]
      refine (List.filter_eq_nil_iff.mpr fun frame hf hid => ?_).symm
      have hid : frame.streamId = streamId := beq_iff_eq.mp hid
      by_cases hc : frame.cmd = .nop
      · obtain ⟨version, rfl⟩ := h.nop frame hf hc
        exact h0 hid.symm
      · obtain ⟨handle, hm, he⟩ := h.owned frame hf hc
        exact hfresh handle hm (he.trans hid)
  owned frame hf hc := by
    obtain ⟨handle, hm, he⟩ := h.owned frame hf hc
    exact ⟨handle, List.mem_append_left _ hm, he⟩
  nop := h.nop

theorem remove {u : Session} (h : Sent config u.handles queued) (streamId : UInt32) :
    Sent config (u.removeStream streamId).handles queued where
  shape x hx := by
    obtain ⟨y, hy, rfl | rfl⟩ := mem_removeStream hx
    · exact h.shape _ hy
    · obtain ⟨syn, pshs, fin, hs⟩ := h.shape y hy
      exact ⟨syn, pshs, fin, hs.of_eq rfl rfl rfl rfl rfl⟩
  sent x hx := by
    obtain ⟨y, hy, rfl | rfl⟩ := mem_removeStream hx
    · exact h.sent _ hy
    · exact h.sent y hy
  owned frame hf hc := by
    obtain ⟨y, hy, hid⟩ := h.owned frame hf hc
    obtain ⟨k, hk⟩ := List.mem_iff_getElem?.mp hy
    refine ⟨_, List.mem_of_getElem? (by rw [getElem_removeStream, hk]; rfl), ?_⟩
    split <;> exact hid
  nop := h.nop

end Sent

section
variable {u v w : Session} {act : Act} {frame : Frame}

theorem Ids.ne_zero (h : u.Ids) : ∀ handle ∈ u.handles, handle.id ≠ 0 := by
  intro handle hm
  by_cases ho : Own u.isClient handle.id
  · exact (h.own handle hm ho).2.1
  · exact (h.peer handle hm ho).1

theorem NewHandle.ne_zero (hnew : NewHandle u act streamId phase) (h : u.Ids) : streamId ≠ 0 := by
  cases hnew with
  | registered hi => exact (h.allocated _ hi).2.1
  | incoming _ hr => exact peer_ne_zero (peer_of_not_refuses hr)

theorem NewHandle.not_closing (hnew : NewHandle u act streamId phase) : phase ≠ .closing := by
  cases hnew <;> decide

theorem sent_psh (h : Sent w.config w.handles w.queued) (hunique : UniqueIds w.handles)
    (hpsh : Psh w frame v) : Sent v.config v.handles v.queued := by
  cases hpsh with
  | @delivered streamState handle _ _ hh =>
    obtain ⟨syn, pshs, fin, hs⟩ := h.shape handle (List.mem_of_getElem? hh)
    have hset : Sent w.config (w.handles.set streamState.dataTx (handle.deliver frame.data))
        (w.queued ++ []) :=
      h.set hh hunique rfl ⟨syn, pshs, fin, hs.of_eq rfl rfl rfl rfl rfl⟩
        (List.append_nil _).symm nofun
    rwa [List.append_nil] at hset
  | gone => exact Sent.remove (u := { w with state := _ }) h frame.streamId
  | unknown | waits => exact h

theorem sent_step (h : Sent u.config u.handles u.queued) (hi : u.Ids)
    (hm : Mapped u.streams u.handles u.handled) (ha : u.Admissible act) (hs : u.step act = some v) :
    Sent v.config v.handles v.queued := by
  have hins : ∀ {streamId phase}, NewHandle u act streamId phase →
      Sent u.config (u.insertStream streamId phase).handles u.queued := by
    intro streamId phase hnew
    have := h.insert (hnew.fresh hi ha) (hnew.ne_zero hi) hnew.not_closing
    simpa only [insertStream, hnew.unmapped hm hi ha, dropEntry] using this
  cases step_ok hs with
  | register hreg => exact hins (.registered hreg)
  | syn _ _ hc hr => exact hins (.incoming hc hr)
  | called _ hh hcall =>
    obtain ⟨syn, pshs, fin, hsends⟩ := h.shape _ (List.mem_of_getElem? hh)
    obtain ⟨hsent, hframes⟩ := Handle.step_sent hcall
    exact h.set hh hi.unique (Handle.step_frame hcall).2.1 (hsends.step hcall) hsent hframes
  | fin => exact Sent.remove (u := u.received) h _
  | psh hp hpsh =>
    cases hp with
    | first => exact sent_psh (w := u.received) h hi.unique hpsh
    | again => exact sent_psh h hi.unique hpsh
  | ping => exact h.ping hi.ne_zero _
  | _ => exact h

-- ---------------------------------------------------------------------------
-- The order of the frames
-- ---------------------------------------------------------------------------

end

section
variable {config : Config} {handles : List Handle} {handle : Handle}
  {queued syn pshs fin : List Frame} {earlier frame : Frame}

theorem follows_of_ne (h : earlier.streamId ≠ frame.streamId) : Follows earlier frame :=
  ⟨fun _ => h, fun _ => h⟩

theorem follows_of_cmd (hsyn : frame.cmd ≠ .syn) (hfin : earlier.cmd ≠ .fin) :
    Follows earlier frame :=
  ⟨fun h => absurd h hsyn, fun h => absurd h hfin⟩

theorem sends_follows (h : handle.Sends config syn pshs fin) : handle.sent.Pairwise Follows := by
  have hsyn : ∀ frame ∈ syn, frame.cmd = .syn := by
    intro frame hf
    rcases h.isSyn with rfl | rfl
    · cases hf
    · rw [List.mem_singleton.mp hf]; rfl
  have hpsh : ∀ frame ∈ pshs, frame.cmd = .psh := by
    intro frame hf
    obtain ⟨data, rfl⟩ := h.isPsh frame hf
    rfl
  have hfin : ∀ frame ∈ fin, frame.cmd = .fin := by
    intro frame hf
    rcases h.isFin with rfl | ⟨rfl, -⟩
    · cases hf
    · rw [List.mem_singleton.mp hf]; rfl
  have hfirst : syn.Pairwise Follows := by rcases h.isSyn with rfl | rfl <;> simp
  have hlast : fin.Pairwise Follows := by rcases h.isFin with rfl | ⟨rfl, -⟩ <;> simp
  have hmid : pshs.Pairwise Follows := List.pairwise_of_forall_mem_list fun a ha b hb =>
    follows_of_cmd (by simp [hpsh b hb]) (by simp [hpsh a ha])
  rw [h.sent]
  refine List.pairwise_append.mpr ⟨List.pairwise_append.mpr ⟨hfirst, hmid, ?_⟩, hlast, ?_⟩
  · exact fun a ha b hb => follows_of_cmd (by simp [hpsh b hb]) (by simp [hsyn a ha])
  · intro a ha b hb
    refine follows_of_cmd (by simp [hfin b hb]) ?_
    rcases List.mem_append.mp ha with ha | ha
    · simp [hsyn a ha]
    · simp [hpsh a ha]

/-- All frames queued are in order: those of an id are the ones its handle has
sent. -/
theorem Sent.follows (h : Sent config handles queued) (h0 : ∀ handle ∈ handles, handle.id ≠ 0) :
    queued.Pairwise Follows := by
  refine List.pairwise_iff_forall_sublist.mpr fun {a b} hab => ?_
  have ha : a ∈ queued := hab.subset (by simp)
  have hb : b ∈ queued := hab.subset (by simp)
  by_cases hid : a.streamId = b.streamId
  · by_cases hz : a.streamId = 0
    · -- only pings have this id
      have hnop : ∀ frame ∈ queued, frame.streamId = 0 → frame.cmd = .nop := by
        intro frame hf hfz
        refine Classical.byContradiction fun hc => ?_
        obtain ⟨handle, hm, he⟩ := h.owned frame hf hc
        exact h0 handle hm (he.trans hfz)
      exact follows_of_cmd (by simp [hnop b hb (hid ▸ hz)]) (by simp [hnop a ha hz])
    · have hcmd : a.cmd ≠ .nop := by
        intro hc
        obtain ⟨version, rfl⟩ := h.nop a ha hc
        exact hz rfl
      obtain ⟨handle, hm, he⟩ := h.owned a ha hcmd
      obtain ⟨syn, pshs, fin, hs⟩ := h.shape handle hm
      have hfollows := sends_follows hs
      rw [h.sent handle hm] at hfollows
      refine List.pairwise_iff_forall_sublist.mp hfollows ?_
      have hsub := hab.filter (·.streamId == handle.id)
      simpa [he, hid] using hsub
  · exact follows_of_ne hid

end

end Smux.Session
