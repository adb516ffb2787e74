import Smux.Session.Streams

/-!
# What a session has received

The frames a session takes from its decoder stay in the order a peer sends
them (`Ordered`). While the session is open, the payloads delivered to a live
stream are those of all frames handled of its id, and what `poll_read`
returned is always a prefix of them (`Delivery`).
-/

namespace Smux.Session

/-- The frame that `handle_frame` waits for tokens with. -/
def pending (self : Session) : List Frame :=
  match self.handling with
  | some (.awaitingTokens frame _ _) => [frame]
  | _ => []

/-- The frames `recv_loop` has got from the decoder. -/
def taken (self : Session) : List Frame := self.handled ++ self.pending

/-- The frames a step gets from the decoder. -/
def Act.takes : Act → List Frame
  | .recv frame => [frame]
  | _ => []

def payloadOf (streamId : UInt32) (frames : List Frame) : Bytes :=
  (frames.filter (·.streamId == streamId)).flatMap Frame.data

section
variable {streamId : UInt32} {frames frames' : List Frame} {frame : Frame}

theorem payloadOf_append (streamId : UInt32) (frames frames' : List Frame) :
    payloadOf streamId (frames ++ frames') = payloadOf streamId frames ++ payloadOf streamId frames' := by
  simp [payloadOf]

theorem payloadOf_snoc (streamId : UInt32) (frames : List Frame) (frame : Frame) :
    payloadOf streamId (frames ++ [frame]) =
      payloadOf streamId frames ++ if frame.streamId = streamId then frame.data else [] := by
  by_cases h : frame.streamId = streamId <;> simp [payloadOf, h]

theorem payloadOf_silent (h : frame.data = []) :
    payloadOf streamId (frames ++ [frame]) = payloadOf streamId frames := by
  rw [payloadOf_snoc, h, ite_self, List.append_nil]

theorem payloadOf_mono (h : frames <+: frames') :
    payloadOf streamId frames <+: payloadOf streamId frames' := by
  obtain ⟨more, rfl⟩ := h
  exact ⟨payloadOf streamId more, (payloadOf_append ..).symm⟩

theorem payloadOf_eq_nil (h : ∀ frame ∈ frames, frame.data ≠ [] → frame.streamId ≠ streamId) :
    payloadOf streamId frames = [] := by
  refine List.flatMap_eq_nil_iff.mpr fun frame hf => ?_
  obtain ⟨hf, hid⟩ := List.mem_filter.mp hf
  exact Classical.byContradiction fun hd => h frame hf hd (beq_iff_eq.mp hid)

end

-- ---------------------------------------------------------------------------
-- The order of the frames taken
-- ---------------------------------------------------------------------------

section
variable {u v w : Session} {act : Act} {frame : Frame}

theorem taken_of_none (h : u.handling = none) : u.taken = u.handled := by
  simp [taken, pending, h]

theorem taken_of_awaiting (h : u.handling = some (.awaitingTokens frame tokensNotified closeNotified)) :
    u.taken = u.handled ++ [frame] := by
  simp only [taken, pending, h]

theorem step_taken (hs : u.step act = some v) : v.taken = u.taken ++ act.takes := by
  cases step_ok hs with
  | ignored hn | fin hn => rw [taken_of_none hn]; exact taken_of_none rfl
  | syn hn => rw [taken_of_none hn]; exact List.append_nil _
  | psh hp hpsh =>
    cases hp with
    | first hn => rw [taken_of_none hn]; cases hpsh <;> first | exact taken_of_none rfl | rfl
    | again hn =>
      rw [taken_of_awaiting hn]
      cases hpsh <;> simp [taken, pending, finish, removeStream, Act.takes]
  | accepted hn => simp [taken, pending, hn, Act.takes]
  | sessionClosing hn => simp [taken, pending, hn, finish, Act.takes]
  | called hcall => cases hcall <;> exact (List.append_nil _).symm
  | _ => exact (List.append_nil _).symm

/-- The frames taken are valid, and in the order a peer's streams send them. -/
structure Ordered (session : Session) : Prop where
  follows : session.taken.Pairwise Follows
  valid : ∀ frame ∈ session.taken, frame.Valid session.config
  own : ∀ frame ∈ session.taken, frame.cmd ≠ .nop → Own session.isClient frame.streamId →
    ∃ handle ∈ session.handles, handle.id = frame.streamId

theorem ordered_new (config : Config) (isClient : Bool) : (new config isClient).Ordered where
  follows := List.Pairwise.nil
  valid := by simp [new, taken, pending]
  own := by simp [new, taken, pending]

theorem recv_enabled (hs : u.step (.recv frame) = some v) :
    u.handling = none ∧ frame.Valid u.config := by
  simp only [step] at hs
  split at hs
  · rename_i hc
    exact ⟨by simpa using hc.1, Frame.validate_ok.mp hc.2⟩
  · cases hs

theorem ordered_step (h : u.Ordered) (ha : u.Admissible act) (hs : u.step act = some v) :
    v.Ordered := by
  have hkept : ∀ frame ∈ u.taken, frame.cmd ≠ .nop → Own v.isClient frame.streamId →
      ∃ handle ∈ v.handles, handle.id = frame.streamId := fun frame hf hc hown =>
    step_kept_id hs (h.own frame hf hc (step_isClient hs ▸ hown))
  have hconfig := step_config hs
  have htaken := step_taken hs
  rcases Classical.em (∃ frame, act = .recv frame) with ⟨frame, rfl⟩ | hact
  · obtain ⟨hn, hvalid⟩ := recv_enabled hs
    obtain ⟨hfollows, hown⟩ := ha.recv frame rfl
    rw [Act.takes] at htaken
    refine ⟨?_, ?_, ?_⟩ <;> rw [htaken]
    · refine List.pairwise_append.mpr ⟨h.follows, List.pairwise_singleton .., ?_⟩
      rintro earlier he f hf
      rw [List.mem_singleton.mp hf]
      exact hfollows earlier (taken_of_none hn ▸ he)
    · intro f hf
      rw [hconfig]
      rcases List.mem_append.mp hf with hf | hf
      · exact h.valid f hf
      · exact List.mem_singleton.mp hf ▸ hvalid
    · intro f hf hc ho
      rcases List.mem_append.mp hf with hf | hf
      · exact hkept f hf hc ho
      · obtain rfl := List.mem_singleton.mp hf
        exact step_kept_id hs (hown hc (step_isClient hs ▸ ho))
  · have htakes : act.takes = [] := by
      cases act <;> first | rfl | exact absurd ⟨_, rfl⟩ hact
    rw [htakes, List.append_nil] at htaken
    exact ⟨htaken ▸ h.follows, fun f hf => hconfig ▸ h.valid f (htaken ▸ hf), htaken ▸ hkept⟩

theorem Pass.follows (hp : Pass u act frame w) (h : u.Ordered) (ha : u.Admissible act) :
    ∀ earlier ∈ u.handled, Follows earlier frame := by
  cases hp with
  | first => exact (ha.recv _ rfl).follows
  | again hn =>
    have hfollows := h.follows
    rw [taken_of_awaiting hn] at hfollows
    exact fun earlier he =>
      (List.pairwise_append.mp hfollows).2.2 earlier he frame (List.mem_singleton.mpr rfl)

/-- What was handled before a stream is there carries nothing for it. -/
theorem NewHandle.unseen (hnew : NewHandle u act streamId phase) (hi : u.Ids) (h : u.Ordered)
    (ha : u.Admissible act) : payloadOf streamId u.handled = [] := by
  refine payloadOf_eq_nil fun frame hf hd hid => ?_
  have hf' : frame ∈ u.taken := List.mem_append_left _ hf
  cases hnew with
  | registered hreg =>
    have hcmd : frame.cmd ≠ .nop := fun hc => hd ((h.valid frame hf').control (by rw [hc]; rfl))
    obtain ⟨handle, hm, he⟩ := h.own frame hf' hcmd (hid ▸ (hi.allocated _ hreg).1)
    exact hi.unregistered _ hreg handle hm (he.trans hid)
  | incoming hc => exact ((ha.recv _ rfl).follows frame hf).syn hc hid

-- ---------------------------------------------------------------------------
-- Payloads
-- ---------------------------------------------------------------------------

end

/-- Every live stream was sent the payloads of all frames handled of its id. -/
def Delivered (handles : List Handle) (handled : List Frame) : Prop :=
  ∀ handle ∈ handles, handle.phase ≠ .dropped →
    handle.delivered = payloadOf handle.id handled

namespace Delivered

variable {handles : List Handle} {handled : List Frame} {frame : Frame} {handle handle' : Handle}
  {streamId : UInt32}

theorem set (h : Delivered handles handled) (hk : handles[k]? = some handle)
    (hid : handle'.id = handle.id) (hd : handle'.delivered = handle.delivered)
    (hlive : handle.phase ≠ .dropped) : Delivered (handles.set k handle') handled := by
  intro x hx hxl
  rcases List.mem_or_eq_of_mem_set hx with hx | rfl
  · exact h x hx hxl
  · rw [hid, hd]
    exact h handle (List.mem_of_getElem? hk) hlive

theorem insert (h : Delivered handles handled) (hun : payloadOf streamId handled = [])
    (phase : Phase) : Delivered (handles ++ [.new streamId phase]) handled := by
  intro x hx hlive
  rcases List.mem_append.mp hx with hx | hx
  · exact h x hx hlive
  · rw [List.mem_singleton.mp hx]
    exact hun.symm

theorem remove {u : Session} (h : Delivered u.handles handled) (streamId : UInt32) :
    Delivered (u.removeStream streamId).handles handled := by
  intro x hx
  obtain ⟨y, hy, rfl | rfl⟩ := mem_removeStream hx
  · exact h _ hy
  · exact h y hy

theorem skip (h : Delivered handles handled)
    (hno : frame.data = [] ∨ ∀ handle ∈ handles, handle.phase ≠ .dropped →
      handle.id ≠ frame.streamId) : Delivered handles (handled ++ [frame]) := by
  intro x hx hlive
  rw [h x hx hlive]
  rcases hno with hd | hno
  · exact (payloadOf_silent hd).symm
  · rw [payloadOf_snoc, if_neg (hno x hx hlive).symm, List.append_nil]

theorem deliver (h : Delivered handles handled) (hk : handles[k]? = some handle)
    (hid : handle.id = frame.streamId) (hunique : UniqueIds handles) :
    Delivered (handles.set k (handle.deliver frame.data)) (handled ++ [frame]) := by
  intro x hx hlive
  obtain ⟨j, hj⟩ := List.mem_iff_getElem?.mp hx
  rcases set_cases hj with ⟨rfl, rfl⟩ | ⟨he, hj⟩
  · have hd := h handle (List.mem_of_getElem? hk) hlive
    have hid' : frame.streamId = (handle.deliver frame.data).id := hid.symm
    rw [payloadOf_snoc, if_pos hid']
    exact congrArg (· ++ frame.data) hd
  · have hne : frame.streamId ≠ x.id := fun hx => he (hunique hk hj (hid.trans hx))
    rw [payloadOf_snoc, if_neg hne, List.append_nil]
    exact h x (List.mem_of_getElem? hj) hlive

end Delivered

/-- A `handle_frame` call is told to give up only when the session is closed. -/
def ToldByClose (session : Session) : Prop :=
  ∀ frame tokensNotified closeNotified,
    session.handling = some (.awaitingTokens frame tokensNotified closeNotified) →
    session.state.die.wakes closeNotified → session.state.closed

structure Delivery (session : Session) : Prop where
  intact : ∀ handle ∈ session.handles, handle.Intact
  returned : ∀ handle ∈ session.handles,
    handle.returned <+: payloadOf handle.id session.handled
  delivered : session.state.closed = false → Delivered session.handles session.handled

structure Receives (session : Session) : Prop where
  ids : session.Ids
  mapped : Mapped session.streams session.handles session.handled
  ordered : session.Ordered
  awaits : session.AwaitsPsh
  told : session.ToldByClose
  delivery : session.Delivery

section
variable {u v w : Session} {act : Act} {frame : Frame}

theorem toldByClose_step (h : u.ToldByClose) (hs : u.step act = some v) : v.ToldByClose := by
  have hkept : v.state.closed = u.state.closed → v.state.die = u.state.die →
      v.handling = u.handling → v.ToldByClose := by
    intro hc hd hh frame tokensNotified closeNotified hw hwakes
    rw [hc]
    rw [hh] at hw
    rw [hd] at hwakes
    exact h _ _ _ hw hwakes
  rcases step_closed hs with ⟨hc, hd⟩ | ⟨-, hc, -⟩
  · intro frame tokensNotified closeNotified hw hwakes
    cases step_ok hs with
    | ignored | fin | accepted | sessionClosing => cases hw
    | syn => cases hw
    | psh hp hpsh =>
      cases hpsh with
      | waits =>
        cases hw
        simp only [SessionState.takeTokens, Notify.wakes_notified] at hwakes
        cases hwakes
      | _ => cases hw
    | _ => exact hkept hc hd rfl _ _ _ hw hwakes
  · exact fun _ _ _ _ _ => hc

theorem intact_step (h : ∀ handle ∈ u.handles, handle.Intact) (haw : u.AwaitsPsh)
    (hread : ∀ k, act ≠ .call k (.pollRead 0)) (hs : u.step act = some v) :
    ∀ handle ∈ v.handles, handle.Intact := by
  intro handle' hm
  rcases step_mem hs hm with ⟨handle, hm, hstep⟩ | ⟨_, _, rfl, -⟩
  · have hh := h handle hm
    cases hstep with
    | same => exact hh
    | called hcall hcs =>
      refine hh.step ?_ hcs
      rintro rfl
      cases hcall
      exact absurd rfl (hread _)
    | delivered hp => exact hh.deliver (hp.isPsh haw).2.2
    | disconnected => exact hh.disconnect
  · exact Handle.intact_new ..

theorem returned_step (h : u.Delivery) (hintact : ∀ handle ∈ v.handles, handle.Intact)
    (hs : u.step act = some v) :
    ∀ handle ∈ v.handles, handle.returned <+: payloadOf handle.id v.handled := by
  intro handle' hm
  have hmono : ∀ streamId, payloadOf streamId u.handled <+: payloadOf streamId v.handled :=
    fun streamId => payloadOf_mono (step_handled hs)
  rcases step_mem hs hm with ⟨handle, hmu, hstep⟩ | ⟨_, _, rfl, -⟩
  · have hkept := (h.returned handle hmu).trans (hmono handle.id)
    have hid := hstep.id_eq
    cases hstep with
    | same | delivered | disconnected => exact hkept
    | called hcall hcs =>
      rcases Handle.step_ok hcs with ⟨n, result, _, rfl, hheld, -, hr, rfl⟩ | ⟨-, -, _, _, _, rfl, -⟩
      · cases hc : u.state.closed with
        | true =>
          have hread := Stream.read_of_eq (h.intact handle hmu).chunks hr
          rw [Handle.read, hread.of_closed hc, List.append_nil]
          exact hid ▸ hkept
        | false =>
          have hdel : handle.delivered = _ := h.delivered hc handle hmu (by rw [hheld]; decide)
          have hall := (hintact _ hm).conserved
          refine .trans ⟨_, hall.trans hdel⟩ ?_
          rw [hid]
          exact hmono handle.id
      · exact hkept
  · exact List.nil_prefix

theorem delivered_psh (h : Delivered w.handles w.handled)
    (hm : Mapped w.streams w.handles w.handled) (hunique : UniqueIds w.handles)
    (hfollows : ∀ earlier ∈ w.handled, Follows earlier frame) (hpsh : Psh w frame v) :
    Delivered v.handles v.handled := by
  -- a live stream is in the map: its FIN cannot have come before this frame
  have hno : (∀ streamState handle, w.streams frame.streamId = some streamState →
      w.handles[streamState.dataTx]? = some handle → handle.phase = .dropped) →
      ∀ handle ∈ w.handles, handle.phase ≠ .dropped → handle.id ≠ frame.streamId := by
    intro hgone handle hmem hlive hid
    cases hc : handle.stream.dataRx.connected with
    | true =>
      obtain ⟨k, hk⟩ := List.mem_iff_getElem?.mp hmem
      obtain ⟨streamState, hs, rfl⟩ := hm.live hk hlive hc
      exact hlive (hgone streamState handle (hid ▸ hs) hk)
    | false =>
      obtain ⟨fin, hf, hcmd, hfid⟩ := hm.fin handle hmem hlive hc
      exact (hfollows fin hf).fin hcmd (hfid.trans hid)
  cases hpsh with
  | delivered _ hs hh =>
    obtain ⟨x, hx, hid⟩ := hm.entry hs
    rw [hh] at hx
    cases hx
    exact h.deliver hh hid hunique
  | gone _ hs hdropped =>
    have hgone := hno fun streamState handle hs' hh => by
      rw [hs] at hs'
      cases hs'
      exact hdropped handle hh
    exact Delivered.remove (u := { w with state := _ }) (h.skip (.inr hgone)) _
  | unknown _ hs => exact h.skip (.inr (hno fun _ _ hs' => by rw [hs] at hs'; cases hs'))
  | waits => exact h

theorem delivered_step (h : u.Receives) (ha : u.Admissible act) (hs : u.step act = some v)
    (hopen : v.state.closed = false) : Delivered v.handles v.handled := by
  have hu : u.state.closed = false := by
    rcases step_closed hs with ⟨hc, -⟩ | ⟨-, hc, -⟩
    · exact hc ▸ hopen
    · rw [hopen] at hc; cases hc
  have hdel := h.delivery.delivered hu
  have hins : ∀ {streamId phase}, NewHandle u act streamId phase →
      Delivered (u.insertStream streamId phase).handles u.handled := by
    intro streamId phase hnew
    have := hdel.insert (hnew.unseen h.ids h.ordered ha) phase
    simpa only [insertStream, hnew.unmapped h.mapped h.ids ha, dropEntry] using this
  cases step_ok hs with
  | register hreg => exact hins (.registered hreg)
  | syn _ hv hc hr =>
    exact (hins (.incoming hc hr)).skip (.inl (hv.control (by rw [hc]; rfl)))
  | called hcall hh hcs =>
    obtain ⟨hlive, hid, -⟩ := Handle.step_frame hcs
    exact hdel.set hh hid (Handle.step_delivered hcs) hlive
  | fin _ hv hc =>
    have hdata := hv.control (by rw [hc]; rfl)
    exact Delivered.remove (u := u.received) (hdel.skip (.inl hdata)) _
  | ignored _ hv hc =>
    refine hdel.skip (.inl ?_)
    rcases hc with hc | ⟨_, _, hc⟩ | ⟨-, hd⟩ | ⟨hc, -⟩
    · exact hv.control (by rw [hc]; rfl)
    · exact hv.control (by rw [hc]; rfl)
    · exact hd
    · exact hv.control (by rw [hc]; rfl)
  | psh hp hpsh =>
    have hfollows := hp.follows h.ordered ha
    cases hp with
    | first => exact delivered_psh (w := u.received) hdel h.mapped h.ids.unique hfollows hpsh
    | again => exact delivered_psh hdel h.mapped h.ids.unique hfollows hpsh
  | sessionClosing hh hwakes =>
    have hc := h.told _ _ _ hh hwakes
    rw [hu] at hc
    cases hc
  | _ => exact hdel

theorem receives_new (config : Config) (isClient : Bool) : (new config isClient).Receives where
  ids := ids_new config isClient
  mapped := .new config isClient
  ordered := ordered_new config isClient
  awaits _ _ _ h := nomatch h
  told _ _ _ h := nomatch h
  delivery := ⟨by simp [new], by simp [new], fun _ _ h => nomatch h⟩

theorem receives_step (h : u.Receives) (ha : u.Admissible act)
    (hread : ∀ k, act ≠ .call k (.pollRead 0)) (hs : u.step act = some v) : v.Receives := by
  have hintact := intact_step h.delivery.intact h.awaits hread hs
  exact {
    ids := ids_step h.ids ha hs
    mapped := mapped_step h.mapped h.ids ha hs
    ordered := ordered_step h.ordered ha hs
    awaits := awaitsPsh_step h.awaits hs
    told := toldByClose_step h.told hs
    delivery := ⟨hintact, returned_step h.delivery hintact hs, delivered_step h ha hs⟩ }

end

end Smux.Session
