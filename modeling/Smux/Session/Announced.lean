import Smux.Session.Opening

/-!
# What SYN and FIN leave behind

A peer that opens a stream finds it on the other side: a SYN of the peer's
parity has a stream once it is handled. And a FIN is the end of what its
stream gets: the stream's data channel has no sender from then on, and its
entry in the streams map is gone for good.
-/

namespace Smux.Session

open Runs

/-- A step with a conforming peer, and no `poll_read` into a full buffer. -/
def Conforming (p : Session × Act) : Prop :=
  p.1.Admissible p.2 ∧ ∀ k, p.2 ≠ .call k (.pollRead 0)

structure Announced (session : Session) : Prop where
  opened : ∀ syn ∈ session.handled, syn.cmd = .syn →
    session.validatePeerStreamId syn.streamId = .ok () →
    ∃ handle ∈ session.handles, handle.id = syn.streamId
  ended : ∀ fin ∈ session.handled, fin.cmd = .fin → ∀ handle ∈ session.handles,
    handle.phase ≠ .dropped → handle.id = fin.streamId →
    handle.stream.dataRx.connected = false

section
variable {u v w : Session} {act : Act} {frame : Frame} {handle handle' : Handle}

theorem announced_new (config : Config) (isClient : Bool) : (new config isClient).Announced := by
  constructor <;> simp [new]

theorem HandleStep.connected (h : HandleStep u act v handle handle')
    (hc : handle.stream.dataRx.connected = false) : handle'.stream.dataRx.connected = false := by
  cases h with
  | same | delivered => exact hc
  | called _ hcall => exact (Handle.step_frame hcall).2.2.trans hc
  | disconnected => rfl

theorem HandleStep.live (h : HandleStep u act v handle handle') (hlive : handle'.phase ≠ .dropped) :
    handle.phase ≠ .dropped := by
  cases h with
  | same | disconnected => exact hlive
  | delivered _ hl => exact hl
  | called _ hcall => exact (Handle.step_frame hcall).1

/-- A frame is handled after waiting only if it is a PSH. -/
theorem handled_step (haw : u.AwaitsPsh) (hs : u.step act = some v) (hf : frame ∈ v.handled)
    (hc : frame.cmd ≠ .psh) : frame ∈ u.handled ∨ act = .recv frame := by
  have hlast : ∀ {last : Frame}, (last.cmd = .psh ∨ act = .recv last) →
      frame ∈ u.handled ++ [last] → frame ∈ u.handled ∨ act = .recv frame := by
    intro last hlast hf
    refine (List.mem_append.mp hf).imp_right fun hf => ?_
    rw [List.mem_singleton.mp hf] at hc ⊢
    exact hlast.resolve_left hc
  cases step_ok hs with
  | ignored | syn | fin => exact hlast (.inr rfl) hf
  | psh hp hpsh =>
    have hpush := (hp.isPsh haw).2.1
    cases hp <;> cases hpsh <;> first | exact hlast (.inl hpush) hf | exact .inl hf
  | sessionClosing hn => exact hlast (.inl (haw _ _ _ hn).2.1) hf
  | _ => exact .inl hf

theorem opened_step (h : u.Announced) (hr : u.Receives) (hs : u.step act = some v) :
    ∀ syn ∈ v.handled, syn.cmd = .syn → v.validatePeerStreamId syn.streamId = .ok () →
      ∃ handle ∈ v.handles, handle.id = syn.streamId := by
  intro syn hsyn hc hpeer
  have hrole : u.validatePeerStreamId syn.streamId = .ok () := by
    rwa [validatePeerStreamId, step_isClient hs] at hpeer
  rcases handled_step hr.awaits hs hsyn (by rw [hc]; rintro ⟨⟩) with hold | rfl
  · exact step_kept_id hs (h.opened syn hold hc hrole)
  · by_cases href : u.refuses syn
    · -- it is refused for the stream that has its id
      obtain ⟨streamState, hst⟩ :=
        Option.ne_none_iff_exists'.mp (href.resolve_left fun hno => hno hrole)
      obtain ⟨handle, hk, hid⟩ := hr.mapped.entry hst
      exact step_kept_id hs ⟨handle, List.mem_of_getElem? hk, hid⟩
    · rcases step_unaccepted hs with ⟨-, -, hno⟩ | ⟨k, he, -⟩ | ⟨frame, he, -, hframe⟩
      · simp [synIds, Act.takes, hc] at hno
      · cases he
      · cases he
        obtain ⟨hr, -⟩ | ⟨-, -, hid⟩ := hframe
        · exact absurd hr href
        · obtain ⟨handle, hk, hid⟩ := Option.map_eq_some_iff.mp hid
          exact ⟨handle, List.mem_of_getElem? hk, hid⟩

/-- `handle_fin_frame` finds the stream of its frame in the map. -/
theorem removeStream_connected (h : Mapped u.streams u.handles u.handled) {streamId : UInt32}
    (hm : handle ∈ (u.removeStream streamId).handles) (hlive : handle.phase ≠ .dropped)
    (hid : handle.id = streamId) : handle.stream.dataRx.connected = false := by
  obtain ⟨k, hk⟩ := List.mem_iff_getElem?.mp hm
  rw [getElem_removeStream] at hk
  obtain ⟨before, hb, rfl⟩ := Option.map_eq_some_iff.mp hk
  split at hlive
  · rename_i hentry
    rw [if_pos hentry]
    rfl
  · rename_i hentry
    rw [if_neg hentry] at hid ⊢
    refine Bool.eq_false_iff.mpr fun hconn => hentry ?_
    obtain ⟨streamState, hs, rfl⟩ := h.live hb hlive hconn
    rw [← hid, hs]
    simp

/-- No stream opens under an id that a FIN was handled for. -/
theorem NewHandle.not_finished (hnew : NewHandle u act streamId phase) (hi : u.Ids) (ho : u.Ordered)
    (ha : u.Admissible act) (hf : frame ∈ u.handled) (hc : frame.cmd = .fin) :
    frame.streamId ≠ streamId := by
  intro hid
  cases hnew with
  | registered hreg =>
    obtain ⟨handle, hm, he⟩ := ho.own frame (List.mem_append_left _ hf) (by rw [hc]; rintro ⟨⟩)
      (hid ▸ (hi.allocated _ hreg).1)
    exact hi.unregistered _ hreg handle hm (he.trans hid)
  | incoming => exact ((ha.recv _ rfl).follows frame hf).fin hc hid

theorem fin_ok {fin : Frame} (haw : u.AwaitsPsh) (hs : u.step (.recv fin) = some v)
    (hc : fin.cmd = .fin) : v = (u.received.removeStream fin.streamId).finish fin := by
  cases step_ok hs with
  | fin => rfl
  | ignored _ _ hcase => rw [hc] at hcase; simp at hcase
  | syn _ _ hc' => rw [hc] at hc'; cases hc'
  | psh hp =>
    have hpush := (hp.isPsh haw).2.1
    cases hp
    rw [hc] at hpush
    cases hpush
  | called hcall => cases hcall

theorem ended_step (h : u.Announced) (hr : u.Receives) (ha : u.Admissible act)
    (hs : u.step act = some v) : ∀ fin ∈ v.handled, fin.cmd = .fin → ∀ handle ∈ v.handles,
      handle.phase ≠ .dropped → handle.id = fin.streamId →
      handle.stream.dataRx.connected = false := by
  intro fin hfin hc handle' hm hlive hid
  rcases handled_step hr.awaits hs hfin (by rw [hc]; rintro ⟨⟩) with hold | rfl
  · rcases step_mem hs hm with ⟨handle, hmu, hstep⟩ | ⟨streamId, phase, rfl, hnew⟩
    · exact hstep.connected
        (h.ended fin hold hc handle hmu (hstep.live hlive) (hstep.id_eq.symm.trans hid))
    · exact absurd hid.symm (hnew.not_finished hr.ids hr.ordered ha hold hc)
  · obtain rfl := fin_ok hr.awaits hs hc
    exact removeStream_connected (u := u.received) hr.mapped hm hlive hid

theorem announced_step (h : u.Announced) (hr : u.Receives) (ha : u.Admissible act)
    (hs : u.step act = some v) : v.Announced :=
  ⟨opened_step h hr hs, ended_step h hr ha hs⟩

theorem announced_run {config : Config} {isClient : Bool} {t : Session} {tr : List (Session × Act)}
    (hr : Run step (new config isClient) tr t)
    (hok : ∀ p ∈ tr, Conforming p) : t.Receives ∧ t.Announced := by
  have h0 := And.intro (receives_new config isClient) (announced_new config isClient)
  have hall : ∀ u ∈ visited tr t, u.Receives ∧ u.Announced := hr.invariant hok h0 fun h ho hs =>
    ⟨receives_step h.1 ho.1 ho.2 hs, announced_step h.2 h.1 ho.1 hs⟩
  exact hall t (last_visited ..)

/-- An entry of the map was there before, or is that of a new stream. -/
theorem mapEntry_step {streamId : UInt32} {streamState : StreamState} (hs : u.step act = some v)
    (he : v.streams streamId = some streamState) :
    u.streams streamId = some streamState ∨ ∃ phase, NewHandle u act streamId phase := by
  have hinsert : ∀ i (new : StreamState),
      (if streamId = i then some new else u.streams streamId) = some streamState →
      u.streams streamId = some streamState ∨ streamId = i := by
    intro i new he
    split at he
    · exact .inr ‹_›
    · exact .inl he
  have hremove : ∀ i, (if streamId = i then none else u.streams streamId) = some streamState →
      u.streams streamId = some streamState :=
    fun i he => (Option.ite_none_left_eq_some.mp he).2
  cases step_ok hs with
  | register hm =>
    rcases hinsert _ _ he with hu | rfl
    · exact .inl hu
    · exact .inr ⟨_, .registered hm⟩
  | syn _ _ hc hr =>
    rcases hinsert _ _ he with hu | rfl
    · exact .inl hu
    · exact .inr ⟨_, .incoming hc hr⟩
  | fin => exact .inl (hremove _ he)
  | psh hp hpsh =>
    refine .inl ?_
    cases hp <;> cases hpsh <;> first | exact he | exact hremove _ he
  | _ => exact .inl he

/-- The entry of a stream does not come back after its FIN. -/
theorem released_step
    (h : ∀ fin ∈ u.handled, fin.cmd = .fin → u.streams fin.streamId = none) (hi : u.Ids)
    (ho : u.Ordered) (haw : u.AwaitsPsh) (ha : u.Admissible act) (hs : u.step act = some v) :
    ∀ fin ∈ v.handled, fin.cmd = .fin → v.streams fin.streamId = none := by
  intro fin hfin hc
  refine Option.eq_none_iff_forall_ne_some.mpr fun streamState he => ?_
  rcases handled_step haw hs hfin (by rw [hc]; rintro ⟨⟩) with hold | rfl
  · rcases mapEntry_step hs he with hu | ⟨phase, hnew⟩
    · rw [h fin hold hc] at hu
      cases hu
    · exact hnew.not_finished hi ho ha hold hc rfl
  · obtain rfl := fin_ok haw hs hc
    have hgone : (u.received.removeStream fin.streamId).streams fin.streamId = none := if_pos rfl
    exact absurd (hgone.symm.trans he) (by rintro ⟨⟩)

end

end Smux.Session
