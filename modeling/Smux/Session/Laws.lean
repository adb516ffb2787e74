import Smux.Session
import Smux.Handle.Laws

/-!
# What a step of a session can do
-/

namespace Smux.Session

/-- The session when `recv_loop` has got a frame. -/
def received (self : Session) : Session := { self with state := self.state.markDataReceived }

/-- The frame and the session of a pass through the loop of
`handle_psh_frame`: its first pass, or one after a wake-up. -/
inductive Pass (u : Session) : Act → Frame → Session → Prop
  | first : u.handling = none → frame.Valid u.config → frame.cmd = .psh → frame.data ≠ [] →
      Pass u (.recv frame) frame u.received
  | again : u.handling = some (.awaitingTokens frame tokensNotified closeNotified) →
      Pass u .tokensReturned frame u

def refuses (self : Session) (frame : Frame) : Prop :=
  self.validatePeerStreamId frame.streamId ≠ .ok () ∨ self.streams frame.streamId ≠ none

theorem handleSynFrame_ok {u : Session} {frame : Frame} :
    (u.handleSynFrame frame).1 = .ok () ↔ ¬u.refuses frame := by
  unfold handleSynFrame refuses
  cases hp : u.validatePeerStreamId frame.streamId with
  | error e => simp
  | ok => cases hs : u.streams frame.streamId <;> simp

/-- The call of a step on a stream, and the accept queue after it. -/
inductive Calls (u : Session) : Act → Nat → Handle.Act → List Nat → Prop
  | call : act ≠ .acceptReturned → Calls u (.call k act) k act u.incoming
  | accept : u.incoming = k :: waiting → Calls u .acceptStream k .acceptReturned waiting

/-- Everything a pass through the loop can do. -/
inductive Psh (u : Session) (frame : Frame) : Session → Prop
  | delivered : 0 < u.state.tokens → u.streams frame.streamId = some streamState →
      u.handles[streamState.dataTx]? = some handle → handle.phase ≠ .dropped →
      Psh u frame
        ({ u with
          handles := u.handles.set streamState.dataTx (handle.deliver frame.data) }.finish frame)
  | gone : 0 < u.state.tokens → u.streams frame.streamId = some streamState →
      (∀ handle, u.handles[streamState.dataTx]? = some handle → handle.phase = .dropped) →
      Psh u frame
        (({ u with state := u.state.returnTokens frame.data.length }.removeStream
          frame.streamId).finish frame)
  | unknown : 0 < u.state.tokens → u.streams frame.streamId = none →
      Psh u frame ({ u with state := u.state.returnTokens frame.data.length }.finish frame)
  | waits : u.state.tokens ≤ 0 →
      Psh u frame { u with
        state := u.state.takeTokens frame.data.length
        handling := some
          (.awaitingTokens frame u.state.tokensReturned.notified u.state.die.notified) }

theorem pshLoop_ok (u : Session) (frame : Frame) : Psh u frame (u.pshLoop frame) := by
  unfold pshLoop SessionState.getTokens
  split
  · rename_i htokens
    unfold dispatchPsh receiver
    cases hs : u.streams frame.streamId with
    | none => exact .unknown htokens hs
    | some streamState =>
      cases hh : u.handles[streamState.dataTx]? with
      | none => simp only [hh]; exact .gone htokens hs (by simp [hh])
      | some handle =>
        by_cases hd : handle.phase = .dropped
        · simp only [hh, hd, if_true]
          exact .gone htokens hs (by simp [hh, hd])
        · simp only [hh, hd, if_false]
          exact .delivered htokens hs hh hd
  · exact .waits (Int.not_lt.mp ‹_›)

inductive Step (u : Session) : Act → Session → Prop
  | nextStreamId : Step u .nextStreamId u.nextStreamId.2
  | openClosed : u.state.closed → Step u .openStream u
  | openFailed : u.state.closed = false → u.nextStreamId.1 = .error e →
      Step u .openStream u.nextStreamId.2
  | opened : u.state.closed = false → u.nextStreamId.1 = .ok streamId →
      Step u .openStream { u.nextStreamId.2 with allocated := streamId :: u.allocated }
  | register : streamId ∈ u.allocated →
      Step u (.register streamId)
        { u.insertStream streamId .registered with allocated := u.allocated.erase streamId }
  | called : Calls u act k call waiting → u.handles[k]? = some handle →
      handle.step u.config u.state u.channelOpen call = some (handle', state', sent) →
      Step u act
        ({ u with
          handles := u.handles.set k handle', state := state', incoming := waiting }.queue sent)
  | ignored : u.handling = none → frame.Valid u.config →
      (frame.cmd = .nop ∨ (∃ consumed window, frame.cmd = .upd consumed window) ∨
        frame.cmd = .psh ∧ frame.data = [] ∨ frame.cmd = .syn ∧ u.refuses frame) →
      Step u (.recv frame) (u.received.finish frame)
  | syn : u.handling = none → frame.Valid u.config → frame.cmd = .syn → ¬u.refuses frame →
      Step u (.recv frame)
        { u.received.insertStream frame.streamId .incoming with
          handling := some (.accepting u.handles.length), handled := u.handled ++ [frame] }
  | fin : u.handling = none → frame.Valid u.config → frame.cmd = .fin →
      Step u (.recv frame) ((u.received.removeStream frame.streamId).finish frame)
  | psh : Pass u act frame w → Psh w frame v → Step u act v
  | accepted : u.handling = some (.accepting k) → u.incoming.length < acceptBacklog →
      Step u .accepted { u with handling := none, incoming := u.incoming ++ [k] }
  | sessionClosing : u.handling = some (.awaitingTokens frame tokensNotified closeNotified) →
      u.state.die.wakes closeNotified →
      Step u .sessionClosing
        ({ u with state := u.state.returnTokens frame.data.length }.finish frame)
  | ping : u.channelOpen → Step u .ping (u.queue [.newNop u.config.version])
  | pingRefused : u.channelOpen = false → Step u .ping u
  | keepAliveTimeout : (state' = u.state.checkAndResetDataReceived.2 ∨
        state' = u.state.checkAndResetDataReceived.2.close) →
      Step u .keepAliveTimeout { u with state := state' }
  | sendFrame : u.frames = frame :: left → u.channelOpen →
      Step u .sendFrame { u with frames := left }
  | close : Step u .close { u with state := u.state.close }
  | sendLoopEnded : Step u .sendLoopEnded { u with state := u.state.close, channelOpen := false }

theorem handleFrame_ok {u : Session} {frame : Frame} (hn : u.handling = none)
    (hv : frame.Valid u.config) : Step u (.recv frame) (u.received.handleFrame frame) := by
  unfold handleFrame
  cases hcmd : frame.cmd with
  | syn =>
    have hfinish : { u.received with handled := u.received.handled ++ [frame] } =
        u.received.finish frame := by
      simp only [finish, received, hn]
    have hpeer : u.received.validatePeerStreamId frame.streamId =
        u.validatePeerStreamId frame.streamId := rfl
    simp only [handleSynFrame, hpeer]
    split
    · rename_i hp
      rw [hfinish]
      exact .ignored hn hv (.inr (.inr (.inr ⟨hcmd, .inl (by simp [hp])⟩)))
    · rename_i hp
      split
      · rename_i hs
        rw [hfinish]
        exact .ignored hn hv
          (.inr (.inr (.inr ⟨hcmd, .inr (Option.isSome_iff_ne_none.mp hs)⟩)))
      · rename_i hs
        refine .syn hn hv hcmd ?_
        rintro (h | h)
        · exact h hp
        · exact hs (Option.isSome_iff_ne_none.mpr h)
  | fin => exact .fin hn hv hcmd
  | psh =>
    simp only [handlePshFrame]
    split
    · rename_i h0
      exact .ignored hn hv (.inr (.inr (.inl ⟨hcmd, List.length_eq_zero_iff.mp h0⟩)))
    · rename_i h0
      exact .psh (.first hn hv hcmd (fun h => h0 (by rw [h]; rfl))) (pshLoop_ok ..)
  | nop => exact .ignored hn hv (.inl hcmd)
  | upd consumed window => exact .ignored hn hv (.inr (.inl ⟨_, _, hcmd⟩))

theorem step_call (u : Session) (k : Nat) {act : Handle.Act} (hact : act ≠ .acceptReturned) :
    u.step (.call k act) = u.handles[k]?.bind fun handle =>
      (handle.step u.config u.state u.channelOpen act).bind fun r =>
        some ({ u with handles := u.handles.set k r.1, state := r.2.1 }.queue r.2.2) := by
  cases act <;> first | rfl | exact absurd rfl hact

theorem call_ok {u v : Session} {act : Handle.Act} (hs : u.step (.call k act) = some v) :
    ∃ handle handle' state' sent, u.handles[k]? = some handle ∧
      handle.step u.config u.state u.channelOpen act = some (handle', state', sent) ∧
      v.handles[k]? = some handle' ∧
      v = { u with handles := u.handles.set k handle', state := state' }.queue sent := by
  have hact : act ≠ .acceptReturned := by rintro rfl; cases hs
  rw [step_call u k hact] at hs
  obtain ⟨handle, hk, hs⟩ := Option.bind_eq_some_iff.mp hs
  obtain ⟨⟨handle', state', sent⟩, hcall, hv⟩ := Option.bind_eq_some_iff.mp hs
  cases hv
  have hlt := (List.getElem?_eq_some_iff.mp hk).1
  exact ⟨handle, handle', state', sent, hk, hcall, List.getElem?_set_self hlt, rfl⟩

theorem step_ok {u v : Session} {act : Act} (h : u.step act = some v) : Step u act v := by
  cases act with
  | nextStreamId => cases h; exact .nextStreamId
  | openStream =>
    simp only [step, openStream, SessionState.isClosed] at h
    cases hc : u.state.closed with
    | true =>
      simp only [hc, if_true] at h
      cases h
      exact .openClosed hc
    | false =>
      simp only [hc, Bool.false_eq_true, if_false] at h
      cases hid : u.nextStreamId with
      | mk result w =>
        rw [hid] at h
        have hw : w = u.nextStreamId.2 := by rw [hid]
        cases result with
        | error e => cases h; subst hw; exact .openFailed hc (by rw [hid])
        | ok streamId => cases h; subst hw; exact .opened hc (by rw [hid])
  | register streamId =>
    simp only [step] at h
    split at h <;> cases h
    exact .register ‹_›
  | call k act =>
    have hact : act ≠ .acceptReturned := by rintro rfl; cases h
    obtain ⟨handle, handle', state', sent, hk, hcall, -, rfl⟩ := call_ok h
    exact .called (.call hact) hk hcall
  | acceptStream =>
    simp only [step] at h
    split at h
    · cases h
    · rename_i k incoming hi
      simp only [bind, Option.bind_eq_some_iff, pure, Option.some.injEq] at h
      obtain ⟨handle, hk, ⟨handle', state', frames⟩, hs, rfl⟩ := h
      exact .called (.accept hi) hk hs
  | recv frame =>
    simp only [step] at h
    split at h <;> cases h
    rename_i hc
    exact handleFrame_ok (by simpa using hc.1) (Frame.validate_ok.mp hc.2)
  | accepted =>
    simp only [step] at h
    split at h
    · rename_i hh
      split at h <;> cases h
      exact .accepted hh ‹_›
    · cases h
  | tokensReturned =>
    simp only [step] at h
    split at h
    · rename_i hh
      split at h <;> cases h
      exact .psh (.again hh) (pshLoop_ok ..)
    · cases h
  | sessionClosing =>
    simp only [step] at h
    split at h
    · rename_i hh
      split at h <;> cases h
      exact .sessionClosing hh ‹_›
    · cases h
  | ping =>
    cases hc : u.channelOpen with
    | true => simp only [step, hc, if_true] at h; cases h; exact .ping hc
    | false =>
      simp only [step, hc, Bool.false_eq_true, if_false] at h
      cases h
      exact .pingRefused hc
  | keepAliveTimeout =>
    cases h
    refine .keepAliveTimeout ?_
    split
    · exact .inr rfl
    · exact .inl rfl
  | sendFrame =>
    simp only [step] at h
    split at h
    · cases h
    · rename_i hf
      split at h <;> cases h
      exact .sendFrame hf ‹_›
  | close => cases h; exact .close
  | sendLoopEnded => cases h; exact .sendLoopEnded

-- ---------------------------------------------------------------------------
-- What happens to a handle
-- ---------------------------------------------------------------------------

inductive HandleStep (u : Session) (act : Act) (v : Session) : Handle → Handle → Prop
  | same : HandleStep u act v handle handle
  | called : Calls u act k call waiting →
      handle.step u.config u.state u.channelOpen call = some (handle', v.state, sent) →
      HandleStep u act v handle handle'
  | delivered : Pass u act frame w → handle.phase ≠ .dropped →
      HandleStep u act v handle (handle.deliver frame.data)
  | disconnected : HandleStep u act v handle handle.disconnect

def idAt (self : Session) (k : Nat) : Option UInt32 := self.handles[k]?.map Handle.id

inductive NewHandle (u : Session) : Act → UInt32 → Phase → Prop
  | registered : streamId ∈ u.allocated →
      NewHandle u (.register streamId) streamId .registered
  | incoming : frame.cmd = .syn → ¬u.refuses frame →
      NewHandle u (.recv frame) frame.streamId .incoming

theorem HandleStep.id_eq (h : HandleStep u act v handle handle') : handle'.id = handle.id := by
  cases h with
  | called _ hcall => exact (Handle.step_frame hcall).2.1
  | _ => rfl

section
variable {u v w : Session} {act : Act} {k : Nat} {handle handle' : Handle} {frame : Frame}

theorem length_dropEntry (u : Session) (entry : Option StreamState) :
    (u.dropEntry entry).length = u.handles.length := by
  cases entry <;> simp [dropEntry]

theorem getElem_dropEntry {entry : Option StreamState}
    (h : (u.dropEntry entry)[k]? = some handle') :
    ∃ handle, u.handles[k]? = some handle ∧ HandleStep u act v handle handle' := by
  cases entry with
  | none => exact ⟨handle', h, .same⟩
  | some streamState =>
    rw [dropEntry, List.getElem?_modify] at h
    obtain ⟨handle, hk, rfl⟩ := Option.map_eq_some_iff.mp h
    refine ⟨handle, hk, ?_⟩
    split
    · exact .disconnected
    · exact .same

theorem getElem_insertStream {streamId : UInt32} {phase : Phase}
    (h : (u.insertStream streamId phase).handles[k]? = some handle') :
    (∃ handle, u.handles[k]? = some handle ∧ HandleStep u act v handle handle') ∨
      k = u.handles.length ∧ handle' = .new streamId phase := by
  simp only [insertStream, List.getElem?_append, length_dropEntry] at h
  split at h
  · exact .inl (getElem_dropEntry h)
  · rename_i hk
    obtain ⟨h0, rfl⟩ : k - u.handles.length = 0 ∧ handle' = .new streamId phase := by
      cases hn : k - u.handles.length with
      | zero => rw [hn] at h; exact ⟨rfl, by simpa using h.symm⟩
      | succ n => rw [hn] at h; simp at h
    exact .inr ⟨by omega, rfl⟩

/-- A handle of a list that is set in one place is the one set, or is in
another place. -/
theorem set_cases {handles : List Handle} (h : (handles.set n handle)[k]? = some handle') :
    n = k ∧ handle' = handle ∨ n ≠ k ∧ handles[k]? = some handle' := by
  rw [List.getElem?_set] at h
  split at h
  · rename_i he
    split at h <;> cases h
    exact .inl ⟨he, rfl⟩
  · rename_i hne
    exact .inr ⟨hne, h⟩

theorem getElem_set (hk : (u.handles.set n handle)[k]? = some handle')
    (hn : u.handles[n]? = some before) (hstep : HandleStep u act v before handle) :
    ∃ handle, u.handles[k]? = some handle ∧ HandleStep u act v handle handle' := by
  rcases set_cases hk with ⟨rfl, rfl⟩ | ⟨-, hk⟩
  · exact ⟨before, hn, hstep⟩
  · exact ⟨handle', hk, .same⟩

/-- A handle after a step was there before, or the step made it. -/
theorem step_handle (hs : u.step act = some v) (hk : v.handles[k]? = some handle') :
    (∃ handle, u.handles[k]? = some handle ∧ HandleStep u act v handle handle') ∨
      k = u.handles.length ∧ ∃ streamId phase, handle' = .new streamId phase ∧
        NewHandle u act streamId phase := by
  cases step_ok hs with
  | register hi =>
    exact (getElem_insertStream hk).imp_right fun h => ⟨h.1, _, _, h.2, .registered hi⟩
  | syn _ _ hc hr =>
    have hk : (u.insertStream _ .incoming).handles[k]? = some handle' := hk
    exact (getElem_insertStream hk).imp_right fun h => ⟨h.1, _, _, h.2, .incoming hc hr⟩
  | called hcall hh hstep => exact .inl (getElem_set hk hh (.called hcall hstep))
  | fin => exact .inl (getElem_dropEntry hk)
  | psh hp hpsh =>
    cases hp with
    | first h1 h2 h3 h4 =>
      cases hpsh with
      | delivered _ _ hh hlive => exact .inl (getElem_set hk hh (.delivered (.first h1 h2 h3 h4) hlive))
      | gone => exact .inl (getElem_dropEntry hk)
      | _ => exact .inl ⟨_, hk, .same⟩
    | again h1 =>
      cases hpsh with
      | delivered _ _ hh hlive => exact .inl (getElem_set hk hh (.delivered (.again h1) hlive))
      | gone => exact .inl (getElem_dropEntry hk)
      | _ => exact .inl ⟨_, hk, .same⟩
  | _ => exact .inl ⟨_, hk, .same⟩

theorem step_mem (hs : u.step act = some v) (hm : handle' ∈ v.handles) :
    (∃ handle ∈ u.handles, HandleStep u act v handle handle') ∨
      ∃ streamId phase, handle' = .new streamId phase ∧ NewHandle u act streamId phase := by
  obtain ⟨k, hk⟩ := List.mem_iff_getElem?.mp hm
  rcases step_handle hs hk with ⟨handle, hu, hstep⟩ | ⟨-, hnew⟩
  · exact .inl ⟨handle, List.mem_of_getElem? hu, hstep⟩
  · exact .inr hnew

theorem length_step (hs : u.step act = some v) : u.handles.length ≤ v.handles.length := by
  cases step_ok hs with
  | register => simp [insertStream, length_dropEntry]
  | syn => simp [insertStream, length_dropEntry, received]
  | called => simp [queue]
  | fin => exact Nat.le_of_eq (length_dropEntry u.received _).symm
  | psh hp hpsh =>
    cases hp <;> cases hpsh <;>
      simp [finish, removeStream, length_dropEntry, received]
  | _ => exact Nat.le_refl _

theorem step_kept (hs : u.step act = some v) (hk : u.handles[k]? = some handle) :
    ∃ handle', v.handles[k]? = some handle' ∧ HandleStep u act v handle handle' := by
  have hlt := (List.getElem?_eq_some_iff.mp hk).1
  obtain ⟨handle', hk'⟩ : ∃ handle', v.handles[k]? = some handle' :=
    ⟨_, List.getElem?_eq_getElem (Nat.lt_of_lt_of_le hlt (length_step hs))⟩
  rcases step_handle hs hk' with ⟨x, hx, hstep⟩ | ⟨he, -⟩
  · rw [hk] at hx
    cases hx
    exact ⟨_, hk', hstep⟩
  · exact absurd he (Nat.ne_of_lt hlt)

/-- A step that is no call leaves every stream in its phase. -/
theorem step_phase (hs : u.step act = some v) (hact : ∀ k call waiting, ¬Calls u act k call waiting)
    (hm : handle ∈ u.handles) : ∃ handle' ∈ v.handles, handle'.phase = handle.phase := by
  obtain ⟨k, hk⟩ := List.mem_iff_getElem?.mp hm
  obtain ⟨handle', hk', hstep⟩ := step_kept hs hk
  refine ⟨handle', List.mem_of_getElem? hk', ?_⟩
  cases hstep with
  | called hcall => exact absurd hcall (hact _ _ _)
  | _ => rfl

theorem idAt_step (hs : u.step act = some v) (hk : k < u.handles.length) : v.idAt k = u.idAt k := by
  obtain ⟨handle', hk', hstep⟩ := step_kept hs (List.getElem?_eq_getElem hk)
  rw [idAt, idAt, hk', List.getElem?_eq_getElem hk, Option.map_some, Option.map_some, hstep.id_eq]

theorem step_kept_id (hs : u.step act = some v) (h : ∃ handle ∈ u.handles, handle.id = streamId) :
    ∃ handle ∈ v.handles, handle.id = streamId := by
  obtain ⟨handle, hm, hid⟩ := h
  obtain ⟨k, hk⟩ := List.mem_iff_getElem?.mp hm
  obtain ⟨handle', hk', hstep⟩ := step_kept hs hk
  exact ⟨handle', List.mem_of_getElem? hk', hstep.id_eq.trans hid⟩

/-- The frame that `handle_psh_frame` waits with is one it has looked at. -/
def AwaitsPsh (u : Session) : Prop :=
  ∀ frame tokensNotified closeNotified,
    u.handling = some (.awaitingTokens frame tokensNotified closeNotified) →
    frame.Valid u.config ∧ frame.cmd = .psh ∧ frame.data ≠ []

theorem Pass.isPsh (hp : Pass u act frame w) (h : u.AwaitsPsh) :
    frame.Valid u.config ∧ frame.cmd = .psh ∧ frame.data ≠ [] := by
  cases hp with
  | first _ hv hc hne => exact ⟨hv, hc, hne⟩
  | again hh => exact h _ _ _ hh

theorem awaitsPsh_step (h : u.AwaitsPsh) (hs : u.step act = some v) : v.AwaitsPsh := by
  have hnone : ∀ {w : Session}, w.handling = none → w.AwaitsPsh := by
    intro w hn frame tokensNotified closeNotified hw
    rw [hn] at hw
    cases hw
  cases step_ok hs with
  | ignored | fin | accepted | sessionClosing => exact hnone rfl
  | syn => intro frame _ _ hw; cases hw
  | psh hp hpsh =>
    have hframe := hp.isPsh h
    cases hpsh with
    | waits =>
      intro frame _ _ hw
      cases hw
      cases hp <;> exact hframe
    | _ => exact hnone rfl
  | _ => exact h

theorem step_config (hs : u.step act = some v) : v.config = u.config := by
  cases step_ok hs with
  | psh hp hpsh => cases hp <;> cases hpsh <;> rfl
  | _ => rfl

theorem step_isClient (hs : u.step act = some v) : v.isClient = u.isClient := by
  cases step_ok hs with
  | psh hp hpsh => cases hp <;> cases hpsh <;> rfl
  | _ => rfl

theorem step_handled (hs : u.step act = some v) : u.handled <+: v.handled := by
  cases step_ok hs with
  | syn | fin | ignored | sessionClosing => exact List.prefix_append ..
  | psh hp hpsh =>
    cases hp <;> cases hpsh <;> first | exact List.prefix_append .. | exact List.prefix_rfl
  | _ => exact List.prefix_rfl

/-- The closed flag and its notifier: a step leaves both alone, or it is one of
the three that may close the session. -/
theorem step_closed (hs : u.step act = some v) :
    (v.state.closed = u.state.closed ∧ v.state.die = u.state.die) ∨
      (act = .close ∨ act = .sendLoopEnded ∨ act = .keepAliveTimeout) ∧
        v.state.closed ∧ v.state.die = u.state.close.die := by
  cases step_ok hs with
  | called _ _ hcall =>
    rcases Handle.step_ok hcall with ⟨_, _, _, -, -, -, hr, -⟩ | ⟨-, rfl, -⟩
    · exact .inl (Stream.pollRead_frame hr).2
    · exact .inl ⟨rfl, rfl⟩
  | psh hp hpsh => cases hp <;> cases hpsh <;> exact .inl ⟨rfl, rfl⟩
  | keepAliveTimeout hstate =>
    rcases hstate with rfl | rfl
    · exact .inl ⟨rfl, rfl⟩
    · refine .inr ⟨.inr (.inr rfl), SessionState.close_closed _, ?_⟩
      rw [SessionState.close_die, SessionState.close_die]
      rfl
  | close => exact .inr ⟨.inl rfl, SessionState.close_closed _, rfl⟩
  | sendLoopEnded => exact .inr ⟨.inr (.inl rfl), SessionState.close_closed _, rfl⟩
  | _ => exact .inl ⟨rfl, rfl⟩

/-- The flag that keep-alive looks at is set by every frame, and reset by the
timeout tick alone. -/
theorem step_dataReceived (hs : u.step act = some v) :
    (∃ frame, act = .recv frame ∧ v.state.dataReceived) ∨ act = .keepAliveTimeout ∨
      (∀ frame, act ≠ .recv frame) ∧ v.state.dataReceived = u.state.dataReceived := by
  cases step_ok hs with
  | called hcall _ hcalled =>
    refine .inr (.inr ⟨by cases hcall <;> exact nofun, ?_⟩)
    rcases Handle.step_ok hcalled with ⟨_, _, _, -, -, -, hr, -⟩ | ⟨-, rfl, -⟩
    · obtain ⟨-, rfl | ⟨count, rfl⟩⟩ := Stream.pollRead_returns hr <;> rfl
    · rfl
  | psh hp hpsh =>
    cases hp with
    | first => exact .inl ⟨_, rfl, by cases hpsh <;> rfl⟩
    | again => exact .inr (.inr ⟨nofun, by cases hpsh <;> rfl⟩)
  | ignored | syn | fin => exact .inl ⟨_, rfl, rfl⟩
  | keepAliveTimeout => exact .inr (.inl rfl)
  | close | sendLoopEnded =>
    refine .inr (.inr ⟨nofun, ?_⟩)
    unfold SessionState.close
    split <;> rfl
  | _ => exact .inr (.inr ⟨nofun, rfl⟩)

-- ---------------------------------------------------------------------------
-- The frame channel
-- ---------------------------------------------------------------------------

theorem step_queued (hs : u.step act = some v) (hact : act ≠ .sendFrame) :
    ∃ sent, v.queued = u.queued ++ sent ∧
      (v.channelOpen → u.channelOpen ∧ v.frames = u.frames ++ sent) := by
  have hsame : v.queued = u.queued → v.channelOpen = u.channelOpen → v.frames = u.frames →
      ∃ sent, v.queued = u.queued ++ sent ∧
        (v.channelOpen → u.channelOpen ∧ v.frames = u.frames ++ sent) := by
    intro hq hc hf
    exact ⟨[], by simp [hq], fun ho => ⟨hc ▸ ho, by simp [hf]⟩⟩
  cases step_ok hs with
  | called => exact ⟨_, rfl, fun ho => ⟨ho, rfl⟩⟩
  | ping => exact ⟨_, rfl, fun ho => ⟨ho, rfl⟩⟩
  | sendLoopEnded => exact ⟨[], (List.append_nil _).symm, nofun⟩
  | sendFrame => exact absurd rfl hact
  | psh hp hpsh => cases hp <;> cases hpsh <;> exact hsame rfl rfl rfl
  | _ => exact hsame rfl rfl rfl

theorem sendFrame_ok (hs : u.step .sendFrame = some v) :
    ∃ frame left, u.frames = frame :: left ∧ u.channelOpen ∧ v = { u with frames := left } := by
  cases step_ok hs with
  | called hcall => cases hcall
  | psh hp => cases hp
  | sendFrame hf ho => exact ⟨_, _, hf, ho, rfl⟩

/-- The history of the frame channel only grows. -/
theorem queued_step (hs : u.step act = some v) : u.queued <+: v.queued := by
  by_cases hact : act = .sendFrame
  · subst hact
    obtain ⟨_, _, -, -, rfl⟩ := sendFrame_ok hs
    exact List.prefix_rfl
  · obtain ⟨sent, hq, -⟩ := step_queued hs hact
    exact hq ▸ List.prefix_append ..

/-- Once its receiver is gone, nothing is queued. -/
theorem step_queued_of_closed (hs : u.step act = some v) (hc : u.channelOpen = false) :
    v.queued = u.queued := by
  cases step_ok hs with
  | called _ _ hcall =>
    rw [hc] at hcall
    rw [Handle.step_refused hcall]
    exact List.append_nil _
  | ping ho => rw [hc] at ho; cases ho
  | psh hp hpsh => cases hp <;> cases hpsh <;> rfl
  | _ => rfl

theorem step_channelOpen (hs : u.step act = some v) :
    v.channelOpen = u.channelOpen ∨ act = .sendLoopEnded := by
  cases step_ok hs with
  | sendLoopEnded => exact .inr rfl
  | psh hp hpsh => cases hp <;> cases hpsh <;> exact .inl rfl
  | _ => exact .inl rfl

end

end Smux.Session
