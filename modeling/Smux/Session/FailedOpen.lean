import Smux.Session.Lane

/-!
# Calls of `open_stream` that fail

`open_stream` puts the entry of its stream in the streams map before it waits
to send the SYN. When the send fails, or the future is dropped, `Drop for
Stream` tries to send a FIN, and nobody takes the entry back:
`leavesNoTrace_iff`.
-/

namespace Smux

open Runs

namespace Handle

variable {self self' : Handle} {config : Config} {state state' : SessionState} {channelOpen : Bool}
  {frames : List Frame}

theorem synResumed_refused
    (h : self.step config state false .synResumed = some (self', state', frames)) :
    self.phase = .registered ∧ self' = (self.dropStream .disconnected).1 := by
  simp only [step] at h
  split at h <;> cases h
  exact ⟨‹_›, rfl⟩

theorem openDropped_ok
    (h : self.step config state channelOpen (.openDropped room) = some (self', state', frames)) :
    (self.phase = .registered ∨ self.phase = .synQueued) ∧
      self' = (self.dropStream (answer channelOpen room)).1 := by
  simp only [step] at h
  split at h <;> cases h
  exact ⟨‹_›, rfl⟩

theorem dropStream_sent (hw : self.stream.isWriteClosed = false) (trySend : TrySend) :
    (self.dropStream trySend).1.sent =
      self.sent ++ if trySend = .sent then [.newFin 1 self.id] else [] := by
  unfold dropStream Stream.drop
  rw [hw]
  cases trySend <;> rfl

end Handle

namespace Session

-- ---------------------------------------------------------------------------
-- The end of a call
-- ---------------------------------------------------------------------------

/-- The stream of an `open_stream` that a step ends at its await, with an
error or by dropping its future. -/
def failedOpen (self : Session) : Act → Option Nat
  | .call k .synResumed => if self.channelOpen then none else some k
  | .call k (.openDropped _) => some k
  | _ => none

/-- What the frame channel answers to the FIN of the stream that goes. -/
def finAnswer (self : Session) : Act → TrySend
  | .call _ (.openDropped room) => Handle.answer self.channelOpen room
  | _ => .disconnected

/-- The entry in the streams map that leads to the stream is in it. -/
def listed (self : Session) (k : Nat) : Bool :=
  ((self.idAt k).bind self.streams).any (·.dataTx == k)

def synQueued (self : Session) (k : Nat) : Bool := self.handles[k]?.any (·.phase = .synQueued)

/-- Something else has taken the entry out of the map, the SYN is not queued,
and the FIN is not going to be. -/
def withdrawn (self : Session) (act : Act) : Bool :=
  match self.failedOpen act with
  | none => true
  | some k => !self.listed k && !self.synQueued k && self.finAnswer act ≠ .sent

-- ---------------------------------------------------------------------------
-- The streams map without a call
-- ---------------------------------------------------------------------------

/-- Does to a streams map what a step does to the session's, the insertion of
the stream's entry apart. -/
def replay (k : Nat) : Session × Act → (UInt32 → Option StreamState) → UInt32 → Option StreamState
  | (u, act), streams => fun i =>
    match u.step act with
    | none => streams i
    | some v =>
      if v.streams i = u.streams i ∨ (v.streams i).any (·.dataTx == k) then streams i
      else v.streams i

/-- What the streams map would be without the call that opens a stream. -/
def streamsWithout (k : Nat) (tr : List (Session × Act)) : UInt32 → Option StreamState :=
  tr.foldl (fun streams p => replay k p streams) fun _ => none

structure LeavesNoTrace (tr : List (Session × Act)) (t : Session) : Prop where
  /-- A call that fails before it has an id, -/
  refused : ∀ u v e, (u, .openStream) ∈ tr → u.step .openStream = some v →
    u.openStream.1 = .error e → v.streams = u.streams ∧ v.queued = u.queued
  /-- and one that fails at its await. -/
  streams : ∀ before u act after k v, tr = before ++ (u, act) :: after →
    u.failedOpen act = some k → u.step act = some v →
    v.streams = streamsWithout k (before ++ [(u, act)])
  frames : ∀ u act k handle, (u, act) ∈ tr → u.failedOpen act = some k →
    t.handles[k]? = some handle → handle.sent = []

section
variable {config : Config} {isClient : Bool} {u v t : Session} {act : Act} {k : Nat}
  {tr : List (Session × Act)}

theorem streamsWithout_snoc (hs : u.step act = some v) (i : UInt32) :
    streamsWithout k (tr ++ [(u, act)]) i =
      if v.streams i = u.streams i ∨ (v.streams i).any (·.dataTx == k) then streamsWithout k tr i
      else v.streams i := by
  simp only [streamsWithout, List.foldl_append, List.foldl_cons, List.foldl_nil, replay, hs]

/-- The map differs from what it would be in the entry of the stream, if at all. -/
theorem streamsWithout_run (hr : Run step (new config isClient) tr t) (k : Nat) (i : UInt32) :
    (streamsWithout k tr i).any (·.dataTx == k) = false ∧
      ((t.streams i).any (·.dataTx == k) = false → streamsWithout k tr i = t.streams i) := by
  induction hr with
  | nil => exact ⟨rfl, fun _ => rfl⟩
  | @snoc tr u act v _ hs ih =>
    rw [streamsWithout_snoc hs]
    split
    · rename_i hkept
      refine ⟨ih.1, fun hv => ?_⟩
      rcases hkept with hkept | hleads
      · rw [hkept] at hv ⊢
        exact ih.2 hv
      · rw [hv] at hleads
        cases hleads
    · rename_i hchanged
      have hv : (v.streams i).any (·.dataTx == k) = false := by
        simpa using fun h => hchanged (.inr h)
      exact ⟨hv, fun _ => rfl⟩

theorem streams_eq_without (hr : Run step (new config isClient) tr t) (hrouted : t.Routed)
    (k : Nat) : t.streams = streamsWithout k tr ↔ t.listed k = false := by
  constructor
  · intro h
    rw [listed]
    cases hid : t.idAt k with
    | none => rfl
    | some i =>
      rw [Option.bind_some, h]
      exact (streamsWithout_run hr k i).1
  · intro h
    funext i
    refine ((streamsWithout_run hr k i).2 ?_).symm
    cases hst : t.streams i with
    | none => rfl
    | some streamState =>
      have hid := hrouted _ _ hst
      rw [Option.any_some, beq_eq_false_iff_ne]
      rintro rfl
      rw [listed, hid, Option.bind_some, hst] at h
      simp at h

-- ---------------------------------------------------------------------------
-- The stream of a call
-- ---------------------------------------------------------------------------

/-- What the stream of a call at its await has sent. -/
structure Unreturned (handle : Handle) : Prop where
  writeOpen : handle.phase = .registered ∨ handle.phase = .synQueued →
    handle.stream.isWriteClosed = false
  unsent : handle.phase = .registered → handle.sent = []
  sent : handle.phase = .synQueued → handle.sent ≠ []

theorem unreturned_step (h : ∀ handle ∈ u.handles, Unreturned handle) (hs : u.step act = some v) :
    ∀ handle ∈ v.handles, Unreturned handle := by
  intro handle' hm
  rcases step_mem hs hm with ⟨handle, hm, hstep⟩ | ⟨streamId, phase, rfl, hnew⟩
  · have hun := h handle hm
    cases hstep with
    | same | delivered | disconnected => exact ⟨hun.writeOpen, hun.unsent, hun.sent⟩
    | called _ hcall =>
      rcases Handle.step_ok hcall with ⟨_, _, _, -, hheld, -, -, rfl⟩ | ⟨-, -, _, _, _, rfl, hw⟩
      · constructor <;> simp [Handle.read, hheld]
      · cases hw with
        | syn hph =>
          refine ⟨fun _ => hun.writeOpen (.inl hph), by rintro ⟨⟩, fun _ => ?_⟩
          simp [Handle.wrote]
        | _ => exact ⟨by rintro (⟨⟨⟩⟩ | ⟨⟨⟩⟩), by rintro ⟨⟩, by rintro ⟨⟩⟩
  · cases hnew with
    | registered => exact ⟨fun _ => rfl, fun _ => rfl, by rintro ⟨⟩⟩
    | incoming => exact ⟨fun _ => rfl, fun _ => rfl, by rintro ⟨⟩⟩

/-- The call ends with its stream dropped, and the streams map as it was. -/
theorem failedOpen_ok (hs : u.step act = some v) (hf : u.failedOpen act = some k) :
    ∃ handle, u.handles[k]? = some handle ∧
      (handle.phase = .registered ∨ handle.phase = .synQueued) ∧
      v.handles[k]? = some (handle.dropStream (u.finAnswer act)).1 ∧ v.streams = u.streams := by
  cases act with
  | call j call =>
    obtain ⟨handle, handle', state', sent, hk, hcall, hk', rfl⟩ := call_ok hs
    cases call with
    | synResumed =>
      simp only [failedOpen] at hf
      split at hf <;> cases hf
      rename_i hopen
      rw [eq_false_of_ne_true hopen] at hcall
      obtain ⟨hph, rfl⟩ := Handle.synResumed_refused hcall
      exact ⟨handle, hk, .inl hph, hk', rfl⟩
    | openDropped room =>
      cases hf
      obtain ⟨hph, rfl⟩ := Handle.openDropped_ok hcall
      exact ⟨handle, hk, hph, hk', rfl⟩
    | _ => cases hf
  | _ => cases hf

/-- A dropped stream sends nothing more. -/
theorem dropped_kept (hr : Run step u tr t) {handle : Handle} (hk : u.handles[k]? = some handle)
    (hph : handle.phase = .dropped) :
    ∃ handle', t.handles[k]? = some handle' ∧ handle'.phase = .dropped ∧
      handle'.sent = handle.sent := by
  induction hr with
  | nil => exact ⟨handle, hk, hph, rfl⟩
  | snoc _ hs ih =>
    obtain ⟨x, hx, hxp, hxs⟩ := ih
    obtain ⟨y, hy, hstep⟩ := step_kept hs hx
    cases hstep with
    | called _ hcall => exact absurd hxp (Handle.step_frame hcall).1
    | delivered _ hlive => exact absurd hxp hlive
    | same | disconnected => exact ⟨_, hy, hxp, hxs⟩

theorem sent_eq_nil {handle : Handle} (h : Unreturned handle)
    (hph : handle.phase = .registered ∨ handle.phase = .synQueued) (trySend : TrySend) :
    (handle.dropStream trySend).1.sent = [] ↔ handle.phase ≠ .synQueued ∧ trySend ≠ .sent := by
  rw [Handle.dropStream_sent (h.writeOpen hph), List.append_eq_nil_iff]
  rcases hph with hph | hph
  · simp [h.unsent hph, hph]
  · simp [h.sent hph, hph]

/-- What `open_stream` does up to the insertion leaves no trace in any case. -/
theorem openStream_kept (hs : u.step .openStream = some v) :
    v.streams = u.streams ∧ v.queued = u.queued := by
  cases step_ok hs with
  | called hcalls => cases hcalls
  | psh hp => cases hp
  | _ => exact ⟨rfl, rfl⟩

theorem traceless_iff {before after : List (Session × Act)}
    (hr : Run step (new config isClient) before u) (hs : u.step act = some v)
    (hafter : Run step v after t) (hf : u.failedOpen act = some k) :
    v.streams = streamsWithout k (before ++ [(u, act)]) ∧
        (∀ handle, t.handles[k]? = some handle → handle.sent = []) ↔
      u.withdrawn act := by
  have hr' : Run step (new config isClient) (before ++ [(u, act)]) v := hr.snoc hs
  have hrouted := hr'.always (routed_new config isClient) routed_step v (last_visited ..)
  have hunreturned : ∀ handle ∈ u.handles, Unreturned handle :=
    hr.always (by simp [new]) unreturned_step u (last_visited ..)
  obtain ⟨handle, hk, hph, hk', hstreams⟩ := failedOpen_ok hs hf
  obtain ⟨dropped, hkt, -, hsent⟩ := dropped_kept hafter hk' (Handle.phase_dropStream _)
  have hlisted : v.listed k = u.listed k := by
    rw [listed, idAt_step hs (List.getElem?_eq_some_iff.mp hk).1, hstreams, listed]
  have hframes : (∀ handle, t.handles[k]? = some handle → handle.sent = []) ↔
      handle.phase ≠ .synQueued ∧ u.finAnswer act ≠ .sent := by
    rw [← sent_eq_nil (hunreturned handle (List.mem_of_getElem? hk)) hph, ← hsent]
    simp [hkt]
  rw [streams_eq_without hr' hrouted, hlisted, hframes, withdrawn, hf]
  simp [synQueued, hk, and_assoc]

/-- Calls of `open_stream` that fail leave no trace, along a run, exactly if
each finds its entry gone from the streams map when it fails, and neither its
SYN nor its FIN gets into the frame channel. -/
theorem leavesNoTrace_iff (hr : Run step (new config isClient) tr t) :
    LeavesNoTrace tr t ↔ ∀ p ∈ tr, p.1.withdrawn p.2 := by
  constructor
  · rintro h ⟨u, act⟩ hp
    obtain ⟨before, after, rfl⟩ := List.append_of_mem hp
    obtain ⟨hr, v, hs, hafter⟩ := hr.split
    cases hf : u.failedOpen act with
    | none => rw [withdrawn, hf]
    | some k =>
      exact (traceless_iff hr hs hafter hf).mp
        ⟨h.streams before u act after k v rfl hf hs, fun handle => h.frames u act k handle hp hf⟩
  · intro hall
    refine ⟨fun u v _ _ hs _ => openStream_kept hs, ?_, ?_⟩
    · rintro before u act after k v rfl hf hs
      obtain ⟨hr, v', hs', hafter⟩ := hr.split
      cases hs.symm.trans hs'
      exact ((traceless_iff hr hs hafter hf).mpr (hall (u, act) (by simp))).1
    · intro u act k handle hp hf
      obtain ⟨before, after, rfl⟩ := List.append_of_mem hp
      obtain ⟨hr, v, hs, hafter⟩ := hr.split
      exact ((traceless_iff hr hs hafter hf).mpr (hall (u, act) hp)).2 handle

end

/-- A frame channel for one frame. -/
def oneFrame : Config := { Config.default with maxReceiveChannelBufferSize := 1 }

/-- The call waits for the second NOP to be sent. It fails when `send_loop`
ends instead, and the entry of its stream stays. -/
theorem not_leavesNoTrace_closed : oneFrame.validate = .ok () ∧
    ∃ tr t, Run step (new oneFrame true) tr t ∧
      tr.map Prod.snd = [.ping, .sendFrame, .ping, .openStream, .register 1, .close, .sendLoopEnded,
        .call 0 .synResumed] ∧
      ¬LeavesNoTrace tr t := by
  refine ⟨by decide, ?_⟩
  obtain ⟨tr, u, -, hr, hacts, hf, hstays⟩ := exec_sat step (new oneFrame true)
    [.ping, .sendFrame, .ping, .openStream, .register 1, .close, .sendLoopEnded]
    (fun tr u => tr.map Prod.snd =
        [.ping, .sendFrame, .ping, .openStream, .register 1, .close, .sendLoopEnded] ∧
      u.failedOpen (.call 0 .synResumed) = some 0 ∧
      (u.step (.call 0 .synResumed)).any fun v =>
        v.streams 1 ≠ streamsWithout 0 (tr ++ [(u, .call 0 .synResumed)]) 1) (by decide)
  obtain ⟨v, hs, hne⟩ := (Option.any_eq_true _ _).mp hstays
  refine ⟨_, v, hr.snoc hs, by simp [hacts], fun h => of_decide_eq_true hne ?_⟩
  exact congrFun (h.streams tr u _ [] 0 v rfl hf hs) 1

/-- A peer's FIN has taken the entry out before the call fails. -/
theorem leavesNoTrace_finFirst : ∃ tr t, Run step (new oneFrame true) tr t ∧
    tr.map Prod.snd = [.ping, .sendFrame, .ping, .openStream, .register 1, .recv (.newFin 1 1),
      .close, .sendLoopEnded, .call 0 .synResumed] ∧
    LeavesNoTrace tr t := by
  obtain ⟨tr, t, -, hr, hacts, hall⟩ := exec_sat step (new oneFrame true)
    [.ping, .sendFrame, .ping, .openStream, .register 1, .recv (.newFin 1 1), .close,
      .sendLoopEnded, .call 0 .synResumed]
    (fun tr _ => tr.map Prod.snd = [.ping, .sendFrame, .ping, .openStream, .register 1,
        .recv (.newFin 1 1), .close, .sendLoopEnded, .call 0 .synResumed] ∧
      ∀ p ∈ tr, p.1.withdrawn p.2) (by decide)
  exact ⟨tr, t, hr, hacts, (leavesNoTrace_iff hr).mpr hall⟩

end Session

end Smux
