import Smux.Alone

/-!
# The FIN of a stream

A stream sends its FIN from `poll_shutdown`, from `close` or when it is
dropped. Whichever does, no frame follows it and no second FIN is sent.
Whether one is sent at all depends on the last: `Drop` cannot wait, and gives
up when it finds the frame channel full.
-/

namespace Smux

open Runs

namespace Handle

def finFrame (self : Handle) : Frame := .newFin 1 self.id

/-- The frames queued, and the FIN that a `close` is waiting to queue. -/
def outgoing (self : Handle) : List Frame :=
  self.sent ++ if self.phase = .closing then [self.finFrame] else []

def PshThen (frames fin : List Frame) : Prop :=
  ∃ pshs, (∀ frame ∈ pshs, frame.cmd = .psh) ∧ frames = pshs ++ fin

section
variable {self : Handle} {config : Config} {pshs fin : List Frame}

theorem Sends.pshThen (h : self.Sends config [] pshs fin) : PshThen self.sent fin := by
  refine ⟨pshs, fun frame hf => ?_, by rw [h.sent, List.nil_append]⟩
  obtain ⟨data, rfl⟩ := h.isPsh frame hf
  rfl

theorem Sends.outgoing (h : self.Sends config [] pshs fin) :
    PshThen self.outgoing [] ∨ PshThen self.outgoing [self.finFrame] := by
  have hsent := h.pshThen
  unfold Handle.outgoing
  split
  · obtain ⟨-, rfl⟩ := h.closing ‹_›
    obtain ⟨pshs, hpsh, heq⟩ := hsent
    exact .inr ⟨pshs, hpsh, by rw [heq, List.append_nil]⟩
  · rw [List.append_nil]
    rcases h.isFin with rfl | ⟨rfl, -⟩
    · exact .inl hsent
    · exact .inr hsent

theorem PshThen.of_mem {frames : List Frame} (h : PshThen frames [] ∨ PshThen frames [self.finFrame])
    (hf : self.finFrame ∈ frames) : PshThen frames [self.finFrame] := by
  rcases h with ⟨pshs, hpsh, rfl⟩ | h
  · rw [List.append_nil] at hf
    exact nomatch hpsh _ hf
  · exact h

/-- A closed write side has its FIN queued, or waiting to be. -/
def FinAssured (self : Handle) : Prop :=
  self.phase ≠ .dropped → self.stream.isWriteClosed → self.finFrame ∈ self.outgoing

/-- For as long as the frame channel is open, only a `close` that is given up
loses the FIN. -/
theorem finAssured_step {syn : List Frame} {state state' : SessionState} {self' : Handle}
    {frames : List Frame} (h : self.FinAssured) (hsends : self.Sends config syn pshs fin)
    (hact : act ≠ .closeDropped)
    (hs : self.step config state true act = some (self', state', frames)) : self'.FinAssured := by
  rcases step_ok hs with ⟨_, _, _, -, -, -, hr, rfl⟩ | ⟨-, -, _, _, _, rfl, hw⟩
  · obtain ⟨⟨current, chunks, rfl⟩, -⟩ := Stream.pollRead_frame hr
    exact h
  · intro hlive hclosed
    cases hw with
    | quiet hph =>
      have hmem := h (by simp [hph]) hclosed
      simpa [outgoing, wrote, finFrame, id, hph] using hmem
    | psh => cases hclosed
    | fin => simp [outgoing, wrote, finFrame, id]
    | finRefused _ _ hc => cases hc
    | finPending => simp [outgoing, wrote]
    | finResumed => simp [outgoing, wrote, finFrame, id]
    | finAbandoned _ ha =>
      rcases ha with rfl | hc
      · exact absurd rfl hact
      · cases hc
    | syn hph => exact absurd hclosed (by simp [wrote, (hsends.fresh (.inl hph)).2])
    | handedOut hph =>
      rcases hph with hph | hph
      · exact absurd hclosed (by simp [wrote, hsends.synQueued hph])
      · exact absurd hclosed (by simp [wrote, (hsends.fresh (.inr hph)).2])
    | dropFin => exact absurd rfl hlive
    | dropSilent => exact absurd rfl hlive

theorem step_drop {state state' : SessionState} {self' : Handle} {frames : List Frame}
    (h : self.step config state true (.drop room) = some (self', state', frames)) :
    self.phase = .held ∧ state' = state ∧ self' = self.wrote .dropped true []
      (if self.stream.isWriteClosed ∨ room = false then [] else [self.finFrame]) := by
  simp only [step] at h
  split at h <;> cases h
  refine ⟨‹_›, rfl, ?_⟩
  unfold dropStream Stream.drop
  cases hw : self.stream.isWriteClosed with
  | true => simp [wrote, queue, ← hw]
  | false => cases room <;> simp [wrote, queue, answer, finFrame, id]

end

end Handle

namespace Alone

/-- The FIN is sent exactly once and last, along a run. -/
structure FinOnceAndLast (tr : List (Alone × Act)) (t : Alone) : Prop where
  dropped : ∀ u ∈ visited tr t, u.handle.phase = .dropped →
    Handle.PshThen u.handle.outgoing [u.handle.finFrame]
  closed : ∀ u ∈ visited tr t, u.handle.stream.isWriteClosed → u.handle.finFrame ∈ u.handle.outgoing

/-- A drop that finds the channel full sends no FIN. -/
theorem not_finOnceAndLast_full : ∃ tr t,
    exec (step .default) (start .default 1) [.call (.drop false)] = some (tr, t) ∧
      ¬FinOnceAndLast tr t := by
  obtain ⟨tr, t, he, -, hw, hnil⟩ := exec_sat (step .default) (start .default 1)
    [.call (.drop false)]
    (fun _ t => t.handle.stream.isWriteClosed ∧ t.handle.outgoing = []) (by decide)
  refine ⟨tr, t, he, fun h => ?_⟩
  have hmem := h.closed t (last_visited ..) hw
  rw [hnil] at hmem
  cases hmem

section
variable {config : Config} {streamId : UInt32} {u v t : Alone} {act : Act}
  {tr : List (Alone × Act)}

structure Sending (config : Config) (alone : Alone) : Prop where
  phase : alone.handle.phase = .held ∨ alone.handle.phase = .closing ∨ alone.handle.phase = .dropped
  sends : ∃ pshs fin, alone.handle.Sends config [] pshs fin

theorem sending_start (config : Config) (streamId : UInt32) :
    (start config streamId).Sending config :=
  ⟨.inl rfl, [], [], Handle.sends_new config streamId .held (by decide)⟩

theorem sending_step (h : u.Sending config) (hs : u.step config act = some v) :
    v.Sending config := by
  obtain ⟨hphase, pshs, fin, hsends⟩ := h
  rcases step_cases hs with ⟨_, result, stream, state, rfl, hheld, hr, rfl⟩ |
    ⟨_, _, _, _, _, rfl, -, hw, rfl⟩ | ⟨_, rfl, -, -, -, rfl⟩ | ⟨rfl, -, rfl⟩ | ⟨-, _, rfl⟩
  · exact ⟨.inl hheld, pshs, fin, hsends.read hr⟩
  · have hne : u.handle.phase ≠ .registered := by
      rintro he; simp [he] at hphase
    obtain ⟨syn, pshs', fin', hsends', hsyn⟩ := hsends.write hw
    rw [hsyn hne] at hsends'
    refine ⟨?_, pshs', fin', hsends'⟩
    cases hw <;> simp_all [Handle.wrote]
  · exact ⟨hphase, pshs, fin, hsends.of_eq rfl rfl rfl rfl rfl⟩
  · exact ⟨hphase, pshs, fin, hsends.of_eq rfl rfl rfl rfl rfl⟩
  · exact ⟨hphase, pshs, fin, hsends⟩

theorem Sending.outgoing (h : u.Sending config) :
    Handle.PshThen u.handle.outgoing [] ∨ Handle.PshThen u.handle.outgoing [u.handle.finFrame] := by
  obtain ⟨-, pshs, fin, hsends⟩ := h
  exact hsends.outgoing

def FinAssured (alone : Alone) : Prop := alone.handle.FinAssured

theorem channelOpen_step (ho : u.channelOpen) (hact : act ≠ .sendLoopEnded)
    (hs : u.step config act = some v) : v.channelOpen := by
  cases act with
  | call call =>
    obtain ⟨_, -, rfl⟩ := bind_return hs
    exact ho
  | psh | fin =>
    simp only [step] at hs
    split at hs <;> cases hs
    exact ho
  | closeSession => cases hs; exact ho
  | sendLoopEnded => exact absurd rfl hact

theorem finAssured_step (h : u.FinAssured) (hsend : u.Sending config) (ho : u.channelOpen)
    (hact : act ≠ .call .closeDropped) (hs : u.step config act = some v) : v.FinAssured := by
  obtain ⟨-, pshs, fin, hsends⟩ := hsend
  cases act with
  | call call =>
    simp only [step, ho, bind, Option.bind_eq_some_iff, pure, Option.some.injEq] at hs
    obtain ⟨⟨handle, state, frames⟩, hcall, rfl⟩ := hs
    exact Handle.finAssured_step h hsends (fun he => hact (congrArg Act.call he)) hcall
  | psh | fin =>
    simp only [step] at hs
    split at hs <;> cases hs
    exact h
  | closeSession | sendLoopEnded => cases hs; exact h

theorem dropped_step (hd : u.handle.phase = .dropped) (hs : u.step config act = some v) :
    v.handle.phase = .dropped ∧ v.handle.outgoing = u.handle.outgoing := by
  rcases step_cases hs with ⟨_, _, _, _, rfl, hheld, -, -⟩ |
    ⟨_, _, _, _, _, rfl, -, hw, -⟩ | ⟨_, rfl, -, -, hne, -⟩ | ⟨rfl, -, rfl⟩ | ⟨-, _, rfl⟩
  · rw [hd] at hheld; cases hheld
  · cases hw <;> simp_all
  · exact absurd hd hne
  · exact ⟨hd, rfl⟩
  · exact ⟨hd, rfl⟩

end

-- ---------------------------------------------------------------------------
-- Runs
-- ---------------------------------------------------------------------------

/-- No future of `close` is dropped at its await, and `send_loop`, which owns
the receiver of the frame channel, does not end. -/
def Act.keepsFin (act : Act) : Bool := act ≠ .call .closeDropped ∧ act ≠ .sendLoopEnded

/-- What a stream sends along a run. -/
structure FinBestEffort (tr : List (Alone × Act)) (t : Alone) : Prop where
  atMostOne : ∀ u ∈ visited tr t,
    Handle.PshThen u.handle.outgoing [] ∨ Handle.PshThen u.handle.outgoing [u.handle.finFrame]
  closed : (∀ p ∈ tr, p.2.keepsFin) → ∀ u ∈ visited tr t,
    u.handle.phase ≠ .dropped → u.handle.stream.isWriteClosed →
    Handle.PshThen u.handle.outgoing [u.handle.finFrame]
  /-- After a drop there is one, unless the drop had to send it and found the
  channel full. -/
  dropped : (∀ p ∈ tr, p.2.keepsFin) → ∀ before u (room : Bool) after,
    tr = before ++ (u, .call (.drop room)) :: after → ∀ v ∈ visited after t,
    v.handle.phase = .dropped ∧ Handle.PshThen v.handle.outgoing
      (if u.handle.stream.isWriteClosed ∨ room then [u.handle.finFrame] else [])

section
variable {config : Config} {streamId : UInt32} {u v t : Alone} {tr : List (Alone × Act)}

theorem drop_outgoing {room : Bool} (hsend : u.Sending config) (hf : u.FinAssured)
    (ho : u.channelOpen) (hs : u.step config (.call (.drop room)) = some v) :
    v.handle.phase = .dropped ∧ Handle.PshThen v.handle.outgoing
      (if u.handle.stream.isWriteClosed ∨ room then [u.handle.finFrame] else []) := by
  simp only [step, ho, bind, Option.bind_eq_some_iff, pure, Option.some.injEq] at hs
  obtain ⟨⟨handle, state, frames⟩, hdrop, rfl⟩ := hs
  obtain ⟨hheld, -, rfl⟩ := Handle.step_drop hdrop
  refine ⟨rfl, ?_⟩
  have hsent : u.handle.outgoing = u.handle.sent := by simp [Handle.outgoing, hheld]
  cases hw : u.handle.stream.isWriteClosed with
  | true =>
    have hmem := hf (by simp [hheld]) hw
    have hout := Handle.PshThen.of_mem hsend.outgoing hmem
    rw [hsent] at hout
    simpa [Handle.outgoing, Handle.wrote, Handle.finFrame, Handle.id] using hout
  | false =>
    obtain ⟨-, pshs, fin, hsends⟩ := hsend
    have hps := hsends.pshThen
    rw [hsends.fin_of_writeOpen hw] at hps
    obtain ⟨pshs, hpsh, heq⟩ := hps
    refine ⟨pshs, hpsh, ?_⟩
    cases room <;> simp [Handle.outgoing, Handle.wrote, Handle.finFrame, heq]

theorem finAssured_run (hr : Run (step config) (start config streamId) tr t)
    (hok : ∀ p ∈ tr, p.2.keepsFin) :
    ∀ u ∈ visited tr t, u.FinAssured ∧ u.Sending config ∧ u.channelOpen := by
  have hstart : (start config streamId).FinAssured := fun _ h => nomatch h
  refine hr.invariant hok ⟨hstart, sending_start config streamId, rfl⟩
    fun ⟨hassured, hsend, ho⟩ ha hs => ?_
  obtain ⟨hclose, hend⟩ := of_decide_eq_true ha
  exact ⟨finAssured_step hassured hsend ho hclose hs, sending_step hsend hs,
    channelOpen_step ho hend hs⟩

/-- There is never more than one FIN, nor a frame after it. If no `close` is
given up and the frame channel stays open, there is one unless a drop has to
send it and finds the channel full. -/
theorem finBestEffort (hr : Run (step config) (start config streamId) tr t) :
    FinBestEffort tr t := by
  have hsend : ∀ u ∈ visited tr t, u.Sending config :=
    hr.always (sending_start config streamId) sending_step
  refine ⟨fun u hu => (hsend u hu).outgoing, ?_, ?_⟩
  · intro hok u hu hlive hclosed
    have hassured := (finAssured_run hr hok u hu).1
    exact Handle.PshThen.of_mem (hsend u hu).outgoing (hassured hlive hclosed)
  · rintro hok before u room after rfl v hv
    have hu : u ∈ visited (before ++ (u, .call (.drop room)) :: after) t :=
      visited_of_mem (List.mem_append_right _ (List.mem_cons_self ..))
    obtain ⟨hassured, hsending, ho⟩ := finAssured_run hr hok u hu
    obtain ⟨-, w, hs, hafter⟩ := hr.split
    obtain ⟨hdropped, hout⟩ := drop_outgoing hsending hassured ho hs
    have hkept := hafter.always ⟨hdropped, rfl⟩ fun (h : _ ∧ _) hs =>
      ⟨(dropped_step h.1 hs).1, (dropped_step h.1 hs).2.trans h.2⟩
    obtain ⟨hd, heq⟩ := hkept v hv
    exact ⟨hd, heq ▸ hout⟩

end

/-- A write, a refused write, a close that waits for the channel while the
session is closed, and a drop. -/
def closeWaits : List Act :=
  [.call (.pollWrite [1, 2] true), .call (.pollWrite [3] false), .call (.close false),
    .closeSession, .call .closeResumed, .call (.drop false)]

theorem finBestEffort_closeWaits : ∃ tr t,
    exec (step .default) (start .default 1) closeWaits = some (tr, t) ∧
      (∀ p ∈ tr, p.2.keepsFin) ∧ t.handle.outgoing = [.newPsh 1 1 [1, 2], .newFin 1 1] ∧
      FinBestEffort tr t := by
  obtain ⟨tr, t, he, hr, hok, hout⟩ := exec_sat (step .default) (start .default 1) closeWaits
    (fun tr t => (∀ p ∈ tr, p.2.keepsFin) ∧
      t.handle.outgoing = [.newPsh 1 1 [1, 2], .newFin 1 1]) (by decide)
  exact ⟨tr, t, he, hok, hout, finBestEffort hr⟩

end Alone

end Smux
