import Smux.Alone.Closing
import Smux.Codec
import Smux.Tasks

/-!
# What a flush is worth

The tasks with the frame that `send_loop` has in `sink.send` and the bytes the
transport got. The transport takes every frame that can be encoded. A
`poll_flush` says it is done at once, whatever is left in the frame channel,
and `send_loop` may leave the channel as it is when the session closes.
`survivesClose` says for which runs what was flushed is sent all the same.
-/

namespace Smux

open Runs

structure Flushing where
  tasks : Tasks
  /-- The frame in `sink.send`. -/
  sending : Option Frame
  wire : Bytes
  /-- The frames that the transport got. -/
  handed : List Frame

namespace Flushing

inductive Act
  | task (act : Tasks.Act)
  | pollFlush (handle : Nat)
  deriving DecidableEq, Repr

def start (config : Config) (isClient : Bool) : Flushing where
  tasks := .start config isClient
  sending := none
  wire := []
  handed := []

def session (self : Flushing) : Session := self.tasks.session

/-- `sink.send` is resolved. -/
def sent (self : Flushing) (ok : Bool) : Option Flushing := do
  let frame ← self.sending
  let tasks ← self.tasks.step (.sent ok)
  match ((Codec.new self.session.config).encode frame).run' self.wire, ok with
  | (.ok (), wire), true =>
    return { self with tasks, sending := none, wire, handed := self.handed ++ [frame] }
  | (.error _, wire), false => return { self with tasks, sending := none, wire }
  | _, _ => none

def step (self : Flushing) : Act → Option Flushing
  | .task .sendFrame => do
    return { self with
      tasks := ← self.tasks.step .sendFrame, sending := self.session.frames.head? }
  | .task (.sent ok) => self.sent ok
  | .task .sendFailed =>
    -- what is left in the channel is received first
    if self.session.frames.isEmpty then do
      return { self with tasks := ← self.tasks.step .sendFailed }
    else none
  | .task act => do return { self with tasks := ← self.tasks.step act }
  | .pollFlush k =>
    if (self.session.handles[k]?).any (·.phase = .held) then some self else none

/-- The stream on which the step is a `poll_flush` or `poll_shutdown` that
returns `Ready(Ok)`, and whether it is a `poll_shutdown`. -/
def returnsOk (self : Flushing) : Act → Option (Nat × Bool)
  | .pollFlush k => if Stream.pollFlush = .ready (.ok ()) then some (k, false) else none
  | .task (.app (.call k (.pollShutdown room))) => do
    let handle ← self.session.handles[k]?
    if (handle.stream.pollShutdown (Handle.answer self.session.channelOpen room)).1 =
      .ready (.ok ()) then some (k, true) else none
  | _ => none

end Flushing

/-- What a `poll_flush` or `poll_shutdown` that returns `Ready(Ok)` vouches
for: the bytes accepted, and the FIN. -/
def Handle.flushed (self : Handle) (shutdown : Bool) : List Frame :=
  self.sent.filter (·.cmd = .psh) ++ if shutdown then [self.finFrame] else []

namespace Flushing

/-- What was flushed before `Session::close` was called has been handed to the
transport when `send_loop` has ended. -/
def SurvivesClose (tr : List (Flushing × Act)) (t : Flushing) : Prop :=
  t.tasks.sendLoop = .ended → ∀ before u act after k shutdown handle,
    tr = before ++ (u, act) :: after → (∀ p ∈ before, p.2 ≠ .task (.app .close)) →
    (∃ p ∈ after, p.2 = .task (.app .close)) → u.returnsOk act = some (k, shutdown) →
    u.session.handles[k]? = some handle → (handle.flushed shutdown).Sublist t.handed

/-- `send_loop` ends with nothing left in the frame channel, and not for a
frame that cannot be encoded. -/
def endsDrained (self : Flushing) : Act → Bool
  | .task .sendClosed => self.session.frames.isEmpty
  | .task (.sent ok) => ok
  | _ => true

/-- No `close` is given up at its await, and a `poll_shutdown` finds
`send_loop` there. -/
def keepsFin (self : Flushing) : Act → Bool
  | .task (.app (.call _ .closeDropped)) => false
  | .task (.app (.call _ (.pollShutdown _))) => self.tasks.sendLoop ≠ .ended
  | _ => true

end Flushing

-- ---------------------------------------------------------------------------
-- What the streams have queued
-- ---------------------------------------------------------------------------

namespace Handle

variable {self self' : Handle} {config : Config} {state state' : SessionState}
  {syn pshs fin frames : List Frame}

theorem Sends.flushed_sublist (h : self.Sends config syn pshs fin) (hfin : self.finFrame ∈ self.sent) :
    (self.flushed true).Sublist self.sent := by
  have hsyn : syn.filter (·.cmd = .psh) = [] := by rcases h.isSyn with rfl | rfl <;> rfl
  have hpshs : pshs.filter (·.cmd = .psh) = pshs := by
    refine List.filter_eq_self.mpr fun frame hf => ?_
    obtain ⟨data, rfl⟩ := h.isPsh frame hf
    rfl
  rcases h.isFin with rfl | ⟨rfl, -⟩
  · exfalso
    rw [h.sent, List.append_nil] at hfin
    rcases List.mem_append.mp hfin with hf | hf
    · rcases h.isSyn with rfl | rfl
      · cases hf
      · have hcmd := congrArg Frame.cmd (List.mem_singleton.mp hf)
        cases hcmd
    · obtain ⟨data, hd⟩ := h.isPsh _ hf
      cases hd
  · have hnone : [Frame.newFin 1 self.id].filter (·.cmd = .psh) = [] := rfl
    rw [flushed, h.sent, List.filter_append, List.filter_append, hsyn, hpshs, hnone]
    simp [finFrame]

/-- A `poll_shutdown` that succeeds on an open channel leaves a FIN queued. -/
theorem pollShutdown_flushed (h : self.Sends config syn pshs fin) (hf : self.FinAssured)
    (hs : self.step config state true (.pollShutdown room) = some (self', state', frames))
    (hok : (self.stream.pollShutdown (answer true room)).1 = .ready (.ok ())) :
    (self.flushed true).Sublist self'.sent := by
  simp only [step] at hs
  split at hs
  · rename_i hheld
    cases hs
    unfold Stream.pollShutdown at hok ⊢
    cases hw : self.stream.isWriteClosed with
    | true =>
      have hmem := hf (by rw [hheld]; decide) hw
      rw [outgoing, if_neg (by rw [hheld]; decide), List.append_nil] at hmem
      simpa [queue] using h.flushed_sublist hmem
    | false =>
      cases room with
      | true =>
        simp [queue, answer, flushed, finFrame, id]
      | false => simp [hw, answer] at hok
  · cases hs

end Handle

namespace Session

/-- The frames a stream has sent are in the frame channel's history. -/
structure Queues (session : Session) : Prop where
  shape : ∀ handle ∈ session.handles, ∃ syn pshs fin, handle.Sends session.config syn pshs fin
  sent : ∀ handle ∈ session.handles, handle.sent.Sublist session.queued

section
variable {u v : Session} {act : Act} {handle handle' : Handle}

theorem queues_new (config : Config) (isClient : Bool) : (new config isClient).Queues :=
  ⟨nofun, nofun⟩

theorem step_shape (h : ∀ handle ∈ u.handles, ∃ syn pshs fin, handle.Sends u.config syn pshs fin)
    (hs : u.step act = some v) :
    ∀ handle ∈ v.handles, ∃ syn pshs fin, handle.Sends v.config syn pshs fin := by
  intro handle' hm
  rw [step_config hs]
  rcases step_mem hs hm with ⟨handle, hm, hstep⟩ | ⟨streamId, phase, rfl, hnew⟩
  · obtain ⟨syn, pshs, fin, hsends⟩ := h handle hm
    cases hstep with
    | same => exact ⟨syn, pshs, fin, hsends⟩
    | called _ hcall => exact hsends.step hcall
    | delivered | disconnected => exact ⟨syn, pshs, fin, hsends.of_eq rfl rfl rfl rfl rfl⟩
  · exact ⟨[], [], [], Handle.sends_new _ _ _ (by cases hnew <;> decide)⟩

/-- A step that is no call sends nothing. -/
theorem sent_kept (hs : u.step act = some v) (hact : ∀ k call waiting, ¬Calls u act k call waiting)
    (hm : handle' ∈ v.handles) : handle'.sent = [] ∨ ∃ handle ∈ u.handles, handle'.sent = handle.sent := by
  rcases step_mem hs hm with ⟨handle, hm, hstep⟩ | ⟨streamId, phase, rfl, -⟩
  · refine .inr ⟨handle, hm, ?_⟩
    cases hstep with
    | called hcall => exact absurd hcall (hact _ _ _)
    | _ => rfl
  · exact .inl rfl

theorem step_sublist (h : ∀ handle ∈ u.handles, handle.sent.Sublist u.queued)
    (hs : u.step act = some v) : ∀ handle ∈ v.handles, handle.sent.Sublist v.queued := by
  have hother : (∀ k call waiting, ¬Calls u act k call waiting) →
      ∀ handle ∈ v.handles, handle.sent.Sublist v.queued := by
    intro hact handle' hm
    rcases sent_kept hs hact hm with hnil | ⟨handle, hm, heq⟩
    · rw [hnil]
      exact List.nil_sublist _
    · rw [heq]
      exact (h handle hm).trans (queued_step hs).sublist
  cases step_ok hs with
  | called _ hk hcall =>
    obtain ⟨hsent, -⟩ := Handle.step_sent hcall
    intro handle hm
    rcases List.mem_or_eq_of_mem_set hm with hm | rfl
    · exact (h handle hm).trans (List.sublist_append_left ..)
    · rw [hsent]
      exact (h _ (List.mem_of_getElem? hk)).append (.refl _)
  | psh hp => exact hother (by cases hp <;> rintro _ _ _ ⟨⟩)
  | _ => exact hother (by rintro _ _ _ ⟨⟩)

theorem queues_step (h : u.Queues) (hs : u.step act = some v) : v.Queues :=
  ⟨step_shape h.shape hs, step_sublist h.sent hs⟩

theorem step_finAssured (h : ∀ handle ∈ u.handles, handle.FinAssured) (hq : u.Queues)
    (ho : u.channelOpen) (hact : ∀ k, act ≠ .call k .closeDropped) (hs : u.step act = some v) :
    ∀ handle ∈ v.handles, handle.FinAssured := by
  intro handle' hm
  rcases step_mem hs hm with ⟨handle, hm, hstep⟩ | ⟨streamId, phase, rfl, -⟩
  · have hassured := h handle hm
    cases hstep with
    | same | delivered | disconnected => exact hassured
    | called hcalls hcall =>
      obtain ⟨syn, pshs, fin, hsends⟩ := hq.shape handle hm
      rw [ho] at hcall
      refine Handle.finAssured_step (h handle hm) hsends ?_ hcall
      rintro rfl
      cases hcalls
      exact hact _ rfl
  · exact fun _ hc => nomatch hc

end

end Session

namespace Flushing

section
variable {config : Config} {isClient : Bool} {u v t : Flushing} {act : Act}
  {tr : List (Flushing × Act)}

-- ---------------------------------------------------------------------------
-- Steps
-- ---------------------------------------------------------------------------

/-- What each step does. -/
inductive Step (u : Flushing) : Act → Flushing → Prop
  | pollFlush : Step u (.pollFlush k) u
  | other : call.isSend = false → u.tasks.step call = some tasks' →
      Step u (.task call) { u with tasks := tasks' }
  | sendStarted : u.tasks.step .sendStarted = some tasks' →
      Step u (.task .sendStarted) { u with tasks := tasks' }
  | sendFrame : u.tasks.step .sendFrame = some tasks' →
      Step u (.task .sendFrame) { u with tasks := tasks', sending := u.session.frames.head? }
  | sent : u.sending = some frame → u.tasks.step (.sent true) = some tasks' →
      ((Codec.new u.session.config).encode frame).run' u.wire = (.ok (), wire') →
      Step u (.task (.sent true)) { u with
        tasks := tasks', sending := none, wire := wire', handed := u.handed ++ [frame] }
  | sendError : u.sending = some frame → u.tasks.step (.sent false) = some tasks' →
      ((Codec.new u.session.config).encode frame).run' u.wire = (.error e, wire') →
      Step u (.task (.sent false)) { u with tasks := tasks', sending := none, wire := wire' }
  | sendFailed : u.session.frames = [] → u.tasks.step .sendFailed = some tasks' →
      Step u (.task .sendFailed) { u with tasks := tasks' }
  | sendClosed : u.tasks.step .sendClosed = some tasks' →
      Step u (.task .sendClosed) { u with tasks := tasks' }

theorem step_ok (hs : u.step act = some v) : Step u act v := by
  cases act with
  | pollFlush k =>
    obtain ⟨-, hs⟩ := Option.ite_none_right_eq_some.mp hs
    cases hs
    exact .pollFlush
  | task call =>
    cases call with
    | sendFrame =>
      obtain ⟨tasks, htasks, rfl⟩ := bind_return hs
      exact .sendFrame htasks
    | sent ok =>
      simp only [step, sent, bind, Option.bind_eq_some_iff] at hs
      obtain ⟨frame, hsending, tasks, htasks, hs⟩ := hs
      split at hs
      · rename_i henc
        cases hs
        exact .sent hsending htasks henc
      · rename_i henc
        cases hs
        exact .sendError hsending htasks henc
      · cases hs
    | sendFailed =>
      obtain ⟨hframes, hs⟩ := Option.ite_none_right_eq_some.mp hs
      obtain ⟨tasks, htasks, rfl⟩ := bind_return hs
      exact .sendFailed (List.isEmpty_iff.mp hframes) htasks
    | sendStarted =>
      obtain ⟨tasks, htasks, rfl⟩ := bind_return hs
      exact .sendStarted htasks
    | sendClosed =>
      obtain ⟨tasks, htasks, rfl⟩ := bind_return hs
      exact .sendClosed htasks
    | _ =>
      obtain ⟨tasks, htasks, rfl⟩ := bind_return hs
      exact .other rfl htasks

theorem step_tasks (hs : u.step act = some v) :
    (∃ k, act = .pollFlush k) ∧ v = u ∨
      ∃ call, act = .task call ∧ u.tasks.step call = some v.tasks := by
  cases step_ok hs with
  | pollFlush => exact .inl ⟨⟨_, rfl⟩, rfl⟩
  | other _ htasks | sendStarted htasks | sendFrame htasks | sent _ htasks | sendError _ htasks
  | sendFailed _ htasks | sendClosed htasks => exact .inr ⟨_, rfl, htasks⟩

/-- Frames are handed over in the order in which they were queued. -/
structure Conserved (flushing : Flushing) : Prop where
  running : flushing.tasks.sendLoop ≠ .ended → flushing.tasks.session.channelOpen ∧
    flushing.tasks.session.queued =
      flushing.handed ++ flushing.sending.toList ++ flushing.tasks.session.frames
  idle : flushing.tasks.sendLoop ≠ .awaiting → flushing.sending = none
  ended : flushing.tasks.sendLoop = .ended → flushing.tasks.session.channelOpen = false ∧
    flushing.tasks.session.queued = flushing.handed

theorem conserved_start (config : Config) (isClient : Bool) : (start config isClient).Conserved :=
  ⟨fun _ => ⟨rfl, rfl⟩, fun _ => rfl, nofun⟩

/-- A step that is none of `send_loop`'s queues frames at most. -/
theorem conserved_other {call : Tasks.Act} {tasks : Tasks} (h : u.Conserved)
    (hcall : call.isSend = false) (hs : u.tasks.step call = some tasks) :
    Conserved { u with tasks } := by
  have hloop := Tasks.step_sendLoop hs hcall
  refine ⟨fun hl => ?_, fun hl => h.idle (hloop ▸ hl), fun hl => ?_⟩
  · obtain ⟨ho, hq⟩ := h.running (hloop ▸ hl)
    rcases Tasks.step_session hs with ⟨-, hsession⟩ | ⟨act, hact, hsession⟩
    · dsimp only
      rw [hsession]
      exact ⟨ho, hq⟩
    · obtain ⟨hsend, hend⟩ := hact.not_send hcall
      have ho' := ((Session.step_channelOpen hsession).resolve_right hend).trans ho
      obtain ⟨sent, hq', hf⟩ := Session.step_queued hsession hsend
      refine ⟨ho', ?_⟩
      dsimp only
      rw [hq', (hf ho').2, hq, List.append_assoc _ u.tasks.session.frames]
  · obtain ⟨hc, hq⟩ := h.ended (hloop ▸ hl)
    rcases Tasks.step_session hs with ⟨-, hsession⟩ | ⟨act, hact, hsession⟩
    · dsimp only
      rw [hsession]
      exact ⟨hc, hq⟩
    · have hend := (hact.not_send hcall).2
      exact ⟨((Session.step_channelOpen hsession).resolve_right hend).trans hc,
        (Session.step_queued_of_closed hsession hc).trans hq⟩

theorem isSelecting_ne {loop : LoopState} (h : loop.isSelecting) : loop ≠ .awaiting ∧ loop ≠ .ended := by
  cases loop with
  | selecting => exact ⟨nofun, nofun⟩
  | _ => cases h

theorem wakes_ne {session : Session} {loop : LoopState} (h : loop.wakes session) :
    loop ≠ .awaiting ∧ loop ≠ .ended := by
  cases loop with
  | selecting => exact ⟨nofun, nofun⟩
  | _ => cases h

/-- `send_loop` ends with nothing in hand and nothing in the channel. -/
theorem conserved_ended {session : Session} (h : u.Conserved)
    (hloop : u.tasks.sendLoop ≠ .awaiting ∧ u.tasks.sendLoop ≠ .ended)
    (hframes : u.tasks.session.frames = [])
    (hs : u.tasks.session.step .sendLoopEnded = some session) :
    Conserved { u with tasks := { u.tasks with session, sendLoop := .ended } } := by
  obtain ⟨-, hq⟩ := h.running hloop.2
  rw [h.idle hloop.1, hframes, Option.toList_none, List.append_nil, List.append_nil] at hq
  cases hs
  exact ⟨fun hl => absurd rfl hl, fun _ => h.idle hloop.1, fun _ => ⟨rfl, hq⟩⟩

theorem conserved_step (h : u.Conserved) (hok : u.endsDrained act) (hs : u.step act = some v) :
    v.Conserved := by
  cases step_ok hs with
  | pollFlush => exact h
  | other hcall htasks => exact conserved_other h hcall htasks
  | sendStarted htasks =>
    cases Tasks.step_ok htasks with
    | sendStarted hloop =>
      exact ⟨fun _ => h.running (by rw [hloop]; decide), fun _ => h.idle (by rw [hloop]; decide),
        by rintro ⟨⟩⟩
  | sendFrame htasks =>
    cases Tasks.step_ok htasks with
    | sendFrame hselecting hpop =>
      obtain ⟨hwait, hend⟩ := isSelecting_ne hselecting
      obtain ⟨frame, left, hf, -, rfl⟩ := Session.sendFrame_ok hpop
      obtain ⟨ho, hq⟩ := h.running hend
      rw [h.idle hwait, hf] at hq
      refine ⟨fun _ => ⟨ho, ?_⟩, fun hl => absurd rfl hl, by rintro ⟨⟩⟩
      simpa [session, hf] using hq
  | sent hsending htasks =>
    cases Tasks.step_ok htasks with
    | sent hwait =>
      obtain ⟨ho, hq⟩ := h.running (by rw [hwait]; decide)
      rw [hsending] at hq
      refine ⟨fun _ => ⟨ho, ?_⟩, fun _ => rfl, by rintro ⟨⟩⟩
      simpa using hq
  | sendError => cases hok
  | sendFailed hframes htasks =>
    cases Tasks.step_ok htasks with
    | sendFailed hselecting hend => exact conserved_ended h (isSelecting_ne hselecting) hframes hend
  | sendClosed htasks =>
    cases Tasks.step_ok htasks with
    | sendClosed hwakes hend =>
      exact conserved_ended h (wakes_ne hwakes) (List.isEmpty_iff.mp hok) hend

theorem wire_step (h : u.wire = u.handed.flatMap Codec.wire) (hs : u.step act = some v) :
    v.wire = v.handed.flatMap Codec.wire := by
  cases step_ok hs with
  | sent _ _ henc =>
    rw [(Codec.encode_ok henc).2, h, List.flatMap_append, List.flatMap_singleton]
  | sendError _ _ henc => rw [Codec.encode_error henc, h]
  | _ => exact h

structure Inv (flushing : Flushing) : Prop where
  conserved : flushing.Conserved
  queues : flushing.tasks.session.Queues
  finAssured : flushing.tasks.sendLoop ≠ .ended →
    ∀ handle ∈ flushing.tasks.session.handles, handle.FinAssured

theorem inv_start (config : Config) (isClient : Bool) : (start config isClient).Inv :=
  ⟨conserved_start config isClient, Session.queues_new config isClient, nofun⟩

theorem inv_step (h : u.Inv) (hok : u.endsDrained act ∧ u.keepsFin act) (hs : u.step act = some v) :
    v.Inv := by
  refine ⟨conserved_step h.conserved hok.1 hs, ?_, ?_⟩
  · rcases step_tasks hs with ⟨-, rfl⟩ | ⟨call, rfl, htasks⟩
    · exact h.queues
    · rcases Tasks.step_session htasks with ⟨-, hsession⟩ | ⟨act, -, hsession⟩
      · exact hsession ▸ h.queues
      · exact Session.queues_step h.queues hsession
  · intro hrunning
    rcases step_tasks hs with ⟨-, rfl⟩ | ⟨call, rfl, htasks⟩
    · exact h.finAssured hrunning
    · have hloop : u.tasks.sendLoop ≠ .ended := fun he => hrunning (Tasks.sendLoop_ended htasks he)
      rcases Tasks.step_session htasks with ⟨-, hsession⟩ | ⟨act, hact, hsession⟩
      · exact hsession ▸ h.finAssured hloop
      · refine Session.step_finAssured (h.finAssured hloop) h.queues (h.conserved.running hloop).1 ?_
          hsession
        rintro k rfl
        have hcalls : u.session.Calls (.call k .closeDropped) k .closeDropped u.session.incoming :=
          .call nofun
        obtain rfl := hact.eq_app hcalls
        exact absurd hok.2 (by simp [keepsFin])

-- ---------------------------------------------------------------------------
-- Runs
-- ---------------------------------------------------------------------------

theorem shutdown_queued {handle : Handle} (h : u.Inv) (hrunning : u.tasks.sendLoop ≠ .ended)
    (hs : u.step (.task (.app (.call k (.pollShutdown room)))) = some v)
    (hk : u.session.handles[k]? = some handle)
    (hok : (handle.stream.pollShutdown (Handle.answer u.session.channelOpen room)).1 =
      .ready (.ok ())) : (handle.flushed true).Sublist v.session.queued := by
  have hm := List.mem_of_getElem? hk
  have hopen : u.session.channelOpen = true := (h.conserved.running hrunning).1
  obtain ⟨⟨_, hact⟩, -⟩ | ⟨_, hact, htasks⟩ := step_tasks hs
  · cases hact
  cases hact
  have hsession : u.session.step (.call k (.pollShutdown room)) = some v.session :=
    (Tasks.step_app htasks).1
  obtain ⟨_, handle', _, _, hk', hstep, hget, -⟩ := Session.call_ok hsession
  cases hk.symm.trans hk'
  rw [hopen] at hstep hok
  obtain ⟨syn, pshs, fin, hsends⟩ := h.queues.shape handle hm
  have hflushed := Handle.pollShutdown_flushed hsends (h.finAssured hrunning handle hm) hstep hok
  have hm' : handle' ∈ v.session.handles := List.mem_of_getElem? hget
  exact hflushed.trans ((Session.queues_step h.queues hsession).sent handle' hm')

/-- What was flushed is queued when the step is done. -/
theorem flushed_queued {handle : Handle} (h : u.Inv) (hok : u.keepsFin act)
    (hs : u.step act = some v) (hret : u.returnsOk act = some (k, shutdown))
    (hk : u.session.handles[k]? = some handle) :
    (handle.flushed shutdown).Sublist v.session.queued := by
  have hm := List.mem_of_getElem? hk
  cases act with
  | pollFlush k' =>
    obtain ⟨-, rfl⟩ | ⟨_, hact, -⟩ := step_tasks hs
    · have hflush : Stream.pollFlush = .ready (.ok ()) := rfl
      rw [returnsOk, if_pos hflush] at hret
      cases hret
      rw [Handle.flushed, if_neg (by decide), List.append_nil]
      exact List.filter_sublist.trans (h.queues.sent handle hm)
    · cases hact
  | task call =>
    obtain ⟨k', room, rfl⟩ : ∃ k room, call = .app (.call k (.pollShutdown room)) := by
      simp only [returnsOk] at hret
      split at hret
      · rename_i hact; cases hact
      · rename_i hact; cases hact; exact ⟨_, _, rfl⟩
      · cases hret
    simp only [returnsOk, bind, Option.bind_eq_some_iff] at hret
    obtain ⟨handle', hk', hret⟩ := hret
    split at hret
    · rename_i hres
      cases hret
      rw [hk] at hk'
      cases hk'
      exact shutdown_queued h (of_decide_eq_true hok) hs hk hres
    · cases hret

theorem queued_step (hs : u.step act = some v) : u.session.queued <+: v.session.queued := by
  rcases step_tasks hs with ⟨-, rfl⟩ | ⟨call, rfl, htasks⟩
  · exact List.prefix_rfl
  · rcases Tasks.step_session htasks with ⟨-, hsession⟩ | ⟨act, -, hsession⟩
    · have hkept : v.session.queued = u.session.queued := congrArg Session.queued hsession
      exact hkept ▸ List.prefix_rfl
    · exact Session.queued_step hsession

/-- The transport has the frames handed over, each as the encoder writes it. -/
theorem wire_handed (hr : Run step (start config isClient) tr t) :
    t.wire = t.handed.flatMap Codec.wire := by
  have hwire : ∀ w ∈ visited tr t, w.wire = w.handed.flatMap Codec.wire := hr.always rfl wire_step
  exact hwire t (last_visited ..)

/-- In a run where `send_loop` ends with an empty channel, and no `close` is
given up, what was flushed survives the close. -/
theorem survivesClose (hr : Run step (start config isClient) tr t)
    (hok : ∀ p ∈ tr, p.1.endsDrained p.2 ∧ p.1.keepsFin p.2) : SurvivesClose tr t := by
  intro hended before u act after k shutdown handle htr _ _ hret hk
  have hinv := hr.invariant hok (inv_start config isClient) inv_step
  have hm : (u, act) ∈ tr := htr ▸ List.mem_append_right _ List.mem_cons_self
  obtain ⟨-, v, hs, hafter⟩ := (htr ▸ hr : Run step _ (before ++ (u, act) :: after) t).split
  have hflushed := flushed_queued (hinv u (visited_of_mem hm)) (hok _ hm).2 hs hret hk
  have hmono : ∀ w ∈ visited after t, v.session.queued <+: w.session.queued :=
    hafter.always List.prefix_rfl fun hp hs => hp.trans (queued_step hs)
  have hall := ((hinv t (last_visited ..)).conserved.ended hended).2
  exact hall ▸ hflushed.trans (hmono t (last_visited ..)).sublist

end

/-- A stream that is written to and flushed, and then the session is closed
while its frames are in the channel. -/
def flushThenClose : List Act :=
  [.task .sendStarted, .task (.app .openStream), .task (.app (.register 1)),
    .task (.app (.call 0 .synResumed)), .task (.app (.call 0 .opened)),
    .task (.app (.call 0 (.pollWrite [1] true))), .pollFlush 0, .task (.app .close),
    .task .sendClosed]

theorem not_survivesClose_flushThenClose : ∃ tr t,
    exec step (start .default true) flushThenClose = some (tr, t) ∧ t.handed = [] ∧
      ¬SurvivesClose tr t := by
  obtain ⟨tr, t, he, -, hended, hnone, hbefore, hafter, ⟨u, act⟩, hp, hret, handle, hk, hflushed⟩ :=
    exec_sat step (start .default true) flushThenClose
      (fun tr t => t.tasks.sendLoop = .ended ∧ t.handed = [] ∧
        (∀ p ∈ tr.take 6, p.2 ≠ .task (.app .close)) ∧
        (∃ p ∈ tr.drop 7, p.2 = .task (.app .close)) ∧
        ∃ p ∈ tr[6]?, p.1.returnsOk p.2 = some (0, false) ∧
          ∃ handle ∈ p.1.session.handles[0]?, handle.flushed false = [.newPsh 1 1 [1]])
      (by decide +kernel)
  have hsplit : tr = tr.take 6 ++ (u, act) :: tr.drop 7 := by
    obtain ⟨hlt, hu⟩ := List.getElem?_eq_some_iff.mp hp
    rw [← hu, ← List.drop_eq_getElem_cons hlt, List.take_append_drop]
  refine ⟨tr, t, he, hnone, fun h => ?_⟩
  have hsub := h hended _ u act _ 0 false handle hsplit hbefore hafter hret hk
  rw [hflushed, hnone] at hsub
  cases hsub

/-- The same with a shutdown, and a close that finds the channel empty. -/
def sendThenClose : List Act :=
  [.task .sendStarted, .task (.app .openStream), .task (.app (.register 1)),
    .task (.app (.call 0 .synResumed)), .task (.app (.call 0 .opened)),
    .task (.app (.call 0 (.pollWrite [1] true))), .pollFlush 0,
    .task (.app (.call 0 (.pollShutdown true))), .task .sendFrame, .task (.sent true),
    .task .sendFrame, .task (.sent true), .task .sendFrame, .task (.sent true),
    .task (.app .close), .task .sendClosed]

theorem survivesClose_sendThenClose : ∃ tr t,
    exec step (start .default true) sendThenClose = some (tr, t) ∧
      t.handed = [.newSyn 1 1, .newPsh 1 1 [1], .newFin 1 1] ∧ SurvivesClose tr t := by
  obtain ⟨tr, t, he, hr, hhanded, hok⟩ := exec_sat step (start .default true) sendThenClose
    (fun tr t => t.handed = [.newSyn 1 1, .newPsh 1 1 [1], .newFin 1 1] ∧
      ∀ p ∈ tr, p.1.endsDrained p.2 ∧ p.1.keepsFin p.2) (by decide +kernel)
  exact ⟨tr, t, he, hhanded, survivesClose hr hok⟩

end Flushing

end Smux
