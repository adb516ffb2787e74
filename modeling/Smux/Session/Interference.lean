import Smux.Session.Lane
import Smux.Session.Ledger
import Smux.Session.Received

/-!
# Streams do not interfere

Two runs of a session get the same frames of an id, among any others, with the
same calls on the streams of this id at the same points. What they show under
the id is the same, unless a payload of the id waits for tokens in one of them
and the application calls, or the session is closed, before it is delivered:
`sameStreams`. There is such a wait only when payloads that were never charged
have been credited until the balance wrapped.
-/

namespace Smux.Session

open Runs

def arrivals (streamId : UInt32) (act : Act) : List Event :=
  (act.takes.filter (·.streamId == streamId)).map .frame

/-- What comes to an id in a step: a frame from the decoder, a call on one of
its streams, or the close of the session. -/
def inputs (streamId : UInt32) : Session × Act → List Event
  | (u, act) =>
    match u.step act with
    | none => []
    | some v =>
      localEvents streamId u act ++ arrivals streamId act ++
        if v.state.closed = u.state.closed then [] else [.closed]

/-- A frame of the id that `handle_psh_frame` waits for tokens with. -/
def pendingOf (self : Session) (streamId : UInt32) : List Event :=
  (self.pending.filter (·.streamId == streamId)).map .frame

/-- Nothing comes to the id while a payload of it waits for tokens. -/
def undisturbed (streamId : UInt32) (p : Session × Act) : Bool :=
  p.1.pendingOf streamId = [] ∨ inputs streamId p = []

/-- A payload of the id that waits was not told of a close. -/
def Untold (streamId : UInt32) (u : Session) : Prop :=
  ∀ frame tokensNotified closeNotified,
    u.handling = some (.awaitingTokens frame tokensNotified closeNotified) →
    frame.streamId = streamId → u.state.die.wakes closeNotified = false

section
variable {config config' : Config} {isClient : Bool} {u v t t' : Session} {act : Act}
  {streamId : UInt32} {frame : Frame} {tr tr' : List (Session × Act)}

theorem pendingOf_of_awaiting
    (h : u.handling = some (.awaitingTokens frame tokensNotified closeNotified)) :
    u.pendingOf streamId = if frame.streamId = streamId then [.frame frame] else [] := by
  have hpending : u.pending = [frame] := by simp only [pending, h]
  rw [pendingOf, hpending]
  by_cases hi : frame.streamId = streamId <;> simp [hi]

theorem inputs_eq_nil (hs : u.step act = some v) (h : inputs streamId (u, act) = []) :
    localEvents streamId u act = [] ∧ arrivals streamId act = [] ∧
      v.state.closed = u.state.closed := by
  simpa [inputs, hs, and_assoc] using h

/-- A session that is not closed by a step tells nobody of a close. -/
theorem step_die (hs : u.step act = some v) (hc : v.state.closed = u.state.closed) :
    v.state.die = u.state.die := by
  rcases step_closed hs with ⟨-, hd⟩ | ⟨-, hclosed, hd⟩
  · exact hd
  · rw [hd, SessionState.close_die, ← hc, hclosed, if_pos rfl]

theorem untold_step (h : u.Untold streamId) (hok : undisturbed streamId (u, act))
    (hs : u.step act = some v) : v.Untold streamId := by
  have hkept : v.handling = u.handling → v.Untold streamId := by
    intro hsame frame tokensNotified closeNotified hw hi
    rw [hsame] at hw
    have hne : u.pendingOf streamId ≠ [] := by simp [pendingOf_of_awaiting hw, hi]
    obtain ⟨-, -, hc⟩ := inputs_eq_nil hs ((of_decide_eq_true hok).resolve_left hne)
    rw [step_die hs hc]
    exact h _ _ _ hw hi
  have hnone : v.handling = none → v.Untold streamId := by
    intro hn frame _ _ hw
    rw [hn] at hw
    cases hw
  cases step_ok hs with
  | ignored | fin | accepted | sessionClosing => exact hnone rfl
  | syn => rintro _ _ _ ⟨⟩
  | psh hp hpsh =>
    cases hpsh with
    | waits =>
      rintro _ _ _ hw -
      cases hw
      exact Notify.wakes_notified _
    | _ => exact hnone rfl
  | _ => exact hkept rfl

/-- The frames that a step is done with, and what is left waiting, are those
that waited and those that came. -/
theorem pendingOf_step (h : u.Untold streamId) (hs : u.step act = some v) :
    u.pendingOf streamId ++ arrivals streamId act =
      frameEvents streamId u v act ++ v.pendingOf streamId := by
  obtain ⟨done, hdone⟩ := step_handled hs
  have htaken := step_taken hs
  rw [taken, taken, ← hdone, List.append_assoc, List.append_assoc] at htaken
  have htaken : done ++ v.pending = u.pending ++ act.takes := List.append_cancel_left htaken
  have hframes : frameEvents streamId u v act =
      (done.filter (·.streamId == streamId)).map .frame := by
    by_cases hact : act = .sessionClosing
    · subst hact
      cases step_ok hs with
      | called hcall => cases hcall
      | psh hp => cases hp
      | @sessionClosing frame _ _ hn hwakes =>
        -- the frame that is given up is one of another id
        have hi : frame.streamId ≠ streamId := fun hi => by
          rw [h _ _ _ hn hi] at hwakes
          cases hwakes
        have hfinish : done = [frame] := List.append_cancel_left hdone
        simp [frameEvents, hfinish, hi]
    · rw [frameEvents_of_ne hact, ← hdone, List.drop_left]
  rw [pendingOf, arrivals, pendingOf, hframes, ← List.map_append, ← List.map_append,
    ← List.filter_append, ← List.filter_append, htaken]

theorem inputs_step (h : u.Untold streamId) (hok : undisturbed streamId (u, act))
    (hs : u.step act = some v) : u.pendingOf streamId ++ inputs streamId (u, act) =
      events streamId (u, act) ++ v.pendingOf streamId := by
  have hframes := pendingOf_step h hs
  rcases of_decide_eq_true hok with hidle | hnothing
  · rw [hidle, List.nil_append] at hframes ⊢
    simp only [inputs, events, hs]
    by_cases hc : v.state.closed = u.state.closed
    · rw [if_pos hc, List.append_nil, List.append_nil, hframes, List.append_assoc]
    · -- no frame comes with a close
      have harrivals : arrivals streamId act = [] := by
        rcases step_closed hs with ⟨hsame, -⟩ | ⟨rfl | rfl | rfl, -⟩
        · exact absurd hsame hc
        all_goals rfl
      rw [harrivals, eq_comm, List.append_eq_nil_iff] at hframes
      rw [harrivals, hframes.1, hframes.2, List.append_nil, List.append_nil]
  · obtain ⟨hlocal, harrivals, hc⟩ := inputs_eq_nil hs hnothing
    rw [harrivals, List.append_nil] at hframes
    simp only [hnothing, events, hs, hlocal, if_pos hc]
    rw [List.append_nil, List.append_nil, List.nil_append, hframes]

/-- Where nothing comes to an id in between, `handle_frame` is done with its
frames when they come. -/
theorem inputs_run (hr : Run step (new config isClient) tr t)
    (hok : ∀ p ∈ tr, undisturbed streamId p) :
    tr.flatMap (inputs streamId) = tr.flatMap (events streamId) ++ t.pendingOf streamId ∧
      t.Untold streamId := by
  induction hr with
  | nil => exact ⟨rfl, by rintro _ _ _ ⟨⟩⟩
  | @snoc tr u act v _ hs ih =>
    obtain ⟨hinputs, huntold⟩ := ih fun p hp => hok p (List.mem_append_left _ hp)
    have hstep := hok (u, act) (by simp)
    refine ⟨?_, untold_step huntold hstep hs⟩
    rw [List.flatMap_append, List.flatMap_append, List.flatMap_singleton, List.flatMap_singleton,
      hinputs, List.append_assoc, inputs_step huntold hstep hs, List.append_assoc]

theorem events_of_inputs (hr : Run step (new config isClient) tr t)
    (hok : ∀ p ∈ tr, undisturbed streamId p) (hdone : t.pendingOf streamId = []) :
    tr.flatMap (events streamId) = tr.flatMap (inputs streamId) := by
  rw [(inputs_run hr hok).1, hdone, List.append_nil]

theorem pendingOf_of_idle (h : u.Idle) (streamId : UInt32) : u.pendingOf streamId = [] := by
  have hpending : u.pending = [] := by
    unfold pending
    split
    · rename_i hw
      exact absurd hw (h _ _ _)
    · rfl
  rw [pendingOf, hpending]
  rfl

/-- Before the balance can wrap, no payload waits. -/
theorem pendingOf_small (hv : config.validate = .ok ()) (hr : Run step (new config isClient) tr t)
    (hsmall : config.maxReceiveBuffer + payloadBytes t.handled < 2 ^ 63) :
    t.pendingOf streamId = [] ∧ ∀ p ∈ tr, undisturbed streamId p := by
  refine ⟨pendingOf_of_idle (ledger_run hv hr hsmall).idle streamId, ?_⟩
  induction hr with
  | nil => rintro _ ⟨⟩
  | @snoc tr u act v hr hs ih =>
    have hle := payloadBytes_mono (step_handled hs)
    have hsmall : config.maxReceiveBuffer + payloadBytes u.handled < 2 ^ 63 := by omega
    intro p hp
    rcases List.mem_append.mp hp with hp | hp
    · exact ih hsmall p hp
    · have hidle := (ledger_run hv hr hsmall).idle
      rw [List.mem_singleton.mp hp]
      exact decide_eq_true (.inl (pendingOf_of_idle hidle streamId))

theorem sameStreams_of_inputs (hr : Run step (new config isClient) tr t)
    (hr' : Run step (new config' isClient) tr' t')
    (hinputs : tr.flatMap (inputs streamId) = tr'.flatMap (inputs streamId))
    (hok : t.pendingOf streamId = [] ∧ ∀ p ∈ tr, undisturbed streamId p)
    (hok' : t'.pendingOf streamId = [] ∧ ∀ p ∈ tr', undisturbed streamId p) :
    SameStreams streamId tr t tr' t' := by
  refine sameStreams_of_events hr hr' ?_
  rw [events_of_inputs hr hok.2 hok.1, hinputs, events_of_inputs hr' hok'.2 hok'.1]

/-- What a session shows under an id depends on the frames, the calls and the
close that come to this id, whatever else two runs do, if nothing comes to the
id while a payload of it waits for tokens. -/
theorem sameStreams (hr : Run step (new config isClient) tr t)
    (hr' : Run step (new config' isClient) tr' t')
    (hinputs : tr.flatMap (inputs streamId) = tr'.flatMap (inputs streamId))
    (hdone : t.pendingOf streamId = []) (hdone' : t'.pendingOf streamId = [])
    (hok : ∀ p ∈ tr, undisturbed streamId p) (hok' : ∀ p ∈ tr', undisturbed streamId p) :
    SameStreams streamId tr t tr' t' :=
  sameStreams_of_inputs hr hr' hinputs ⟨hdone, hok⟩ ⟨hdone', hok'⟩

/-- So it is without a condition on the steps before the balance can wrap. -/
theorem sameStreams_of_small (hv : config.validate = .ok ()) (hv' : config'.validate = .ok ())
    (hr : Run step (new config isClient) tr t) (hr' : Run step (new config' isClient) tr' t')
    (hinputs : tr.flatMap (inputs streamId) = tr'.flatMap (inputs streamId))
    (hsmall : config.maxReceiveBuffer + payloadBytes t.handled < 2 ^ 63)
    (hsmall' : config'.maxReceiveBuffer + payloadBytes t'.handled < 2 ^ 63) :
    SameStreams streamId tr t tr' t' :=
  sameStreams_of_inputs hr hr' hinputs (pendingOf_small hv hr hsmall) (pendingOf_small hv' hr' hsmall')

end

/-- A stream by itself, -/
def quiet : List Act :=
  [.recv (.newSyn 1 1), .accepted, .acceptStream, .recv (.newPsh 1 1 [5, 6]),
    .call 0 (.pollWrite [8] true), .call 0 (.pollRead 1)]

/-- and the same stream between pings, a refused SYN, a payload for nobody and
another stream, which is closed by its peer. Its writes find the frame channel
full. -/
def crowded : List Act :=
  [.recv (.newSyn 1 3), .accepted, .recv (.newNop 1), .recv (.newSyn 1 2), .recv (.newSyn 1 1),
    .accepted, .recv (.newPsh 1 7 [1]), .acceptStream, .recv (.newSyn 1 3), .acceptStream,
    .call 1 (.pollWrite [8] false), .recv (.newFin 1 3), .recv (.newPsh 1 1 [5, 6]),
    .recv (.newPsh 1 3 [2]), .call 1 (.pollRead 1)]

theorem sameStreams_crowded : ∃ tr t tr' t', exec step (new .default false) quiet = some (tr, t) ∧
    exec step (new .default false) crowded = some (tr', t') ∧ SameStreams 1 tr t tr' t' := by
  obtain ⟨tr, t, he, hr, hinputs, hdone, hok⟩ := exec_sat step (new .default false) quiet
    (fun tr t => tr.flatMap (inputs 1) =
        [.frame (.newSyn 1 1), .frame (.newPsh 1 1 [5, 6]), .read 0 1] ∧
      t.pendingOf 1 = [] ∧ ∀ p ∈ tr, undisturbed 1 p)
    (by decide +kernel)
  obtain ⟨tr', t', he', hr', hinputs', hdone', hok'⟩ := exec_sat step (new .default false) crowded
    (fun tr t => tr.flatMap (inputs 1) =
        [.frame (.newSyn 1 1), .frame (.newPsh 1 1 [5, 6]), .read 0 1] ∧
      t.pendingOf 1 = [] ∧ ∀ p ∈ tr, undisturbed 1 p)
    (by decide +kernel)
  exact ⟨tr, t, tr', t', he, he',
    sameStreams hr hr' (hinputs.trans hinputs'.symm) hdone hdone' hok hok'⟩

def fullBalance : Config := { Config.default with maxReceiveBuffer := 2 ^ 63 - 1 }

/-- A byte for nobody is credited, which makes the balance negative. The
payload that follows waits, and is given up at the close. -/
theorem not_sameStreams_wrapped : fullBalance.validate = .ok () ∧
    ∃ tr t tr' t', exec step (new fullBalance false)
        [.recv (.newSyn 1 1), .accepted, .recv (.newPsh 1 1 [5]), .close] = some (tr, t) ∧
      exec step (new fullBalance false)
        [.recv (.newSyn 1 1), .accepted, .recv (.newPsh 1 7 [9]), .recv (.newPsh 1 1 [5]), .close,
          .sessionClosing] = some (tr', t') ∧
      tr.flatMap (inputs 1) = tr'.flatMap (inputs 1) ∧ t.handling = none ∧ t'.handling = none ∧
      ¬SameStreams 1 tr t tr' t' := by
  obtain ⟨tr, t, he, -, hinputs, hn, hreaders⟩ := exec_sat step (new fullBalance false)
    [.recv (.newSyn 1 1), .accepted, .recv (.newPsh 1 1 [5]), .close]
    (fun tr t => tr.flatMap (inputs 1) =
        [.frame (.newSyn 1 1), .frame (.newPsh 1 1 [5]), .closed] ∧
      t.handling = none ∧ (t.readers 1).map Handle.delivered = [[5]])
    (by decide +kernel)
  obtain ⟨tr', t', he', -, hinputs', hn', hreaders'⟩ := exec_sat step (new fullBalance false)
    [.recv (.newSyn 1 1), .accepted, .recv (.newPsh 1 7 [9]), .recv (.newPsh 1 1 [5]), .close,
      .sessionClosing]
    (fun tr t => tr.flatMap (inputs 1) =
        [.frame (.newSyn 1 1), .frame (.newPsh 1 1 [5]), .closed] ∧
      t.handling = none ∧ (t.readers 1).map Handle.delivered = [[]])
    (by decide +kernel)
  refine ⟨by decide, tr, t, tr', t', he, he', hinputs.trans hinputs'.symm, hn, hn', fun h => ?_⟩
  rw [h.readers, hreaders'] at hreaders
  cases hreaders

end Smux.Session
