import Smux.Codec.Arrival
import Smux.Codec.Grammar
import Smux.Session.Received
import Smux.Tasks.Shutdown

/-!
# A session fed with bytes

`recv_loop` polls the receiving half of its `Framed` in its `select!`, and
there alone: that decodes from its buffer, and reads from the transport only
when the decoder asks for more. The transport hands it any bytes, in any
pieces, or ends.

`decoding_run`: whatever the bytes and whatever else goes on, the frames that
`recv_loop` has taken are the first of those that decoding all the bytes at
once gives. None is skipped or made up at a cut or behind a pause in
`handle_frame`, each that is complete is taken when `recv_loop` polls again,
and the first error is the end of the session.
-/

namespace Smux

open Runs BufM

namespace Codec

theorem decode_valid {self : Codec} (h : self.decode.run' src = (.ok (some frame), rest)) :
    frame.Valid self.config := by
  obtain ⟨cmd, -, -, -, hf, -⟩ := decode_eq_some.mp h
  cases cmd with
  | upd consumed window =>
    obtain ⟨-, -, rfl, hvalid⟩ := (frameOf_upd consumed window).mp hf
    exact hvalid
  | _ =>
    obtain ⟨rfl, hvalid⟩ := (frameOf_ok rfl).mp hf
    exact hvalid

end Codec

/-- The tasks of a session and the receiving half of its `Framed`. -/
structure Framed where
  tasks : Tasks
  /-- All that the transport has delivered. -/
  received : Bytes
  /-- Delivered and not decoded. -/
  buf : Bytes

namespace Tasks

section
variable {u v : Tasks} {act : Act}

theorem recvLoop_ended (hs : u.step act = some v) (h : u.recvLoop = .ended) :
    v.recvLoop = .ended := by
  cases step_ok hs with
  | recvStarted hloop | recvResumed hloop => cases h.symm.trans hloop
  | recvFrame hloop | recvFailed hloop => exact absurd hloop (by rw [h]; decide)
  | recvClosed => rfl
  | _ => exact h

theorem step_taken (hs : u.step act = some v) (hact : ∀ frame, act ≠ .recvFrame frame) :
    v.session.taken = u.session.taken := by
  rcases step_session hs with ⟨-, hsame⟩ | ⟨call, hcall, hsession⟩
  · rw [hsame]
  · rw [Session.step_taken hsession]
    cases call with
    | recv frame => exact absurd hcall.eq_recvFrame (hact frame)
    | _ => exact List.append_nil _

theorem step_recvFrame (hs : u.step (.recvFrame frame) = some v) :
    v.session.taken = u.session.taken ++ [frame] := by
  cases step_ok hs with
  | recvFrame _ hsession => exact Session.step_taken hsession

/-- `recv_loop` takes no frame while one is being handled. -/
theorem Ending.recvFrame (h : u.Ending) (hsel : u.recvLoop.isSelecting)
    (hvalid : frame.Valid u.session.config) : ∃ v, u.step (.recvFrame frame) = some v := by
  have hidle : u.session.handling.isNone := by
    rw [Option.isNone_iff_eq_none, ← Option.not_isSome_iff_eq_none, h.handling]
    intro he
    rw [he] at hsel
    cases hsel
  simp [step, Session.step, hsel, hidle, Frame.validate_ok.mpr hvalid]

theorem recvFailed_ended (hs : u.step .recvFailed = some v) : v.recvLoop = .ended := by
  cases step_ok hs with
  | recvFailed => rfl

theorem recvFailed_ok (hsel : u.recvLoop.isSelecting) : ∃ v, u.step .recvFailed = some v := by
  simp [step, Session.step, hsel]

end

end Tasks

namespace Framed

inductive Act
  /-- A step of the tasks: any but those for which there is an action below. -/
  | task (act : Tasks.Act)
  /-- The transport delivers bytes. -/
  | read (bytes : Bytes)
  /-- The transport fails, or ends. -/
  | ended
  /-- `stream.next()` is resolved by a frame or an error of the decoder. -/
  | next
  deriving DecidableEq, Repr

def start (config : Config) (isClient : Bool) : Framed where
  tasks := .start config isClient
  received := []
  buf := []

def codec (self : Framed) : Codec := .new self.tasks.session.config

/-- `recv_loop` polls, and the decoder asks for more. -/
def wantsMore (self : Framed) : Bool :=
  self.tasks.recvLoop.isSelecting && (self.codec.decode.run' self.buf).1 matches .ok none

def step (self : Framed) : Act → Option Framed
  | .task (.recvFrame _) | .task .recvFailed => none
  | .task act => do return { self with tasks := ← self.tasks.step act }
  | .read bytes =>
    if self.wantsMore then
      some { self with received := self.received ++ bytes, buf := self.buf ++ bytes }
    else none
  | .ended =>
    -- what is left in the buffer is no frame: it is dropped, or an error
    if self.wantsMore then do return { self with tasks := ← self.tasks.step .recvFailed } else none
  | .next =>
    match self.codec.decode.run' self.buf with
    | (.ok none, _) => none
    | (.ok (some frame), buf) => do
      return { self with tasks := ← self.tasks.step (.recvFrame frame), buf }
    | (.error _, buf) => do return { self with tasks := ← self.tasks.step .recvFailed, buf }

/-- The frames `recv_loop` has got from the decoder. -/
def taken (self : Framed) : List Frame := self.tasks.session.taken

/-- Decoding `bytes` at once. -/
def drain (self : Framed) (bytes : Bytes) : Decoder.Outcome UInt8 SmuxError Frame :=
  self.codec.decoder.drain bytes

/-- What comes of it when `recv_loop` polls. -/
inductive Polls (self : Framed) : Prop
  /-- Every complete frame is taken, and the transport is read. -/
  | waits : self.wantsMore → self.drain self.received = ⟨self.taken, none, self.buf⟩ → Polls self
  | takes : (self.drain self.received).items = self.taken ++ frame :: later →
      self.step .next = some next → next.taken = self.taken ++ [frame] → Polls self
  /-- The first error. -/
  | fails : self.step .next = some next →
      self.drain self.received = ⟨self.taken, some e, next.buf⟩ →
      next.taken = self.taken → next.tasks.recvLoop = .ended →
      next.tasks.session.state.closed → Polls self

structure Decoding (self : Framed) : Prop where
  isPrefix : self.taken <+: (self.drain self.received).items
  /-- What `recv_loop` will take of the bytes received is what the buffer gives. -/
  drained : self.tasks.recvLoop ≠ .ended →
    self.drain self.received = (self.drain self.buf).prepend self.taken
  polls : self.tasks.recvLoop.isSelecting → self.Polls

-- ---------------------------------------------------------------------------
-- Steps
-- ---------------------------------------------------------------------------

section
variable {config : Config} {isClient : Bool} {f g : Framed} {act : Act} {tr : List (Framed × Act)}

/-- What each step does, and when. -/
inductive Step (f : Framed) : Act → Framed → Prop
  | task {call : Tasks.Act} : (∀ frame, call ≠ .recvFrame frame) →
      f.tasks.step call = some tasks' →
      Step f (.task call) { f with tasks := tasks' }
  | read : f.wantsMore →
      Step f (.read bytes) { f with received := f.received ++ bytes, buf := f.buf ++ bytes }
  | ended : f.wantsMore → f.tasks.step .recvFailed = some tasks' →
      Step f .ended { f with tasks := tasks' }
  | next : f.codec.decode.run' f.buf = (.ok (some frame), rest) →
      f.tasks.step (.recvFrame frame) = some tasks' →
      Step f .next { f with tasks := tasks', buf := rest }
  | failed : f.codec.decode.run' f.buf = (.error e, rest) →
      f.tasks.step .recvFailed = some tasks' →
      Step f .next { f with tasks := tasks', buf := rest }

theorem step_ok (hs : f.step act = some g) : Step f act g := by
  cases act with
  | task call =>
    cases call with
    | recvFrame | recvFailed => cases hs
    | _ =>
      obtain ⟨tasks, htasks, rfl⟩ := bind_return hs
      exact .task (by rintro _ ⟨⟩) htasks
  | read bytes =>
    obtain ⟨hmore, hs⟩ := Option.ite_none_right_eq_some.mp hs
    cases hs
    exact .read hmore
  | ended =>
    obtain ⟨hmore, hs⟩ := Option.ite_none_right_eq_some.mp hs
    obtain ⟨tasks, htasks, rfl⟩ := bind_return hs
    exact .ended hmore htasks
  | next =>
    simp only [step] at hs
    split at hs
    · cases hs
    · obtain ⟨tasks, htasks, rfl⟩ := bind_return hs
      exact .next ‹_› htasks
    · obtain ⟨tasks, htasks, rfl⟩ := bind_return hs
      exact .failed ‹_› htasks

theorem step_tasks (hs : f.step act = some g) :
    g.tasks = f.tasks ∨ ∃ call, f.tasks.step call = some g.tasks := by
  cases step_ok hs with
  | read => exact .inl rfl
  | task _ htasks | ended _ htasks | next _ htasks | failed _ htasks => exact .inr ⟨_, htasks⟩

/-- What holds of every run of the tasks holds with any bytes. -/
theorem tasks_run (hr : Run step (start config isClient) tr f) :
    ∃ tr', Run Tasks.step (.start config isClient) tr' f.tasks := by
  induction hr with
  | nil => exact ⟨[], .nil⟩
  | snoc _ hs ih =>
    obtain ⟨tr', hr'⟩ := ih
    rcases step_tasks hs with hsame | ⟨call, htasks⟩
    · exact ⟨tr', hsame ▸ hr'⟩
    · exact ⟨_, hr'.snoc htasks⟩

theorem ending_step (h : f.tasks.Ending) (hs : f.step act = some g) : g.tasks.Ending := by
  rcases step_tasks hs with hsame | ⟨call, htasks⟩
  · exact hsame ▸ h
  · exact Tasks.ending_step h htasks

theorem step_codec (hs : f.step act = some g) : g.codec = f.codec := by
  rcases step_tasks hs with hsame | ⟨call, htasks⟩
  · rw [codec, hsame, codec]
  · rw [codec, Tasks.step_config htasks, codec]

theorem step_drain (hs : f.step act = some g) (bytes : Bytes) : g.drain bytes = f.drain bytes := by
  rw [drain, step_codec hs, drain]

-- ---------------------------------------------------------------------------
-- Decoding as the bytes come
-- ---------------------------------------------------------------------------

/-- What has been taken, and, until `recv_loop` ends, what will be. -/
structure Fed (f : Framed) : Prop where
  isPrefix : f.taken <+: (f.drain f.received).items
  drained : f.tasks.recvLoop ≠ .ended → ∀ more,
    f.drain (f.received ++ more) = (f.drain (f.buf ++ more)).prepend f.taken

theorem fed_start (config : Config) (isClient : Bool) : (start config isClient).Fed where
  isPrefix := List.nil_prefix
  drained _ _ := rfl

theorem not_ended (h : f.tasks.recvLoop.isSelecting) : f.tasks.recvLoop ≠ .ended := by
  intro he
  rw [he] at h
  cases h

theorem selecting_of_wantsMore (h : f.wantsMore) : f.tasks.recvLoop.isSelecting :=
  (Bool.and_eq_true_iff.mp h).1

/-- A frame is taken in a turn of the `select!`. -/
theorem selecting_of_recvFrame {tasks : Tasks} (hs : f.tasks.step (.recvFrame frame) = some tasks) :
    f.tasks.recvLoop.isSelecting := by
  cases Tasks.step_ok hs with
  | recvFrame hsel => exact hsel

theorem Fed.next (h : f.Fed) (hsel : f.tasks.recvLoop.isSelecting)
    (hdec : f.codec.decode.run' f.buf = (.ok (some frame), rest)) (more : Bytes) :
    f.drain (f.received ++ more) = (f.drain (rest ++ more)).prepend (f.taken ++ [frame]) := by
  have hmore := (Codec.decoder_stable f.codec).keeps_item more hdec
  rw [h.drained (not_ended hsel) more, drain, Decoder.drain_some hmore]
  simp [Decoder.Outcome.prepend, drain]

theorem Fed.isPrefix_step (h : f.Fed) (hs : f.step act = some g) (htaken : g.taken = f.taken)
    (hreceived : g.received = f.received) : g.taken <+: (g.drain g.received).items := by
  rw [step_drain hs, htaken, hreceived]
  exact h.isPrefix

/-- The end of `recv_loop`. -/
theorem Fed.ended (h : f.Fed) (hs : f.step act = some g)
    (htasks : f.tasks.step .recvFailed = some g.tasks) (hreceived : g.received = f.received) :
    g.Fed := by
  refine ⟨h.isPrefix_step hs (Tasks.step_taken htasks (by rintro _ ⟨⟩)) hreceived, fun hloop => ?_⟩
  exact absurd (Tasks.recvFailed_ended htasks) hloop

theorem fed_step (h : f.Fed) (hs : f.step act = some g) : g.Fed := by
  have hdrain := step_drain hs
  cases step_ok hs with
  | task hact htasks =>
    have htaken := Tasks.step_taken htasks hact
    refine ⟨h.isPrefix_step hs htaken rfl, fun hloop more => ?_⟩
    have hloop' := mt (Tasks.recvLoop_ended htasks) hloop
    rw [hdrain, hdrain, taken, htaken]
    exact h.drained hloop' more
  | @read bytes hmore =>
    have hsel := selecting_of_wantsMore hmore
    refine ⟨?_, fun hloop more => ?_⟩
    · rw [hdrain, h.drained (not_ended hsel) bytes]
      exact List.prefix_append ..
    · rw [hdrain, hdrain, List.append_assoc, List.append_assoc]
      exact h.drained hloop (bytes ++ more)
  | ended _ htasks | failed _ htasks => exact h.ended hs htasks rfl
  | next hdec htasks =>
    have htaken := Tasks.step_recvFrame htasks
    have hnext := h.next (selecting_of_recvFrame htasks) hdec
    refine ⟨?_, fun _ more => ?_⟩
    · have hall := hnext []
      rw [List.append_nil] at hall
      rw [hdrain, taken, htaken, hall]
      exact List.prefix_append ..
    · rw [hdrain, hdrain, taken, htaken]
      exact hnext more

theorem Fed.polls (h : f.Fed) (hending : f.tasks.Ending) (hsel : f.tasks.recvLoop.isSelecting) :
    f.Polls := by
  have hall := h.drained (not_ended hsel) []
  rw [List.append_nil, List.append_nil] at hall
  cases hdec : f.codec.decode.run' f.buf with
  | mk result rest =>
    cases result with
    | error e =>
      obtain ⟨tasks, htasks⟩ := Tasks.recvFailed_ok hsel
      have hs : f.step .next = some { f with tasks, buf := rest } := by
        simp [step, hdec, htasks]
      have hended := Tasks.recvFailed_ended htasks
      have hclosed := (Tasks.ending_step hending htasks).recvLoop hended
      have hfails : f.drain f.received = ⟨f.taken, some e, rest⟩ := by
        rw [hall, drain, Decoder.drain_error hdec]
        simp [Decoder.Outcome.prepend]
      exact .fails hs hfails (Tasks.step_taken htasks (by rintro _ ⟨⟩)) hended hclosed
    | ok item =>
      cases item with
      | none =>
        have hbuf := (Codec.decoder_stable f.codec).keeps_buf hdec
        subst hbuf
        refine .waits (by simp [wantsMore, hsel, hdec]) ?_
        rw [hall, drain, Decoder.drain_none hdec]
        simp [Decoder.Outcome.prepend]
      | some frame =>
        obtain ⟨tasks, htasks⟩ := hending.recvFrame hsel (Codec.decode_valid hdec)
        have hs : f.step .next = some { f with tasks, buf := rest } := by
          simp [step, hdec, htasks]
        have hnext := h.next hsel hdec []
        rw [List.append_nil] at hnext
        have hitems : (f.drain f.received).items =
            f.taken ++ frame :: (f.drain (rest ++ [])).items := by
          rw [hnext, Decoder.Outcome.prepend, List.append_assoc, List.singleton_append]
        exact .takes hitems hs (Tasks.step_recvFrame htasks)

/-- The bytes and their cuts are the transport's choice, and so is the peer
behind them. -/
theorem decoding_run (hr : Run step (start config isClient) tr f) :
    (∃ tr', Run Tasks.step (.start config isClient) tr' f.tasks) ∧
      ∀ u ∈ visited tr f, u.Decoding := by
  have hinv : ∀ u ∈ visited tr f, u.Fed ∧ u.tasks.Ending := by
    refine hr.always ⟨fed_start .., Tasks.ending_start ..⟩ fun ⟨hfed, hending⟩ hs => ?_
    exact ⟨fed_step hfed hs, ending_step hending hs⟩
  refine ⟨tasks_run hr, fun u hu => ?_⟩
  obtain ⟨hfed, hending⟩ := hinv u hu
  refine ⟨hfed.isPrefix, fun hloop => ?_, hfed.polls hending⟩
  have hall := hfed.drained hloop []
  rwa [List.append_nil, List.append_nil] at hall

end

/-- A NOP in two reads; behind it a SYN, on which `handle_frame` waits, and a
header of no version. -/
def mangled : List Act :=
  [.task .recvStarted, .read [1, 3, 0], .task .sendStarted,
    .read ([0, 0, 0, 0, 0] ++ [1, 0, 0, 0, 1, 0, 0, 0] ++ [0, 3, 0, 0, 0, 0, 0, 0]), .next, .next,
    .task (.app .close), .task (.recvResumed .accepted), .next]

theorem decoding_run_mangled : ∃ tr f, exec step (start .default false) mangled = some (tr, f) ∧
    f.taken = [.newNop 1, .newSyn 1 1] ∧ f.tasks.recvLoop = .ended ∧
    ∀ u ∈ visited tr f, u.Decoding := by
  obtain ⟨tr, f, he, hr, htaken, hended⟩ := exec_sat step (start .default false) mangled
    (fun _ f => f.taken = [.newNop 1, .newSyn 1 1] ∧ f.tasks.recvLoop = .ended) (by decide)
  exact ⟨tr, f, he, htaken, hended, (decoding_run hr).2⟩

end Framed

end Smux
