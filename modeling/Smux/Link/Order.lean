import Smux.Link.Fifo

/-!
# The order of the frames between two sessions

Before their ids run out, two sessions joined by a transport are each a
conforming peer of the other: a stream's frames are queued in order, and they
are decoded as they were queued. So every frame that `recv_loop` gets is one
that the session may expect, and what a conforming peer guarantees of a
session holds of both.
-/

namespace Smux

namespace Side

variable {p : Side → Prop}

@[simp] theorem other_other (side : Side) : side.other.other = side := by cases side <;> rfl

@[simp] theorem other_ne (side : Side) : side.other ≠ side := by cases side <;> decide

theorem forall_iff (side : Side) : (∀ s, p s) ↔ p side ∧ p side.other := by
  refine ⟨fun h => ⟨h _, h _⟩, fun h s => ?_⟩
  cases s <;> cases side
  · exact h.1
  · exact h.2
  · exact h.2
  · exact h.1

theorem not_own_other {side : Side} {streamId : UInt32} (h : Session.Own side.other.isClient streamId) :
    ¬Session.Own side.isClient streamId := by
  intro ho
  unfold Session.Own at h ho
  rw [h] at ho
  cases side <;> cases ho

end Side

-- ---------------------------------------------------------------------------
-- One end
-- ---------------------------------------------------------------------------

namespace Session

structure Orderly (config : Config) (side : Side) (session : Session) : Prop where
  config_eq : session.config = config
  isClient_eq : session.isClient = side.isClient
  ids : session.Ids
  mapped : Mapped session.streams session.handles session.handled
  sent : Sent session.config session.handles session.queued

section
variable {config : Config} {side : Side} {u v : Session} {act : Act}

theorem orderly_new (config : Config) (side : Side) : (new config side.isClient).Orderly config side :=
  ⟨rfl, rfl, ids_new config side.isClient, .new config side.isClient, .new config side.isClient⟩

theorem orderly_step (h : u.Orderly config side) (ha : u.Admissible act) (hs : u.step act = some v) :
    v.Orderly config side where
  config_eq := (step_config hs).trans h.config_eq
  isClient_eq := (step_isClient hs).trans h.isClient_eq
  ids := ids_step h.ids ha hs
  mapped := mapped_step h.mapped h.ids ha hs
  sent := sent_step h.sent h.ids h.mapped ha hs

theorem Orderly.follows (h : u.Orderly config side) : u.queued.Pairwise Follows :=
  h.sent.follows h.ids.ne_zero

theorem admissible_of_loop (hid : idResult (u, act) = none) (htakes : act.takes = []) :
    u.Admissible act where
  ids e he := by rw [hid] at he; cases he
  recv frame hf := by subst hf; cases htakes

end

end Session

-- ---------------------------------------------------------------------------
-- Both ends
-- ---------------------------------------------------------------------------

section
variable {config : Config} {side : Side} {sender receiver : Session} {wire buf : Bytes}
  {frame : Frame} {transit rest : List Frame}

open Session

/-- The next frame on the way is one that the receiver may expect. -/
theorem OnTheWay.conforms (h : OnTheWay config sender wire buf receiver (frame :: transit) rest)
    (hs : sender.Orderly config side) (hr : receiver.Orderly config side.other)
    (hback : sender.taken <+: receiver.queued) (hn : receiver.handling = none) :
    receiver.Conforms frame where
  follows := by
    have hfollows := hs.follows
    rw [h.queued, taken_of_none hn, List.append_assoc] at hfollows
    intro earlier he
    exact (List.pairwise_append.mp hfollows).2.2 earlier he frame (by simp)
  own hc ho := by
    have hmem : frame ∈ sender.queued := by rw [h.queued]; simp
    obtain ⟨handle, hm, hid⟩ := hs.sent.owned frame hmem hc
    -- it answers a stream of the receiver's, so it was opened by a SYN
    have hnot : ¬Own sender.isClient handle.id := by
      rw [hs.isClient_eq, hid]
      exact Side.not_own_other (hr.isClient_eq ▸ ho)
    obtain ⟨-, syn, hsyn, hcmd, hsid⟩ := hs.ids.peer handle hm hnot
    have hsyn' : syn ∈ receiver.queued := hback.subset (List.mem_append_left _ hsyn)
    obtain ⟨opened, hopened, he⟩ := hr.sent.owned syn hsyn' (by rw [hcmd]; nofun)
    exact ⟨opened, hopened, he.trans (hsid.trans hid)⟩

end

namespace Link

/-- No call of `next_stream_id` finds the ids used up. -/
def idsLeft (link : Link) : Act → Bool
  | .session side act => (Session.idResult ((link side).session, act)).all Except.toBool
  | _ => true

/-- Everything a step can do. -/
inductive Step (u : Link) : Act → Link → Prop
  | session : call.takes = [] → call ≠ .sendFrame → (u side).session.step call = some session →
      Step u (.session side call) (u.set side { u side with session })
  | sent : (u side).session.frames = frame :: left →
      (u side).session.step .sendFrame = some session →
      ((Codec.new (u side).session.config).encode frame).run' (u side).wire = (.ok (), wire) →
      Step u (.send side) (u.set side { u side with session, wire })
  | sendFailed : (u side).session.step .sendFrame = some session →
      session.step .sendLoopEnded = some ended →
      Step u (.send side) (u.set side { u side with session := ended })
  | read : Step u (.read side n)
      ((u.set side { u side with buf := (u side).buf ++ (u side.other).wire.take n }).set
        side.other { u side.other with wire := (u side.other).wire.drop n })
  | next : (Codec.new (u side).session.config).decode.run' (u side).buf = (.ok (some frame), buf) →
      (u side).session.step (.recv frame) = some session →
      Step u (.next side) (u.set side { u side with session, buf })
  | undecodable :
      (Codec.new (u side).session.config).decode.run' (u side).buf = (.error e, buf) →
      (u side).session.step .close = some session →
      Step u (.next side) (u.set side { u side with session, buf })

structure Joined (config : Config) (link : Link) : Prop where
  orderly : ∀ side, (link side).session.Orderly config side
  fifo : ∀ side, Fifo config (link side).session (link side).wire (link side.other).buf
    (link side.other).session

section
variable {config : Config} {u v : Link} {side : Side} {act : Act} {e : End} {session : Session}

@[simp] theorem set_self : u.set side e side = e := if_pos rfl

@[simp] theorem set_other : u.set side e side.other = u side.other := if_neg side.other_ne

@[simp] theorem set_other_self : u.set side.other e side = u side := if_neg side.other_ne.symm

theorem step_ok (hs : u.step act = some v) : Step u act v := by
  cases act with
  | session side call =>
    have hcall : call.takes = [] ∧ call ≠ .sendFrame ∧
        ∃ session, (u side).session.step call = some session ∧
          v = u.set side { u side with session } := by
      cases call with
      | recv => cases hs
      | sendFrame => cases hs
      | _ =>
        obtain ⟨session, hsession, rfl⟩ := Runs.bind_return hs
        exact ⟨rfl, nofun, session, hsession, rfl⟩
    obtain ⟨htakes, hsend, session, hsession, rfl⟩ := hcall
    exact .session htakes hsend hsession
  | send side =>
    simp only [step] at hs
    split at hs
    · cases hs
    · rename_i hf
      obtain ⟨e, he, rfl⟩ := Runs.bind_return hs
      obtain ⟨session, hpop, he⟩ := Option.bind_eq_some_iff.mp he
      split at he
      · rename_i henc
        cases he
        exact .sent hf hpop henc
      · rename_i henc
        obtain ⟨ended, hend, rfl⟩ := Runs.bind_return he
        obtain rfl := Codec.encode_error henc
        exact .sendFailed hpop hend
  | read side n => cases hs; exact .read
  | next side =>
    obtain ⟨e, he, rfl⟩ := Runs.bind_return hs
    unfold End.nextFrame at he
    split at he
    · cases he
    · rename_i hdec
      obtain ⟨session, hrecv, rfl⟩ := Runs.bind_return he
      exact .next hdec hrecv
    · rename_i hdec
      obtain ⟨session, hclose, rfl⟩ := Runs.bind_return he
      exact .undecodable hdec hclose

theorem joined_new (config : Config) : (new config).Joined config :=
  ⟨fun side => Session.orderly_new config side, fun side => Fifo.new config side⟩

namespace Joined

variable (h : u.Joined config)
include h

theorem fifo_in (side : Side) : Fifo config (u side.other).session (u side.other).wire (u side).buf
    (u side).session := by
  have hin := h.fifo side.other
  rwa [Side.other_other] at hin

theorem set (horderly : e.session.Orderly config side)
    (hout : Fifo config e.session e.wire (u side.other).buf (u side.other).session)
    (hin : Fifo config (u side.other).session (u side.other).wire e.buf e.session) :
    (u.set side e).Joined config := by
  constructor
  · rw [Side.forall_iff side]
    simpa using ⟨horderly, h.orderly side.other⟩
  · rw [Side.forall_iff side]
    simpa using ⟨hout, hin⟩

/-- The decoder yields the next frame the other side has queued. -/
theorem decoded (hdec : (Codec.new (u side).session.config).decode.run' (u side).buf =
    (.ok (some frame), buf)) : ∃ transit rest, OnTheWay config (u side.other).session
      (u side.other).wire (u side).buf (u side).session (frame :: transit) rest := by
  rw [(h.orderly side).config_eq] at hdec
  obtain ⟨_, transit, rest, hr, hway, -⟩ := (h.fifo_in side).decode hdec nofun
  cases hr
  exact ⟨transit, rest, hway⟩

/-- The frames that a side handles are those of a conforming peer. -/
theorem admissible_recv (hdec : (Codec.new (u side).session.config).decode.run' (u side).buf =
    (.ok (some frame), buf)) (hs : (u side).session.step (.recv frame) = some session) :
    (u side).session.Admissible (.recv frame) := by
  obtain ⟨transit, rest, hway⟩ := h.decoded hdec
  refine ⟨nofun, fun f hf => ?_⟩
  cases hf
  exact hway.conforms (h.orderly side.other) (by simpa using h.orderly side)
    (h.fifo side).isPrefix_taken (Session.recv_enabled hs).1

end Joined

theorem admissible_of_idsLeft {call : Session.Act} (hids : u.idsLeft (.session side call))
    (htakes : call.takes = []) : (u side).session.Admissible call where
  ids e he := by rw [idsLeft, he] at hids; cases hids
  recv frame hf := by subst hf; cases htakes

theorem joined_step (hmax : config.maxFrameSize ≤ headerSize + 65535) (h : u.Joined config)
    (hids : u.idsLeft act) (hs : u.step act = some v) : v.Joined config := by
  cases step_ok hs with
  | session htakes hsend hcall =>
    have ha := admissible_of_idsLeft hids htakes
    exact h.set (Session.orderly_step (h.orderly _) ha hcall)
      ((h.fifo _).sender_step hcall hsend) ((h.fifo_in _).receiver_step hcall htakes)
  | @sent side frame left session wire hf hpop henc =>
    have ha : (u side).session.Admissible .sendFrame := Session.admissible_of_loop rfl rfl
    rw [(h.orderly side).config_eq] at henc
    exact h.set (Session.orderly_step (h.orderly side) ha hpop)
      ((h.fifo side).send hf hpop henc hmax) ((h.fifo_in side).receiver_step hpop rfl)
  | @sendFailed side session ended hpop hend =>
    have ha : (u side).session.Admissible .sendFrame := Session.admissible_of_loop rfl rfl
    have ha' : session.Admissible .sendLoopEnded := Session.admissible_of_loop rfl rfl
    have hmid := Session.orderly_step (h.orderly side) ha hpop
    exact h.set (Session.orderly_step hmid ha' hend) ((h.fifo side).sendFailed hpop hend)
      (((h.fifo_in side).receiver_step hpop rfl).receiver_step hend rfl)
  | @read side n =>
    constructor
    · rw [Side.forall_iff side]
      simpa using ⟨h.orderly side, h.orderly side.other⟩
    · rw [Side.forall_iff side]
      simpa using ⟨h.fifo side, (h.fifo_in side).read n⟩
  | @next side frame buf session hdec hrecv =>
    have ha := h.admissible_recv hdec hrecv
    rw [(h.orderly side).config_eq] at hdec
    exact h.set (Session.orderly_step (h.orderly side) ha hrecv)
      ((h.fifo side).sender_step hrecv nofun) ((h.fifo_in side).next hdec hrecv)
  | undecodable hdec =>
    rw [(h.orderly _).config_eq] at hdec
    exact absurd hdec (h.fifo_in _).decode_ne_error

end

end Link

end Smux
