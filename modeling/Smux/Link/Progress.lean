import Mathlib.Algebra.Order.BigOperators.Group.List
import Mathlib.Algebra.Order.Ring.Nat
import Smux.Lib.Settling
import Smux.Link.Accepting
import Smux.Link.Integrity
import Smux.Session.AcceptQueue
import Smux.Session.Announced
import Smux.Session.Frames
import Smux.Session.Ledger
import Smux.Session.Working

/-!
# What the loops do by themselves

`drains`: two open sessions that are left to their loops, with the transport
delivering, come to rest. Then everything that was accepted on one side is
returned or can be read on the other, unless its accept queue is full and
nobody calls `accept_stream` there.
-/

namespace Smux

open Runs

/-- What a configuration must allow for frames to get through. -/
structure Config.Carries (config : Config) : Prop where
  valid : config.validate = .ok ()
  header : headerSize ≤ config.maxFrameSize
  length : config.maxFrameSize ≤ headerSize + 65535

namespace Session

/-- The steps that take frames through a session. -/
def Act.isMove : Act → Bool
  | .recv _ | .accepted | .acceptStream | .sendFrame => true
  | _ => false

/-- The streams that a session has to hand out, and the one not queued yet
with a weight for both its steps. -/
def load (self : Session) : Nat :=
  (if self.handling.isSome then 2 else 0) + self.incoming.length

section
variable {config : Config} {isClient : Bool} {u v : Session} {act : Act} {frame : Frame}

/-- A frame on its way makes no other frame, and closes nothing. -/
theorem move_kept (hs : u.step act = some v) (hact : act.isMove) :
    v.state.closed = u.state.closed ∧ v.channelOpen = u.channelOpen ∧ v.queued = u.queued ∧
      (act ≠ .sendFrame → v.frames = u.frames) := by
  have hclosed : v.state.closed = u.state.closed := by
    rcases step_closed hs with ⟨hc, -⟩ | ⟨rfl | rfl | rfl, -⟩
    · exact hc
    · cases hact
    · cases hact
    · cases hact
  have hopen : v.channelOpen = u.channelOpen := by
    rcases step_channelOpen hs with ho | rfl
    · exact ho
    · cases hact
  refine ⟨hclosed, hopen, ?_⟩
  cases step_ok hs with
  | called hcall _ hcalled =>
    cases hcall with
    | call => cases hact
    | accept =>
      simp only [Handle.step] at hcalled
      split at hcalled
      · cases hcalled
        exact ⟨List.append_nil _, fun _ => List.append_nil _⟩
      · cases hcalled
  | ping | nextStreamId | openFailed | opened | register | close | sendLoopEnded => cases hact
  | sendFrame => exact ⟨rfl, fun hne => absurd rfl hne⟩
  | psh hp hpsh => cases hp <;> cases hpsh <;> exact ⟨rfl, fun _ => rfl⟩
  | _ => exact ⟨rfl, fun _ => rfl⟩

theorem recv_load (hs : u.step (.recv frame) = some v) : v.load ≤ u.load + 2 := by
  have hin : v.incoming = u.incoming := by
    cases step_ok hs with
    | called hcall => cases hcall
    | psh hp hpsh =>
      cases hp
      cases hpsh <;> rfl
    | _ => rfl
  rw [load, load, hin]
  split <;> omega

theorem accepted_load (hs : u.step .accepted = some v) : v.load < u.load := by
  cases step_ok hs with
  | called hcall => cases hcall
  | psh hp => cases hp
  | accepted hn =>
    simp only [load, hn, Option.isSome_some, Option.isSome_none, if_true, Bool.false_eq_true,
      if_false, List.length_append, List.length_singleton]
    omega

theorem acceptStream_load (hs : u.step .acceptStream = some v) : v.load < u.load := by
  cases step_ok hs with
  | called hcall =>
    cases hcall with
    | accept hin =>
      rw [load, load, hin]
      exact Nat.add_lt_add_left (Nat.lt_succ_self _) _
  | psh hp => cases hp

end

end Session

namespace End

/-- What the loops have left to do, with a weight for each frame and byte that
falls with every step it takes. -/
def work (self : End) : Nat :=
  (self.session.frames.map fun frame => 2 * (Codec.wire frame).length + 1).sum +
    2 * self.wire.length + self.buf.length + self.session.load

end End

namespace Link

/-- What the loops and the transport do by themselves, and `accept_stream` on
the sides that call it. Pings, which never end, are not among them. -/
def isMove (accepts : Side → Bool) (link : Link) : Act → Bool
  | .send _ | .next _ | .session _ .accepted => true
  | .read side n => n ≠ 0 ∧ (link side.other).wire ≠ []
  | .session side .acceptStream => accepts side
  | _ => false

def work (self : Link) : Nat := (self .client).work + (self .server).work

/-- All that the other side has queued has arrived. -/
structure Arrived (link : Link) (side : Side) : Prop where
  frames : (link side.other).session.frames = []
  wire : (link side.other).wire = []
  buf : (link side).buf = []
  handling : (link side).session.handling = none
  opened : ∀ streamId ∈ Session.synIds (link side.other).session.queued,
    ∃ handle ∈ (link side).session.handles, handle.id = streamId
  data : ∀ handle ∈ (link side).session.handles, handle.phase ≠ .dropped →
    handle.returned ++ handle.stream.unread = (link side.other).session.acceptedOf handle.id
  eof : ∀ handle ∈ (link side).session.handles, handle.phase ≠ .dropped →
    (handle.stream.dataRx.connected = false ↔
      ∃ fin ∈ (link side.other).session.queued, fin.cmd = .fin ∧ fin.streamId = handle.id)

/-- `handle_syn_frame` waits for room in the accept queue. -/
structure Blocked (link : Link) (side : Side) : Prop where
  accepting : ∃ k, (link side).session.handling = some (.accepting k)
  full : (link side).session.incoming.length = Session.acceptBacklog

/-- Left to themselves, the loops come to rest. -/
structure Drains (accepts : Side → Bool) (link : Link) : Prop where
  bounded : ∀ tr t, Run step link tr t → (∀ p ∈ tr, p.1.isMove accepts p.2) →
    tr.length ≤ link.work
  settles : ∃ tr t, Run step link tr t ∧ (∀ p ∈ tr, p.1.isMove accepts p.2) ∧
    Settled step (fun u act => u.isMove accepts act) t
  settled : ∀ tr t, Run step link tr t → (∀ p ∈ tr, p.1.isMove accepts p.2) →
    Settled step (fun u act => u.isMove accepts act) t →
    ∀ side, (t.Arrived side ∨ t.Blocked side) ∧ (accepts side → (t side).session.incoming = [])

/-- A move, from a state with both sessions open. -/
inductive Move (u : Link) : Act → Link → Prop
  | sent : (u side).session.frames = frame :: left →
      (u side).session.step .sendFrame = some session → session.frames = left →
      session.load = (u side).session.load →
      Move u (.send side)
        (u.set side { u side with session, wire := (u side).wire ++ Codec.wire frame })
  | read : n ≠ 0 → (u side.other).wire ≠ [] →
      Move u (.read side n)
        ((u.set side { u side with buf := (u side).buf ++ (u side.other).wire.take n }).set
          side.other { u side.other with wire := (u side.other).wire.drop n })
  | next : (u side).session.step (.recv frame) = some session →
      buf.length + headerSize ≤ (u side).buf.length →
      Move u (.next side) (u.set side { u side with session, buf })
  | called : (u side).session.step call = some session → call = .accepted ∨ call = .acceptStream →
      Move u (.session side call) (u.set side { u side with session })

-- ---------------------------------------------------------------------------
-- One side of a run
-- ---------------------------------------------------------------------------

section
variable {config : Config} {u v t : Link} {side : Side} {act : Act} {e : End} {frame : Frame}
  {tr : List (Link × Act)} {accepts : Side → Bool}

/-- A step of the link is a few steps of each session, or none. -/
theorem step_session (h : u.Joined config) (hids : u.idsLeft act) (hroom : act.hasRoom)
    (hs : u.step act = some v) (side : Side) :
    ∃ tr, Run Session.step (u side).session tr (v side).session ∧
      ∀ p ∈ tr, Session.Conforming p := by
  have hnil : ∀ {s : Session}, ∃ tr, Run Session.step s tr s ∧
      ∀ p ∈ tr, Session.Conforming p :=
    ⟨[], .nil, by rintro _ ⟨⟩⟩
  have hone : ∀ {s s' : Session} {call}, s.step call = some s' → s.Admissible call →
      (∀ k, call ≠ .call k (.pollRead 0)) → ∃ tr, Run Session.step s tr s' ∧
        ∀ p ∈ tr, Session.Conforming p := by
    intro s s' call hcall ha hread
    refine ⟨[(s, call)], .cons hcall .nil, fun p hp => ?_⟩
    rw [List.mem_singleton.mp hp]
    exact ⟨ha, hread⟩
  have hset : ∀ {s e}, (∃ tr, Run Session.step (u s).session tr e.session ∧
        ∀ p ∈ tr, Session.Conforming p) →
      ∃ tr, Run Session.step (u side).session tr (u.set s e side).session ∧
        ∀ p ∈ tr, Session.Conforming p := by
    intro s e h
    by_cases hside : side = s
    · subst hside
      rwa [set_self]
    · have hkept : u.set s e side = u side := if_neg hside
      rw [hkept]
      exact hnil
  cases step_ok hs with
  | session htakes _ hcall =>
    refine hset (hone hcall (admissible_of_idsLeft hids htakes) ?_)
    rintro k rfl
    cases hroom
  | sent _ hpop => exact hset (hone hpop (Session.admissible_of_loop rfl rfl) (by rintro _ ⟨⟩))
  | sendFailed hpop hend =>
    refine hset ⟨[(_, .sendFrame), (_, .sendLoopEnded)], .cons hpop (.cons hend .nil), ?_⟩
    intro p hp
    rcases List.mem_cons.mp hp with rfl | hp
    · exact ⟨Session.admissible_of_loop rfl rfl, by rintro _ ⟨⟩⟩
    · rw [List.mem_singleton.mp hp]
      exact ⟨Session.admissible_of_loop rfl rfl, by rintro _ ⟨⟩⟩
  | @read s n => cases side <;> cases s <;> exact hnil
  | next hdec hrecv => exact hset (hone hrecv (h.admissible_recv hdec hrecv) (by rintro _ ⟨⟩))
  | undecodable _ hclose =>
    exact hset (hone hclose (Session.admissible_of_loop rfl rfl) (by rintro _ ⟨⟩))

/-- Each side of a run is a run of its session, with a conforming peer. -/
theorem session_run (hmax : config.maxFrameSize ≤ headerSize + 65535)
    (hr : Run step (new config) tr t) (hids : ∀ p ∈ tr, p.1.idsLeft p.2)
    (hroom : ∀ p ∈ tr, p.2.hasRoom) (side : Side) :
    ∃ tr, Run Session.step (.new config side.isClient) tr (t side).session ∧
      ∀ p ∈ tr, Session.Conforming p := by
  induction hr with
  | nil => exact ⟨[], .nil, by rintro _ ⟨⟩⟩
  | @snoc tr t act v hr hs ih =>
    have hbefore : ∀ p ∈ tr, p.1.idsLeft p.2 := fun p hp => hids p (List.mem_append_left _ hp)
    have hlast : (t, act) ∈ tr ++ [(t, act)] := by simp
    obtain ⟨before, hb, hbok⟩ := ih hbefore fun p hp => hroom p (List.mem_append_left _ hp)
    have hjoined := (sidesAccept_run hmax hr hbefore).joined
    obtain ⟨after, ha, haok⟩ := step_session hjoined (hids _ hlast) (hroom _ hlast) hs side
    refine ⟨before ++ after, hb.append ha, fun p hp => ?_⟩
    rcases List.mem_append.mp hp with hp | hp
    · exact hbok p hp
    · exact haok p hp

-- ---------------------------------------------------------------------------
-- Two open sessions
-- ---------------------------------------------------------------------------

/-- A state reached with both sessions open. -/
structure Running (config : Config) (link : Link) : Prop where
  reached : ∃ tr, Run step (new config) tr link ∧ (∀ p ∈ tr, p.1.idsLeft p.2) ∧
    ∀ p ∈ tr, p.2.hasRoom
  isOpen : ∀ side, (link side).session.state.closed = false ∧ (link side).session.channelOpen
  small : ∀ side,
    config.maxReceiveBuffer + Session.payloadBytes (link side).session.queued < 2 ^ 63

namespace Running

variable (hc : config.Carries) (h : u.Running config)
include hc h

theorem sidesAccept : ∃ tr, SidesAccept config tr u := by
  obtain ⟨tr, hr, hids, -⟩ := h.reached
  exact ⟨tr, sidesAccept_run hc.length hr hids⟩

theorem session (side : Side) :
    ∃ tr, Run Session.step (.new config side.isClient) tr (u side).session ∧
      ∀ p ∈ tr, Session.Conforming p := by
  obtain ⟨tr, hr, hids, hroom⟩ := h.reached
  exact session_run hc.length hr hids hroom side

theorem inv : u.Inv config := by
  obtain ⟨tr, hr, hids, hroom⟩ := h.reached
  have hok : ∀ p ∈ tr, p.1.idsLeft p.2 ∧ p.2.hasRoom := fun p hp => ⟨hids p hp, hroom p hp⟩
  exact hr.invariant hok (inv_new config) (fun h ho hs => inv_step hc.length h ho.1 ho.2 hs) u
    (last_visited ..)

theorem handled_isPrefix (side : Side) :
    (u side).session.handled <+: (u side.other).session.queued := by
  have hfifo := (h.inv hc).joined.fifo_in side
  exact (List.prefix_append ..).trans hfifo.isPrefix_taken

/-- No payload waits for tokens. -/
theorem idle (side : Side) : (u side).session.Idle := by
  obtain ⟨tr, hr, -⟩ := h.session hc side
  have hle := Session.payloadBytes_mono (h.handled_isPrefix hc side)
  have hsmall := h.small side.other
  exact (Session.ledger_run hc.valid hr (by omega)).idle

theorem queue (side : Side) : (u side).session.AcceptQueue := by
  obtain ⟨tr, hr, -⟩ := h.session hc side
  have hall := hr.always (Session.acceptQueue_new config side.isClient) Session.acceptQueue_step
  exact hall _ (last_visited ..)

theorem announced (side : Side) : (u side).session.Announced := by
  obtain ⟨tr, hr, hok⟩ := h.session hc side
  exact (Session.announced_run hr hok).2

/-- The encoder takes every frame in the channel. -/
theorem encodes (side : Side) (hf : frame ∈ (u side).session.frames) (dst : Bytes) :
    ∃ dst', ((Codec.new config).encode frame).run' dst = (.ok (), dst') := by
  obtain ⟨transit, rest, hway⟩ := (h.inv hc).fifo side
  rw [← hway.rest_eq (h.isOpen side).2] at hf
  have hqueued : frame ∈ (u side).session.queued := by
    rw [hway.queued]
    exact List.mem_append_right _ hf
  obtain ⟨tr, hr, -⟩ := h.session hc side
  have hb := Session.built_run hr frame hqueued
  have hsound := (h.inv hc).sound side
  have hid : frame.streamId ≠ 0 ∨ frame.cmd = .nop := by
    by_cases hnop : frame.cmd = .nop
    · exact .inr hnop
    · obtain ⟨handle, hm, hid⟩ := hsound.sent.owned frame hqueued hnop
      exact .inl (hid ▸ hsound.receives.ids.ne_zero handle hm)
  exact encode_of_valid hb (hb.valid (Config.validate_ok.mp hc.valid).version hc.header hid) dst

end Running

theorem move_ok (hc : config.Carries) (h : u.Running config) (hm : u.isMove accepts act)
    (hs : u.step act = some v) : Move u act v := by
  cases act with
  | send side =>
    simp only [step] at hs
    split at hs
    · cases hs
    · rename_i frame left hf
      obtain ⟨e, he, rfl⟩ := Runs.bind_return hs
      obtain ⟨session, hpop, he⟩ := Option.bind_eq_some_iff.mp he
      obtain ⟨dst', henc⟩ := h.encodes hc side (hf ▸ List.mem_cons_self) (u side).wire
      have hconfig := ((h.inv hc).sound side).config_eq
      rw [End.codec, hconfig, henc] at he
      cases he
      obtain ⟨-, rfl⟩ := Codec.encode_ok henc
      obtain ⟨_, _, hf', -, rfl⟩ := Session.sendFrame_ok hpop
      rw [hf] at hf'
      cases hf'
      exact .sent hf hpop rfl rfl
  | read side n =>
    cases hs
    simp only [isMove, decide_eq_true_eq] at hm
    exact .read hm.1 hm.2
  | next side =>
    cases step_ok hs with
    | next hdec hrecv =>
      refine .next hrecv ?_
      rw [((h.inv hc).sound side).config_eq] at hdec
      obtain ⟨frame, transit, rest, -, hway, hbytes⟩ :=
        ((h.inv hc).joined.fifo_in side).decode hdec (by rintro ⟨⟩)
      have hall := congrArg List.length hway.bytes
      have hleft := congrArg List.length hbytes
      have hwire := Codec.length_wire frame
      simp only [List.length_append, List.flatMap_cons] at hall hleft
      omega
    | undecodable hdec =>
      rw [((h.inv hc).sound side).config_eq] at hdec
      exact absurd hdec ((h.inv hc).joined.fifo_in side).decode_ne_error
  | session side call =>
    cases step_ok hs with
    | session _ _ hcall =>
      refine .called hcall ?_
      cases call <;> first | exact .inl rfl | exact .inr rfl | cases hm

/-- What a move leaves of a session. -/
theorem Move.kept (hm : Move u act v) (side : Side) :
    (v side).session.state.closed = (u side).session.state.closed ∧
      (v side).session.channelOpen = (u side).session.channelOpen ∧
      (v side).session.queued = (u side).session.queued := by
  have hset : ∀ {s e call}, (u s).session.step call = some e.session → call.isMove →
      (u.set s e side).session.state.closed = (u side).session.state.closed ∧
        (u.set s e side).session.channelOpen = (u side).session.channelOpen ∧
        (u.set s e side).session.queued = (u side).session.queued := by
    intro s e call hcall hmove
    by_cases hside : side = s
    · subst hside
      obtain ⟨hclosed, hopen, hqueued, -⟩ := Session.move_kept hcall hmove
      rw [set_self]
      exact ⟨hclosed, hopen, hqueued⟩
    · have hkept : u.set s e side = u side := if_neg hside
      rw [hkept]
      exact ⟨rfl, rfl, rfl⟩
  cases hm with
  | sent _ hpop => exact hset hpop rfl
  | @read n s => cases side <;> cases s <;> exact ⟨rfl, rfl, rfl⟩
  | next hrecv => exact hset hrecv rfl
  | called hcall hact => rcases hact with rfl | rfl <;> exact hset hcall rfl

theorem Running.move (hc : config.Carries) (h : u.Running config) (hm : u.isMove accepts act)
    (hs : u.step act = some v) : v.Running config := by
  have hkept := (move_ok hc h hm hs).kept
  obtain ⟨tr, hr, hids, hroom⟩ := h.reached
  have hlast : u.idsLeft act ∧ act.hasRoom := by
    cases act with
    | session side call =>
      cases call with
      | accepted | acceptStream => exact ⟨rfl, rfl⟩
      | _ => cases hm
    | _ => exact ⟨rfl, rfl⟩
  refine ⟨⟨tr ++ [(u, act)], hr.snoc hs, fun p hp => ?_, fun p hp => ?_⟩, fun side => ?_,
    fun side => ?_⟩
  · rcases List.mem_append.mp hp with hp | hp
    · exact hids p hp
    · rw [List.mem_singleton.mp hp]
      exact hlast.1
  · rcases List.mem_append.mp hp with hp | hp
    · exact hroom p hp
    · rw [List.mem_singleton.mp hp]
      exact hlast.2
  · rw [(hkept side).1, (hkept side).2.1]
    exact h.isOpen side
  · rw [(hkept side).2.2]
    exact h.small side

theorem work_eq (u : Link) (side : Side) : u.work = (u side).work + (u side.other).work := by
  cases side
  · rfl
  · exact Nat.add_comm ..

theorem work_set (h : e.work < (u side).work) : (u.set side e).work < u.work := by
  rw [work_eq _ side, work_eq u side, set_self, set_other]
  omega

theorem Move.work_lt (hm : Move u act v) : v.work < u.work := by
  cases hm with
  | @sent side frame left session hf hpop hleft hload =>
    refine work_set ?_
    simp only [End.work, hleft, hload, hf, List.map_cons, List.sum_cons, List.length_append]
    omega
  | @read n side hn hwire =>
    have hlen := List.length_pos_iff.mpr hwire
    rw [work_eq _ side, work_eq u side, set_self, set_other_self, set_self]
    simp only [End.work, List.length_append, List.length_take, List.length_drop]
    omega
  | @next side frame session buf hrecv hbuf =>
    refine work_set ?_
    have hload := Session.recv_load hrecv
    have hframes := (Session.move_kept hrecv rfl).2.2.2 (by rintro ⟨⟩)
    simp only [End.work, hframes, headerSize] at hbuf ⊢
    omega
  | @called side call session hcall hact =>
    refine work_set ?_
    have hload : session.load < (u side).session.load := by
      rcases hact with rfl | rfl
      · exact Session.accepted_load hcall
      · exact Session.acceptStream_load hcall
    have hframes : session.frames = (u side).session.frames := by
      rcases hact with rfl | rfl <;> exact (Session.move_kept hcall rfl).2.2.2 (by rintro ⟨⟩)
    simp only [End.work, hframes]
    omega

theorem ranked (hc : config.Carries) (accepts : Side → Bool) :
    Ranked step (fun u act => u.isMove accepts act) (Running config) work where
  keeps h hm hs := h.move hc hm hs
  lowers h hm hs := (move_ok hc h hm hs).work_lt

-- ---------------------------------------------------------------------------
-- At rest
-- ---------------------------------------------------------------------------

namespace Running

variable (hc : config.Carries) (h : u.Running config)
include hc h

theorem send_enabled (hf : (u side).session.frames ≠ []) : u.step (.send side) ≠ none := by
  obtain ⟨frame, left, hf⟩ := List.exists_cons_of_ne_nil hf
  obtain ⟨dst', henc⟩ := h.encodes hc side (hf ▸ List.mem_cons_self) (u side).wire
  have hpop : (u side).session.step .sendFrame = some { (u side).session with frames := left } := by
    simp only [Session.step, hf, (h.isOpen side).2, if_true]
  simp [step, hf, End.sendFrame, hpop, End.codec, ((h.inv hc).sound side).config_eq, henc]

/-- A whole frame in the buffer can be taken. -/
theorem next_enabled {transit rest : List Frame}
    (hway : OnTheWay config (u side.other).session (u side.other).wire (u side).buf
      (u side).session (frame :: transit) rest)
    (hwire : (u side.other).wire = []) (hn : (u side).session.handling = none) :
    u.step (.next side) ≠ none := by
  have hfits := hway.fits frame List.mem_cons_self
  have hbuf := hway.bytes
  rw [hwire, List.append_nil, List.flatMap_cons] at hbuf
  have hconfig := ((h.inv hc).sound side).config_eq
  have hvalid : frame.validate (u side).session.config = .ok () := by
    rw [hconfig]
    exact Frame.validate_ok.mpr hfits.valid
  have hrecv : ∃ session, (u side).session.step (.recv frame) = some session := by
    simp [Session.step, hn, hvalid]
  obtain ⟨session, hrecv⟩ := hrecv
  simp [step, End.nextFrame, End.codec, hconfig, hbuf, Codec.decode_wire _ hfits, hrecv]

end Running

theorem settled_wire (hset : Settled step (fun u act => u.isMove accepts act) u) (side : Side) :
    (u side.other).wire = [] := by
  refine Classical.byContradiction fun hne => ?_
  have hnone := hset (.read side 1) (by simp [isMove, hne])
  cases hnone

section
variable (hc : config.Carries) (h : u.Running config)
  (hset : Settled step (fun u act => u.isMove accepts act) u)
include hc h hset

theorem settled_frames (side : Side) : (u side).session.frames = [] :=
  Classical.byContradiction fun hf => h.send_enabled hc hf (hset (.send side) rfl)

theorem settled_handling (side : Side) :
    (u side).session.handling = none ∨ u.Blocked side := by
  cases hn : (u side).session.handling with
  | none => exact .inl rfl
  | some handling =>
    cases handling with
    | accepting k =>
      refine .inr ⟨⟨k, hn⟩, Nat.le_antisymm (h.queue hc side).bound (Nat.not_lt.mp fun hlt => ?_)⟩
      have hnone := hset (.session side .accepted) rfl
      simp [step, Session.step, hn, hlt] at hnone
    | awaitingTokens => exact absurd hn (h.idle hc side _ _ _)

theorem settled_incoming (ha : accepts side) : (u side).session.incoming = [] := by
  refine Classical.byContradiction fun hne => ?_
  obtain ⟨session, hs⟩ := Option.isSome_iff_exists.mp ((h.queue hc side).accepts.mpr hne)
  have hnone := hset (.session side .acceptStream) ha
  simp [step, hs] at hnone

/-- Nothing is on the way to a side whose `handle_frame` is not waiting. -/
theorem settled_buf (hn : (u side).session.handling = none) : (u side).buf = [] ∧
    (u side.other).session.queued = (u side).session.handled := by
  obtain ⟨transit, rest, hway⟩ := (h.inv hc).joined.fifo_in side
  have hwire := settled_wire hset side
  have htransit : transit = [] := by
    cases transit with
    | nil => rfl
    | cons frame transit => exact absurd (hset (.next side) rfl) (h.next_enabled hc hway hwire hn)
  subst htransit
  have hbuf := hway.bytes
  rw [hwire, List.append_nil, List.flatMap_nil] at hbuf
  have hrest : rest = [] :=
    (hway.rest_eq (h.isOpen side.other).2).trans (settled_frames hc h hset side.other)
  have hqueued := hway.queued
  rw [hrest, List.append_nil, List.append_nil, Session.taken_of_none hn] at hqueued
  exact ⟨hbuf, hqueued⟩

/-- A SYN that was handled has its stream. -/
theorem settled_opened (hn : (u side).session.handling = none) :
    ∀ streamId ∈ Session.synIds (u side.other).session.queued,
      ∃ handle ∈ (u side).session.handles, handle.id = streamId := by
  intro streamId hsyn
  obtain ⟨syn, hmem, rfl⟩ := List.mem_map.mp hsyn
  obtain ⟨hqueued, hsyn⟩ := List.mem_filter.mp hmem
  have hcmd : syn.cmd = .syn := of_decide_eq_true hsyn
  obtain ⟨tr, hacc⟩ := h.sidesAccept hc
  have hother := (h.inv hc).sound side.other
  obtain ⟨opener, hm, hid⟩ := hother.sent.owned syn hqueued (by rw [hcmd]; rintro ⟨⟩)
  have hsent : syn ∈ opener.sent := by
    rw [hother.sent.sent opener hm]
    exact List.mem_filter.mpr ⟨hqueued, beq_iff_eq.mpr hid.symm⟩
  have hown := ((hacc.sides side.other).opens opener hm).own syn hsent hcmd
  rw [hother.isClient_eq, hid] at hown
  refine (h.announced hc side).opened syn ((settled_buf hc h hset hn).2 ▸ hqueued) hcmd ?_
  refine Session.peer_of_not_own (hid ▸ hother.receives.ids.ne_zero opener hm) ?_
  rw [((h.inv hc).sound side).isClient_eq]
  exact Side.not_own_other hown

theorem settled_arrived (hn : (u side).session.handling = none) : u.Arrived side := by
  obtain ⟨hbuf, hqueued⟩ := settled_buf hc h hset hn
  have hsound := (h.inv hc).sound side
  have hdelivery := hsound.receives.delivery
  refine ⟨settled_frames hc h hset side.other, settled_wire hset side, hbuf, hn,
    settled_opened hc h hset hn, fun handle hm hlive => ?_, fun handle hm hlive => ⟨fun hconn => ?_, ?_⟩⟩
  · rw [(hdelivery.intact handle hm).conserved, ((h.inv hc).sound side.other).acceptedOf_eq,
      hqueued]
    exact hdelivery.delivered (h.isOpen side).1 handle hm hlive
  · rw [hqueued]
    exact hsound.receives.mapped.fin handle hm hlive hconn
  · rintro ⟨fin, hf, hcmd, hid⟩
    exact (h.announced hc side).ended fin (hqueued ▸ hf) hcmd handle hm hlive hid.symm

end

/-- Whatever was done before, two open sessions that are left to their loops
deliver what they have accepted. -/
theorem drains (hc : config.Carries) (hr : Run step (new config) tr u)
    (hids : ∀ p ∈ tr, p.1.idsLeft p.2) (hroom : ∀ p ∈ tr, p.2.hasRoom)
    (hopen : ∀ side, (u side).session.state.closed = false ∧ (u side).session.channelOpen)
    (hsmall : ∀ side,
      config.maxReceiveBuffer + Session.payloadBytes (u side).session.queued < 2 ^ 63)
    (accepts : Side → Bool) : u.Drains accepts := by
  have h : u.Running config := ⟨⟨tr, hr, hids, hroom⟩, hopen, hsmall⟩
  have hranked := ranked hc accepts
  refine ⟨fun tr t hr hm => ?_, hranked.settles h, fun tr t hr hm hset side => ⟨?_, fun ha => ?_⟩⟩
  · have hle := (hranked.run h hr hm).2
    omega
  · have ht := (hranked.run h hr hm).1
    exact (settled_handling hc ht hset side).imp_left (settled_arrived hc ht hset)
  · exact settled_incoming hc (hranked.run h hr hm).1 hset ha

end

/-- A stream is opened, written and shut down, and nothing is sent yet. -/
def written : List Act :=
  [.session .client .openStream, .session .client (.register 1),
    .session .client (.call 0 .synResumed), .session .client (.call 0 .opened),
    .session .client (.call 0 (.pollWrite [1, 2, 3] true)),
    .session .client (.call 0 (.pollShutdown true))]

theorem drains_written : ∃ tr u, exec step (new .default) written = some (tr, u) ∧
    (u .client).session.acceptedOf 1 = [1, 2, 3] ∧ u.Drains fun _ => true := by
  obtain ⟨tr, u, he, hr, hacc, hids, hroom, ⟨hclient, hserver⟩, hsent, hidle⟩ :=
    exec_sat step (new .default) written
      (fun tr u => (u .client).session.acceptedOf 1 = [1, 2, 3] ∧ (∀ p ∈ tr, p.1.idsLeft p.2) ∧
        (∀ p ∈ tr, p.2.hasRoom) ∧
        (((u .client).session.state.closed = false ∧ (u .client).session.channelOpen) ∧
          (u .server).session.state.closed = false ∧ (u .server).session.channelOpen) ∧
        Session.payloadBytes (u .client).session.queued = 3 ∧
        Session.payloadBytes (u .server).session.queued = 0) (by decide +kernel)
  refine ⟨tr, u, he, hacc, drains ⟨by decide, by decide, by decide⟩ hr hids hroom ?_ ?_ _⟩
  · rintro (_ | _)
    · exact hclient
    · exact hserver
  · rintro (_ | _)
    · rw [hsent]
      decide
    · rw [hidle]
      decide

end Link

end Smux
