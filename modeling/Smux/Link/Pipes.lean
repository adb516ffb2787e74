import Smux.Lib.Pipe
import Smux.Link.Integrity

/-!
# Two sessions are a bundle of pipes

What an application sees of a stream is what `poll_write` accepts, the FIN it
sends, what `poll_read` returns, and the end of file. `refinesPipes`: of every
run of two sessions, this is a trace of pipes, one for each direction of each
stream, none of which has to do with another.
-/

namespace Smux

open Runs

namespace Handle

/-- What can be seen of a call on a stream. -/
def observe (self : Handle) (config : Config) (state : SessionState) (channelOpen : Bool)
    (act : Act) : Option (Pipe.Event UInt8) :=
  match act with
  | .pollRead remaining =>
    match (self.stream.pollRead state remaining).1 with
    | .ready (.ok []) => some .eof
    | .ready (.ok bytes) => some (.read bytes)
    | _ => none
  | .pollWrite buf room =>
    match (self.stream.pollWrite state config buf (answer channelOpen room)).1 with
    | .ready (.ok n) => some (.wrote (buf.take n))
    | _ => none
  | act =>
    match self.step config state channelOpen act with
    | some (_, _, frames) => if frames.any (·.cmd = .fin) then some .finished else none
    | none => none

/-- When an event is seen. -/
inductive Seen (self : Handle) (state : SessionState) : Act → Pipe.Event UInt8 → Prop
  | wrote : self.stream.isWriteClosed = false → Seen self state (.pollWrite buf room) (.wrote data)
  | read : data ≠ [] → Seen self state (.pollRead n) (.read data)
  | eof : (self.stream.pollRead state n).1 = .ready (.ok []) → Seen self state (.pollRead n) .eof
  | finished : Seen self state act .finished

section
variable {self self' : Handle} {config : Config} {state state' : SessionState} {channelOpen : Bool}
  {act : Act} {frames : List Frame} {event : Option (Pipe.Event UInt8)}

/-- What a call shows is what it puts in the channel and what it returns. -/
theorem observe_eq (h : self.step config state channelOpen act = some (self', state', frames))
    (he : self.observe config state channelOpen act = event) :
    frames.flatMap Frame.data = (event.map Pipe.Event.written).getD [] ∧
      self'.returned = self.returned ++ (event.map Pipe.Event.taken).getD [] ∧
      frames.any (·.cmd = .fin) = event.any Pipe.Event.finishes := by
  rcases step_ok h with ⟨n, result, stream, rfl, -, rfl, hread, rfl⟩ |
    ⟨hread, -, phase, closed, bytes, rfl, hw⟩
  · simp only [observe, hread] at he
    subst he
    cases result with
    | pending => simp [read, Poll.bytes]
    | ready result =>
      cases result with
      | error => simp [read, Poll.bytes]
      | ok bytes => cases bytes <;> simp [read, Poll.bytes]
  · have hdata := hw.data_eq
    by_cases hact : ∃ buf room, act = .pollWrite buf room
    · obtain ⟨buf, room, rfl⟩ := hact
      obtain ⟨hacc, hframes⟩ := pollWrite_step h
      have hbytes : frames.flatMap Frame.data = buf.take
          (self.stream.pollWrite state config buf (answer channelOpen room)).1.count :=
        hdata.trans (List.append_cancel_left hacc)
      have hpsh : frames.any (·.cmd = .fin) = false :=
        List.any_eq_false.mpr fun frame hf => by simp [hframes frame hf]
      subst he
      simp only [observe]
      rw [hbytes, hpsh]
      cases (self.stream.pollWrite state config buf (answer channelOpen room)).1 with
      | pending => simp [wrote, Poll.count]
      | ready result =>
        cases result <;> simp [wrote, Poll.count]
    · have hnone : bytes = [] := by
        have hacc := step_accepted (fun buf room ha => hact ⟨buf, room, ha⟩) h
        exact List.append_right_eq_self.mp hacc
      have hobs : event = if frames.any (·.cmd = .fin) then some .finished else none := by
        subst he
        cases act with
        | pollRead n => exact absurd rfl (hread n)
        | pollWrite buf room => exact absurd ⟨buf, room, rfl⟩ hact
        | _ => simp only [observe, h]
      rw [hdata, hnone, hobs]
      split
      · rename_i hany
        exact ⟨rfl, (List.append_nil _).symm, hany⟩
      · rename_i hany
        exact ⟨rfl, (List.append_nil _).symm, Bool.eq_false_iff.mpr hany⟩

theorem observe_seen {event : Pipe.Event UInt8}
    (he : self.observe config state channelOpen act = some event) : Seen self state act event := by
  cases act with
  | pollRead n =>
    simp only [observe] at he
    split at he <;> cases he
    · exact .eof ‹_›
    · rename_i hne _
      exact .read fun hnil => hne (by simp_all)
  | pollWrite buf room =>
    simp only [observe] at he
    split at he <;> cases he
    rename_i hres
    refine .wrote ?_
    unfold Stream.pollWrite at hres
    repeat' split at hres
    all_goals cases hres
    all_goals exact Bool.eq_false_iff.mpr ‹_›
  | _ =>
    simp only [observe] at he
    repeat' split at he
    all_goals cases he
    exact .finished

end

end Handle

namespace Session

def observe (self : Session) : Act → Option (UInt32 × Pipe.Event UInt8)
  | .call k act => do
    let handle ← self.handles[k]?
    let event ← handle.observe self.config self.state self.channelOpen act
    return (handle.id, event)
  | _ => none

/-- What is seen of the stream of an id. -/
def eventOf (seen : Option (UInt32 × Pipe.Event UInt8)) (streamId : UInt32) :
    Option (Pipe.Event UInt8) :=
  seen.bind fun (i, event) => if i = streamId then some event else none

/-- A FIN of the id is in the frame channel, or was. -/
def isFinished (self : Session) (streamId : UInt32) : Bool :=
  self.queued.any fun frame => frame.cmd = .fin ∧ frame.streamId = streamId

/-- What a step changes of the pipes is what it shows. -/
structure Shows (u v : Session) (seen : Option (UInt32 × Pipe.Event UInt8)) : Prop where
  written : ∀ i, payloadOf i v.queued =
    payloadOf i u.queued ++ ((eventOf seen i).map Pipe.Event.written).getD []
  returned : ∀ i, v.returnedOf i =
    u.returnedOf i ++ ((eventOf seen i).map Pipe.Event.taken).getD []
  finished : ∀ i, v.isFinished i = (u.isFinished i || (eventOf seen i).any Pipe.Event.finishes)

section
variable {config : Config} {side : Side} {u v w : Session} {act : Act} {frame : Frame}
  {handle handle' : Handle} {frames : List Frame}

theorem Shows.silent (hq : v.queued = u.queued) (hr : ∀ i, v.returnedOf i = u.returnedOf i) :
    Shows u v none where
  written i := by rw [hq]; exact (List.append_nil _).symm
  returned i := by rw [hr]; exact (List.append_nil _).symm
  finished i := by rw [isFinished, hq]; exact (Bool.or_false _).symm

theorem returnedOf_congr
    (h : v.handles.map (fun handle => (handle.id, handle.returned)) =
      u.handles.map fun handle => (handle.id, handle.returned)) (streamId : UInt32) :
    v.returnedOf streamId = u.returnedOf streamId := by
  have hpairs : ∀ w : Session, w.returnedOf streamId =
      ((w.handles.map fun handle => (handle.id, handle.returned)).filter
        (·.1 == streamId)).flatMap Prod.snd := by
    intro w
    rw [returnedOf, List.filter_map, List.flatMap_map]
    rfl
  rw [hpairs, hpairs, h]

theorem pairs_dropEntry (u : Session) (entry : Option StreamState) :
    (u.dropEntry entry).map (fun handle => (handle.id, handle.returned)) =
      u.handles.map fun handle => (handle.id, handle.returned) := by
  cases entry with
  | none => rfl
  | some streamState =>
    apply List.ext_getElem?
    intro k
    rw [dropEntry, List.getElem?_map, List.getElem?_map, List.getElem?_modify, Option.map_eq_map,
      Option.map_map]
    congr 1
    funext handle
    simp only [Function.comp]
    split <;> rfl

theorem returnedOf_insertStream (u : Session) (streamId i : UInt32) (phase : Phase) :
    (u.insertStream streamId phase).returnedOf i = u.returnedOf i := by
  have hnew : (u.insertStream streamId phase).returnedOf i =
      ({ u with handles := u.dropEntry (u.streams streamId) } : Session).returnedOf i := by
    simp only [returnedOf, insertStream, List.filter_append, List.flatMap_append]
    by_cases hi : (Handle.new streamId phase).id == i <;> simp [Handle.new]
  rw [hnew]
  exact returnedOf_congr (pairs_dropEntry u _) i

theorem returnedOf_removeStream (u : Session) (streamId i : UInt32) :
    (u.removeStream streamId).returnedOf i = u.returnedOf i :=
  returnedOf_congr (pairs_dropEntry u _) i

theorem filter_set_of_neg {l : List Handle} {p : Handle → Bool} (hk : l[k]? = some handle)
    (h : ¬p handle) (h' : ¬p handle') : (l.set k handle').filter p = l.filter p := by
  induction l generalizing k with
  | nil => rfl
  | cons x l ih =>
    cases k with
    | zero =>
      cases hk
      rw [List.set_cons_zero, List.filter_cons_of_neg h, List.filter_cons_of_neg h']
    | succ k => rw [List.set_cons_succ, List.filter_cons, List.filter_cons, ih hk]

theorem returnedOf_set (hu : UniqueIds u.handles) (hv : UniqueIds v.handles)
    (hk : u.handles[k]? = some handle) (hset : v.handles = u.handles.set k handle')
    (hid : handle'.id = handle.id) (hr : handle'.returned = handle.returned ++ data)
    (i : UInt32) :
    v.returnedOf i = u.returnedOf i ++ if handle.id = i then data else [] := by
  have hlt := (List.getElem?_eq_some_iff.mp hk).1
  have hm' : handle' ∈ v.handles := by
    rw [hset]
    exact List.mem_of_getElem? (List.getElem?_set_self hlt)
  by_cases hi : handle.id = i
  · subst hi
    have hafter := filter_id hv hm'
    rw [hid] at hafter
    rw [returnedOf, returnedOf, filter_id hu (List.mem_of_getElem? hk), hafter, if_pos rfl,
      List.flatMap_singleton, List.flatMap_singleton, hr]
  · rw [if_neg hi, List.append_nil, returnedOf, returnedOf, hset,
      filter_set_of_neg hk (by simpa using hi) (by simpa [hid] using hi)]

/-- The frames of a call are those of its stream. -/
theorem payloadOf_frames (hid : ∀ frame ∈ frames, frame.streamId = streamId) (i : UInt32) :
    payloadOf i frames = if streamId = i then frames.flatMap Frame.data else [] := by
  by_cases hi : streamId = i
  · subst hi
    have hall : frames.filter (·.streamId == streamId) = frames :=
      List.filter_eq_self.mpr fun frame hf => beq_iff_eq.mpr (hid frame hf)
    rw [if_pos rfl, payloadOf, hall]
  · rw [if_neg hi]
    exact payloadOf_eq_nil fun frame hf _ he => hi ((hid frame hf).symm.trans he)

theorem eventOf_self (event : Option (Pipe.Event UInt8)) (streamId i : UInt32) :
    eventOf (event.map fun event => (streamId, event)) i =
      if streamId = i then event else none := by
  cases event with
  | none => simp [eventOf]
  | some event => rfl

theorem isFinished_append (h : v.queued = u.queued ++ frames) (i : UInt32) : v.isFinished i =
    (u.isFinished i || frames.any fun frame => frame.cmd = .fin ∧ frame.streamId = i) := by
  rw [isFinished, h, List.any_append, isFinished]

theorem shows_call {state' : SessionState} {call : Handle.Act} (hu : UniqueIds u.handles)
    (hv : UniqueIds v.handles) (hk : u.handles[k]? = some handle)
    (hset : v.handles = u.handles.set k handle') (hq : v.queued = u.queued ++ frames)
    (hs : handle.step u.config u.state u.channelOpen call = some (handle', state', frames)) :
    Shows u v ((handle.observe u.config u.state u.channelOpen call).map fun event =>
      (handle.id, event)) := by
  obtain ⟨hdata, hreturned, hfin⟩ := Handle.observe_eq hs rfl
  obtain ⟨-, hframes⟩ := Handle.step_sent hs
  have hids : ∀ frame ∈ frames, frame.streamId = handle.id := fun frame hf => (hframes frame hf).1
  refine ⟨fun i => ?_, fun i => ?_, fun i => ?_⟩
  · rw [hq, payloadOf_append, payloadOf_frames hids, eventOf_self, hdata]
    split <;> rfl
  · rw [returnedOf_set hu hv hk hset (Handle.step_frame hs).2.1 hreturned, eventOf_self]
    split <;> rfl
  · rw [isFinished_append hq, eventOf_self]
    refine congrArg (u.isFinished i || ·) ?_
    by_cases hi : handle.id = i
    · rw [if_pos hi, ← hfin]
      rw [Bool.eq_iff_iff, List.any_eq_true, List.any_eq_true]
      exact exists_congr fun frame => and_congr_right fun hf => by simp [(hids frame hf).trans hi]
    · rw [if_neg hi]
      refine List.any_eq_false.mpr fun frame hf => ?_
      simp [hids frame hf, hi]

theorem shows_psh (hk : UniqueIds w.handles) (hk' : UniqueIds v.handles) (hpsh : Psh w frame v) :
    Shows w v none := by
  cases hpsh with
  | @delivered streamState handle _ _ hh =>
    refine .silent rfl fun i => ?_
    refine (returnedOf_set hk hk' hh rfl rfl (List.append_nil _).symm i).trans ?_
    rw [ite_self, List.append_nil]
  | gone => exact .silent rfl fun i => returnedOf_removeStream { w with state := _ } _ i
  | _ => exact .silent rfl fun _ => rfl

theorem observe_ok {event : Pipe.Event UInt8} (ho : u.observe act = some (streamId, event)) :
    ∃ k call handle, act = .call k call ∧ u.handles[k]? = some handle ∧ streamId = handle.id ∧
      handle.observe u.config u.state u.channelOpen call = some event := by
  cases act with
  | call k call =>
    simp only [observe] at ho
    obtain ⟨handle, hk, ho⟩ := Option.bind_eq_some_iff.mp ho
    obtain ⟨e, he, ho⟩ := Option.bind_eq_some_iff.mp ho
    cases ho
    exact ⟨k, call, handle, rfl, hk, rfl, he⟩
  | _ => cases ho

theorem shows_step (hu : UniqueIds u.handles) (hv : UniqueIds v.handles)
    (hs : u.step act = some v) : Shows u v (u.observe act) := by
  cases step_ok hs with
  | @called _ k _ _ handle _ _ _ hcall hk hcalled =>
    cases hcall with
    | call =>
      simp only [observe, hk, Option.bind_eq_bind, Option.bind_some]
      have hshows := shows_call hu hv hk rfl rfl hcalled
      cases hobs : handle.observe u.config u.state u.channelOpen _ <;> rw [hobs] at hshows <;>
        exact hshows
    | accept =>
      have hshows := shows_call hu hv hk rfl rfl hcalled
      have hnone : handle.observe u.config u.state u.channelOpen .acceptReturned = none := by
        simp only [Handle.observe, hcalled]
        simp only [Handle.step] at hcalled
        split at hcalled <;> cases hcalled
        rfl
      rw [hnone] at hshows
      exact hshows
  | register => exact .silent rfl fun i => returnedOf_insertStream u _ i _
  | syn => exact .silent rfl fun i => returnedOf_insertStream u.received _ i _
  | fin => exact .silent rfl fun i => returnedOf_removeStream u.received _ i
  | psh hp hpsh =>
    cases hp with
    | first =>
      obtain ⟨h1, h2, h3⟩ := shows_psh (w := u.received) hu hv hpsh
      exact ⟨h1, h2, h3⟩
    | again => exact shows_psh hu hv hpsh
  | ping =>
    refine ⟨fun i => ?_, fun i => (List.append_nil _).symm, fun i => ?_⟩
    · rw [queue, payloadOf_silent rfl]
      exact (List.append_nil _).symm
    · rw [isFinished_append rfl]
      simp [observe, eventOf, Frame.newNop, Frame.new]
  | _ => exact .silent rfl fun _ => rfl

end

end Session

namespace Link

/-- The side that writes to the pipe of an event. -/
def writer (side : Side) : Pipe.Event α → Side
  | .wrote _ | .finished => side
  | .read _ | .eof => side.other

/-- A stream has a pipe in each direction, named by the side that writes. -/
def observe (link : Link) : Act → Option ((Side × UInt32) × Pipe.Event UInt8)
  | .session side call => do
    let (streamId, event) ← (link side).session.observe call
    return ((writer side event, streamId), event)
  | _ => none

/-- The pipes that a link is. -/
def pipes (link : Link) (h : link.Integrity) (i : Side × UInt32) : Pipe UInt8 where
  written := (link i.1).session.acceptedOf i.2
  read := (link i.1.other).session.returnedOf i.2
  finished := (link i.1).session.isFinished i.2
  isPrefix := by
    have hdata := h.data i.1.other i.2
    rwa [Side.other_other] at hdata

/-- What a step shows at a side. -/
def seenAt (link : Link) (act : Act) (side : Side) : Option (UInt32 × Pipe.Event UInt8) :=
  match act with
  | .session s call => if s = side then (link s).session.observe call else none
  | _ => none

section
variable {config : Config} {u v t : Link} {side : Side} {act : Act} {e : End}
  {tr : List (Link × Act)}

theorem step_shows (hu : u.Inv config) (hv : v.Inv config) (hs : u.step act = some v) (side : Side) :
    (u side).session.Shows (v side).session (u.seenAt act side) := by
  have hunique : ∀ {w : Link}, w.Inv config → ∀ s, Session.UniqueIds (w s).session.handles :=
    fun h s => (h.sound s).receives.ids.unique
  have hset : ∀ {s e seen}, v = u.set s e → (u s).session.Shows e.session seen →
      (u side).session.Shows (v side).session (if s = side then seen else none) := by
    intro s e seen hv hshows
    subst hv
    by_cases hside : s = side
    · subst hside
      rwa [set_self, if_pos rfl]
    · have hkept : u.set s e side = u side := if_neg (Ne.symm hside)
      rw [hkept, if_neg hside]
      exact .silent rfl fun _ => rfl
  have hsilent : ∀ {s e}, v = u.set s e → (u s).session.Shows e.session none →
      (u side).session.Shows (v side).session none := by
    intro s e hv hshows
    have := hset hv hshows
    rwa [ite_self] at this
  cases step_ok hs with
  | @session _ s session _ _ hcall =>
    refine hset rfl (Session.shows_step (hunique hu s) ?_ hcall)
    simpa using hunique hv s
  | @sent s _ _ session _ _ hpop =>
    refine hsilent rfl (Session.shows_step (hunique hu s) ?_ hpop)
    simpa using hunique hv s
  | sendFailed hpop hend =>
    obtain ⟨_, _, -, -, rfl⟩ := Session.sendFrame_ok hpop
    cases hend
    exact hsilent rfl (.silent rfl fun _ => rfl)
  | @read s n => cases side <;> cases s <;> exact .silent rfl fun _ => rfl
  | @next s _ _ session _ hrecv =>
    refine hsilent rfl (Session.shows_step (hunique hu s) ?_ hrecv)
    simpa using hunique hv s
  | @undecodable s _ _ session _ hclose =>
    refine hsilent rfl (Session.shows_step (hunique hu s) ?_ hclose)
    simpa using hunique hv s

/-- What a step changes of the pipes. -/
theorem step_pipes (hu : u.Inv config) (hv : v.Inv config) (hs : u.step act = some v)
    (i : Side × UInt32) :
    (v.pipes (integrity_of_inv hv) i).written = (u.pipes (integrity_of_inv hu) i).written ++
        ((Session.eventOf (u.seenAt act i.1) i.2).map Pipe.Event.written).getD [] ∧
      (v.pipes (integrity_of_inv hv) i).read = (u.pipes (integrity_of_inv hu) i).read ++
        ((Session.eventOf (u.seenAt act i.1.other) i.2).map Pipe.Event.taken).getD [] ∧
      (v.pipes (integrity_of_inv hv) i).finished =
        ((u.pipes (integrity_of_inv hu) i).finished ||
          (Session.eventOf (u.seenAt act i.1) i.2).any Pipe.Event.finishes) := by
  have hout := step_shows hu hv hs i.1
  refine ⟨?_, (step_shows hu hv hs i.1.other).returned i.2, hout.finished i.2⟩
  simp only [pipes, (hu.sound i.1).acceptedOf_eq, (hv.sound i.1).acceptedOf_eq]
  exact hout.written i.2

theorem eventOf_seenAt {call : Session.Act} {streamId : UInt32} {event : Pipe.Event UInt8}
    (ho : (u side).session.observe call = some (streamId, event)) (s : Side) (i : UInt32) :
    Session.eventOf (u.seenAt (.session side call) s) i =
      if (s, i) = (side, streamId) then some event else none := by
  by_cases hside : side = s
  · subst hside
    simp only [seenAt, if_true, ho, Session.eventOf, Option.bind_some, Prod.mk.injEq, true_and]
    exact if_congr eq_comm rfl rfl
  · have hne : ¬(s, i) = (side, streamId) := fun he => hside (congrArg Prod.fst he).symm
    rw [if_neg hne, seenAt, if_neg hside]
    rfl

theorem observe_ok {i : Side × UInt32} {event : Pipe.Event UInt8}
    (ho : u.observe act = some (i, event)) : ∃ side call streamId, act = .session side call ∧
      (u side).session.observe call = some (streamId, event) ∧
      i = (writer side event, streamId) := by
  cases act with
  | session side call =>
    simp only [observe] at ho
    obtain ⟨⟨streamId, e⟩, hobs, he⟩ := Option.bind_eq_some_iff.mp ho
    cases he
    exact ⟨side, call, streamId, rfl, hobs, rfl⟩
  | _ => cases ho

theorem writer_cases (side : Side) (event : Pipe.Event α) :
    writer side event = side ∧ event.taken = [] ∨
      writer side event = side.other ∧ event.written = [] ∧ event.finishes = false := by
  cases event
  · exact .inl ⟨rfl, rfl⟩
  · exact .inl ⟨rfl, rfl⟩
  · exact .inr ⟨rfl, rfl, rfl⟩
  · exact .inr ⟨rfl, rfl, rfl⟩

/-- An event changes its pipe, and no other. -/
theorem pipes_eq (hu : u.Inv config) (hv : v.Inv config) (hs : u.step act = some v)
    {i : Side × UInt32} {event : Pipe.Event UInt8} (ho : u.observe act = some (i, event))
    (j : Side × UInt32) :
    (v.pipes (integrity_of_inv hv) j).written =
        (u.pipes (integrity_of_inv hu) j).written ++ (if j = i then event.written else []) ∧
      (v.pipes (integrity_of_inv hv) j).read =
        (u.pipes (integrity_of_inv hu) j).read ++ (if j = i then event.taken else []) ∧
      (v.pipes (integrity_of_inv hv) j).finished =
        ((u.pipes (integrity_of_inv hu) j).finished || (j = i && event.finishes)) := by
  obtain ⟨side, call, streamId, rfl, hobs, rfl⟩ := observe_ok ho
  obtain ⟨hwritten, hread, hfinished⟩ := step_pipes hu hv hs j
  obtain ⟨s, k⟩ := j
  rw [eventOf_seenAt hobs] at hwritten hread hfinished
  have hother : (s.other, k) = (side, streamId) ↔ (s, k) = (side.other, streamId) := by
    rw [Prod.mk.injEq, Prod.mk.injEq]
    refine and_congr_left' ?_
    cases s <;> cases side <;> simp [Side.other]
  refine ⟨hwritten.trans (congrArg _ ?_), hread.trans (congrArg _ ?_),
    hfinished.trans (congrArg _ ?_)⟩
  · rcases writer_cases side event with ⟨hw, -⟩ | ⟨hw, hnone, -⟩
    · rw [hw]
      split <;> rfl
    · rw [hnone, ite_self]
      split
      · exact hnone
      · rfl
  · rcases writer_cases side event with ⟨hw, hnone⟩ | ⟨hw, -⟩
    · rw [hnone, ite_self]
      split
      · exact hnone
      · rfl
    · rw [hw]
      simp only [hother]
      split <;> rfl
  · rcases writer_cases side event with ⟨hw, -⟩ | ⟨hw, -, hnone⟩
    · rw [hw]
      split <;> simp_all
    · rw [hnone, Bool.and_false]
      split
      · exact hnone
      · rfl

theorem pipes_step (hu : u.Inv config) (hv : v.Inv config) (hs : u.step act = some v)
    {i : Side × UInt32} {event : Pipe.Event UInt8} (ho : u.observe act = some (i, event))
    (hallowed : (u.pipes (integrity_of_inv hu) i).Allows event) :
    Each Pipe.Step (u.pipes (integrity_of_inv hu)) (i, event) (v.pipes (integrity_of_inv hv)) := by
  have hpipes := pipes_eq hu hv hs ho
  refine ⟨?_, fun j hj => ?_⟩
  · obtain ⟨hwritten, hread, hfinished⟩ := hpipes i
    rw [if_pos rfl] at hwritten hread
    exact ⟨hallowed, hwritten, hread, by simpa using hfinished⟩
  · obtain ⟨hwritten, hread, hfinished⟩ := hpipes j
    rw [if_neg hj, List.append_nil] at hwritten hread
    exact Pipe.ext hwritten hread (by simpa [hj] using hfinished)

theorem isFinished_eq_false {session : Session} {handle : Handle}
    (h : session.Sound config side) (hm : handle ∈ session.handles)
    (hw : handle.stream.isWriteClosed = false) : session.isFinished handle.id = false := by
  refine List.any_eq_false.mpr fun fin hf hfin => ?_
  obtain ⟨hc, hid⟩ := of_decide_eq_true hfin
  obtain ⟨other, hother, he, hsent⟩ := h.fin_sent hf hc
  obtain ⟨j, hj⟩ := List.mem_iff_getElem?.mp hother
  obtain ⟨k, hk⟩ := List.mem_iff_getElem?.mp hm
  cases h.receives.ids.unique hj hk (he.trans hid)
  cases hj.symm.trans hk
  obtain ⟨syn, pshs, fins, hs⟩ := h.sent.shape handle hm
  obtain rfl := hs.fin_of_writeOpen hw
  rw [hs.sent, List.append_nil] at hsent
  rcases List.mem_append.mp hsent with hsyn | hpsh
  · rcases hs.isSyn with rfl | rfl
    · cases hsyn
    · cases congrArg Frame.cmd (List.mem_singleton.mp hsyn)
  · obtain ⟨data, hdata⟩ := hs.isPsh _ hpsh
    cases hdata

/-- A FIN is queued once. -/
theorem isFinished_before {session session' : Session} {handle handle' : Handle} {call : Handle.Act}
    (h : session'.Sound config side) (hq : session'.queued = session.queued ++ frames)
    (hs : handle.step config' state channelOpen call = some (handle', state', frames))
    (ho : handle.observe config' state channelOpen call = some .finished) :
    session.isFinished handle.id = false := by
  obtain ⟨-, -, hany⟩ := Handle.observe_eq hs ho
  obtain ⟨fin, hf, hc⟩ := List.any_eq_true.mp hany
  have hfollows := h.sent.follows h.receives.ids.ne_zero
  rw [hq] at hfollows
  refine List.any_eq_false.mpr fun earlier he hearlier => ?_
  obtain ⟨hcmd, hid⟩ := of_decide_eq_true hearlier
  exact ((List.pairwise_append.mp hfollows).2.2 earlier he fin hf).fin hcmd
    (hid.trans ((Handle.step_sent hs).2 fin hf).1.symm)

/-- Every event is one that its pipe allows. -/
theorem observe_allowed (hu : u.Inv config) (hv : v.Inv config) (hroom : act.hasRoom)
    (hs : u.step act = some v) {i : Side × UInt32} {event : Pipe.Event UInt8}
    (ho : u.observe act = some (i, event)) : (u.pipes (integrity_of_inv hu) i).Allows event := by
  obtain ⟨side, call, streamId, rfl, hobs, rfl⟩ := observe_ok ho
  obtain ⟨k, call, handle, rfl, hk, rfl, hseen⟩ := Session.observe_ok hobs
  have hm := List.mem_of_getElem? hk
  have hsound := hu.sound side
  cases step_ok hs with
  | @session _ _ session _ _ hcall =>
  obtain ⟨_, handle', state', sent, hk', hcalled, -, rfl⟩ := Session.call_ok hcall
  cases hk.symm.trans hk'
  cases Handle.observe_seen hseen with
  | wrote hw => exact isFinished_eq_false hsound hm hw
  | finished =>
    have hv := hv.sound side
    rw [set_self] at hv
    exact isFinished_before hv rfl hcalled hseen
  | read hne => exact hne
  | @eof n hres =>
    have hheld : handle.phase = .held := by
      simp only [Handle.step] at hcalled
      split at hcalled
      · assumption
      · cases hcalled
    have hn : n ≠ 0 := of_decide_eq_true hroom
    obtain ⟨peer, hpeer, hid, hfin, heq⟩ :=
      (integrity_of_inv hu).eof side handle hm hheld n hn hres
    have hother := hu.sound side.other
    have hqueued : Frame.newFin 1 handle.id ∈ (u side.other).session.queued := by
      rw [hother.sent.sent peer hpeer] at hfin
      exact (List.mem_filter.mp hfin).1
    refine ⟨List.any_eq_true.mpr ⟨_, hqueued, by simp [Frame.newFin, Frame.new]⟩, ?_⟩
    have hread := Session.filter_id hsound.receives.ids.unique hm
    have hwritten := Session.filter_id hother.receives.ids.unique hpeer
    rw [hid] at hwritten
    simp only [pipes, writer, Side.other_other, Session.returnedOf, Session.acceptedOf, hread,
      hwritten, List.flatMap_singleton, heq]

theorem pipes_silent (hu : u.Inv config) (hv : v.Inv config) (hs : u.step act = some v)
    (ho : u.observe act = none) :
    v.pipes (integrity_of_inv hv) = u.pipes (integrity_of_inv hu) := by
  have hnone : ∀ side, u.seenAt act side = none := by
    intro side
    cases act with
    | session s call =>
      simp only [observe] at ho
      have hcall : (u s).session.observe call = none := by
        cases hc : (u s).session.observe call with
        | none => rfl
        | some => rw [hc] at ho; cases ho
      rw [seenAt, hcall, ite_self]
    | _ => rfl
  funext i
  obtain ⟨hwritten, hread, hfinished⟩ := step_pipes hu hv hs i
  rw [hnone] at hwritten hread hfinished
  exact Pipe.ext (hwritten.trans (List.append_nil _)) (hread.trans (List.append_nil _))
    (hfinished.trans (Bool.or_false _))

/-- What the pipes of a link have seen is what its applications have. -/
def Simulates (config : Config) (link : Link) (pipes : Side × UInt32 → Pipe UInt8) : Prop :=
  ∃ h : link.Inv config, pipes = link.pipes (integrity_of_inv h)

theorem simulation (hmax : config.maxFrameSize ≤ headerSize + 65535) :
    Simulation step (fun p => p.1.idsLeft p.2 ∧ p.2.hasRoom) observe (Each Pipe.Step)
      (Simulates config) where
  silent := by
    rintro u act v _ ⟨hu, rfl⟩ ⟨hids, hroom⟩ hs ho
    have hv := inv_step hmax hu hids hroom hs
    exact ⟨hv, (pipes_silent hu hv hs ho).symm⟩
  visible := by
    rintro u act v _ ⟨i, event⟩ ⟨hu, rfl⟩ ⟨hids, hroom⟩ hs ho
    have hv := inv_step hmax hu hids hroom hs
    exact ⟨_, pipes_step hu hv hs ho (observe_allowed hu hv hroom hs ho), hv, rfl⟩

theorem pipes_new (config : Config) :
    Simulates config (new config) fun _ => .empty :=
  ⟨inv_new config, rfl⟩

/-- Two sessions are pipes: what their applications see, in the order in which
they see it, is a trace of independent pipes, one for each direction of each
stream. -/
theorem refinesPipes (hmax : config.maxFrameSize ≤ headerSize + 65535)
    (hr : Run step (new config) tr t) (hids : ∀ p ∈ tr, p.1.idsLeft p.2)
    (hroom : ∀ p ∈ tr, p.2.hasRoom) :
    (∃ pipes, Trace (Each Pipe.Step) (fun _ => .empty) (shown observe tr) pipes ∧
        ∀ side streamId, (pipes (side, streamId)).written = (t side).session.acceptedOf streamId ∧
          (pipes (side, streamId)).read = (t side.other).session.returnedOf streamId) ∧
      ∀ i, Pipe.Reliable (seenOf i (shown observe tr)) := by
  have hok : ∀ p ∈ tr, p.1.idsLeft p.2 ∧ p.2.hasRoom := fun p hp => ⟨hids p hp, hroom p hp⟩
  obtain ⟨pipes, htrace, h, rfl⟩ := (simulation hmax).trace hr hok (pipes_new config)
  exact ⟨⟨_, htrace, fun _ _ => ⟨rfl, rfl⟩⟩, fun i => Pipe.reliable (htrace.member i)⟩

end

theorem refinesPipes_transfer : ∃ tr t, exec step (new .default) transfer = some (tr, t) ∧
    seenOf (Side.client, 1) (shown observe tr) =
      [.wrote [1, 2, 3], .read [1, 2], .finished, .read [3], .eof] ∧
    ∀ i, Pipe.Reliable (seenOf i (shown observe tr)) := by
  obtain ⟨tr, t, he, hr, hseen, hids, hroom⟩ := exec_sat step (new .default) transfer
    (fun tr _ => seenOf (Side.client, 1) (shown observe tr) =
        [.wrote [1, 2, 3], .read [1, 2], .finished, .read [3], .eof] ∧
      (∀ p ∈ tr, p.1.idsLeft p.2) ∧ ∀ p ∈ tr, p.2.hasRoom) (by decide +kernel)
  exact ⟨tr, t, he, hseen, (refinesPipes (by decide) hr hids hroom).2⟩

end Link

end Smux
