import Smux.Session.AcceptQueue
import Smux.Tasks

/-!
# Calls of `accept_stream`

Any number of calls at once, each a check of the closed flag and then a
`select!` between the accept queue and a close notification of its own. No
stream is returned twice: `returnedOnce`. A close may fall between the check
and the `select!`, and the call then waits for another one: `noMissedAccept_iff`
says that this is all there is to it.
-/

namespace Smux

open Runs

inductive AcceptCall
  /-- The session was not closed. -/
  | checked
  | selecting (closeNotified : Notified)
  /-- A stream, by its handle. -/
  | returned (result : Result Nat)
  /-- The future is dropped. -/
  | cancelled
  deriving DecidableEq, Repr

structure Accepting where
  session : Session
  calls : List AcceptCall

namespace Accepting

inductive Act
  | session (act : Session.Act)
  | acceptStream
  /-- The call creates its `Notified`, and waits. -/
  | select (i : Nat)
  /-- The receive from the accept queue is ready first. -/
  | received (i : Nat)
  | closeNotified (i : Nat)
  | cancel (i : Nat)
  deriving DecidableEq, Repr

def start (config : Config) (isClient : Bool) : Accepting where
  session := .new config isClient
  calls := []

def setCall (self : Accepting) (i : Nat) (call : AcceptCall) : Accepting :=
  { self with calls := self.calls.set i call }

/-- The receive cannot fail: the session owns a sender of the accept queue. -/
def step (self : Accepting) : Act → Option Accepting
  | .session act =>
    if act = .acceptStream then none
    else do return { self with session := ← self.session.step act }
  | .acceptStream =>
    let call := if self.session.state.isClosed then .returned (.error .sessionClosed) else .checked
    some { self with calls := self.calls ++ [call] }
  | .select i =>
    if self.calls[i]? = some .checked then
      some (self.setCall i (.selecting self.session.state.die.notified))
    else none
  | .received i =>
    match self.calls[i]?, self.session.incoming with
    | some (.selecting _), k :: _ => do
      return { self.setCall i (.returned (.ok k)) with
        session := ← self.session.step .acceptStream }
    | _, _ => none
  | .closeNotified i =>
    match self.calls[i]? with
    | some (.selecting closeNotified) =>
      if self.session.state.die.wakes closeNotified then
        some (self.setCall i (.returned (.error .sessionClosed)))
      else none
    | _ => none
  | .cancel i =>
    match self.calls[i]? with
    | some .checked | some (.selecting _) => some (self.setCall i .cancelled)
    | _ => none

-- ---------------------------------------------------------------------------
-- Steps
-- ---------------------------------------------------------------------------

inductive Step (u : Accepting) : Act → Accepting → Prop
  | session : act ≠ .acceptStream → u.session.step act = some session' →
      Step u (.session act) { u with session := session' }
  | refused : u.session.state.closed →
      Step u .acceptStream { u with calls := u.calls ++ [.returned (.error .sessionClosed)] }
  | checked : u.session.state.closed = false →
      Step u .acceptStream { u with calls := u.calls ++ [.checked] }
  | select : u.calls[i]? = some .checked →
      Step u (.select i) (u.setCall i (.selecting u.session.state.die.notified))
  | received : u.calls[i]? = some (.selecting w) → u.session.incoming = k :: waiting →
      u.session.step .acceptStream = some session' →
      Step u (.received i) { u.setCall i (.returned (.ok k)) with session := session' }
  | closeNotified : u.calls[i]? = some (.selecting w) → u.session.state.die.wakes w →
      Step u (.closeNotified i) (u.setCall i (.returned (.error .sessionClosed)))
  | cancel : u.calls[i]? = some call → call = .checked ∨ (∃ w, call = .selecting w) →
      Step u (.cancel i) (u.setCall i .cancelled)

section
variable {config : Config} {isClient : Bool} {u v t : Accepting} {act : Act} {i j k : Nat}
  {tr : List (Accepting × Act)} {call : AcceptCall}

theorem step_ok (hs : u.step act = some v) : Step u act v := by
  cases act with
  | session act =>
    obtain ⟨hne, hs⟩ := Option.ite_none_left_eq_some.mp hs
    obtain ⟨session, hsession, rfl⟩ := bind_return hs
    exact .session hne hsession
  | acceptStream =>
    cases hc : u.session.state.closed with
    | true =>
      simp only [step, SessionState.isClosed, hc, if_true] at hs
      cases hs
      exact .refused hc
    | false =>
      simp only [step, SessionState.isClosed, hc, Bool.false_eq_true, if_false] at hs
      cases hs
      exact .checked hc
  | select i =>
    obtain ⟨hcall, hs⟩ := Option.ite_none_right_eq_some.mp hs
    cases hs
    exact .select hcall
  | received i =>
    simp only [step] at hs
    split at hs
    · obtain ⟨session, hsession, rfl⟩ := bind_return hs
      exact .received ‹_› ‹_› hsession
    · cases hs
  | closeNotified i =>
    simp only [step] at hs
    split at hs
    · obtain ⟨hwakes, hs⟩ := Option.ite_none_right_eq_some.mp hs
      cases hs
      exact .closeNotified ‹_› hwakes
    · cases hs
  | cancel i =>
    simp only [step] at hs
    split at hs
    · cases hs
      exact .cancel ‹_› (.inl rfl)
    · cases hs
      exact .cancel ‹_› (.inr ⟨_, rfl⟩)
    · cases hs

/-- What a step makes of the calls: a new one at the end, or one of them
goes on. -/
theorem call_step (hs : u.step act = some v) (hc : v.calls[i]? = some call) :
    u.calls[i]? = some call ∨
      (call = .selecting u.session.state.die.notified ∧ act = .select i ∧ v.session = u.session) ∨
      (∃ k, call = .returned (.ok k) ∧ act = .received i ∧ u.session.incoming.head? = some k) ∨
      call = .checked ∨ call = .returned (.error .sessionClosed) ∨ call = .cancelled := by
  have hset {new : AcceptCall} {l} (hl : (u.setCall l new).calls[i]? = some call) :
      u.calls[i]? = some call ∨ i = l ∧ call = new := by
    by_cases hi : l = i
    · subst hi
      refine .inr ⟨rfl, ?_⟩
      rw [setCall, List.getElem?_set_self'] at hl
      obtain ⟨_, -, rfl⟩ := Option.map_eq_some_iff.mp hl
      rfl
    · exact .inl (by rwa [setCall, List.getElem?_set_ne hi] at hl)
  have happend {new : AcceptCall} (hl : (u.calls ++ [new])[i]? = some call) :
      u.calls[i]? = some call ∨ call = new := by
    rw [List.getElem?_append] at hl
    split at hl
    · exact .inl hl
    · exact .inr (List.mem_singleton.mp (List.mem_of_getElem? hl))
  cases step_ok hs with
  | session => exact .inl hc
  | refused => exact (happend hc).imp_right fun h => .inr (.inr (.inr (.inl h)))
  | checked => exact (happend hc).imp_right fun h => .inr (.inr (.inl h))
  | select => exact (hset hc).imp_right fun ⟨hi, h⟩ => .inl ⟨h, hi ▸ rfl, rfl⟩
  | received _ hin =>
    exact (hset hc).imp_right fun ⟨hi, h⟩ => .inr (.inl ⟨_, h, hi ▸ rfl, by rw [hin]; rfl⟩)
  | closeNotified => exact (hset hc).imp_right fun ⟨_, h⟩ => .inr (.inr (.inr (.inl h)))
  | cancel => exact (hset hc).imp_right fun ⟨_, h⟩ => .inr (.inr (.inr (.inr h)))

-- ---------------------------------------------------------------------------
-- Streams
-- ---------------------------------------------------------------------------

structure ReturnedOnce (accepting : Accepting) : Prop where
  queue : accepting.session.AcceptQueue
  /-- What is returned is built for a SYN, and handed out. -/
  handedOut : ∀ {i k : Nat}, accepting.calls[i]? = some (.returned (.ok k)) →
    k < accepting.session.handles.length ∧ k ∉ accepting.session.unaccepted
  once : ∀ {i j k : Nat}, accepting.calls[i]? = some (.returned (.ok k)) →
    accepting.calls[j]? = some (.returned (.ok k)) → i = j

theorem returned_step (hs : u.step act = some v) (hc : v.calls[i]? = some (.returned (.ok k))) :
    u.calls[i]? = some (.returned (.ok k)) ∨
      act = .received i ∧ u.session.incoming.head? = some k := by
  rcases call_step hs hc with h | ⟨h, -⟩ | ⟨j, h, hact, hin⟩ | h | h | h
  · exact .inl h
  · cases h
  · cases h
    exact .inr ⟨hact, hin⟩
  all_goals cases h

theorem session_step (hs : u.step act = some v) :
    (∀ i, act ≠ .received i) ∧ v.session = u.session ∨
    (∃ call, act = .session call ∧ call ≠ .acceptStream ∧
      u.session.step call = some v.session) ∨
    ∃ i, act = .received i ∧ u.session.step .acceptStream = some v.session := by
  cases step_ok hs with
  | session hne hsession => exact .inr (.inl ⟨_, rfl, hne, hsession⟩)
  | received _ _ hsession => exact .inr (.inr ⟨_, rfl, hsession⟩)
  | _ => exact .inl ⟨by rintro _ ⟨⟩, rfl⟩

theorem returnedOnce_start (config : Config) (isClient : Bool) :
    (start config isClient).ReturnedOnce :=
  ⟨Session.acceptQueue_new config isClient, by simp [start], by simp [start]⟩

/-- What is handed out stays so, and what a call takes now was not. -/
theorem ReturnedOnce.session_step (h : u.ReturnedOnce) (hs : u.step act = some v) :
    v.session.AcceptQueue ∧
    (∀ k, k < u.session.handles.length → k ∉ u.session.unaccepted →
      k < v.session.handles.length ∧ k ∉ v.session.unaccepted) ∧
    ∀ i k, act = .received i → u.session.incoming.head? = some k →
      k ∈ u.session.unaccepted ∧ k < v.session.handles.length ∧ k ∉ v.session.unaccepted := by
  rcases Accepting.session_step hs with ⟨hno, hsame⟩ | ⟨call, rfl, hne, hsession⟩ | ⟨i, rfl, hsession⟩
  · rw [hsame]
    exact ⟨h.queue, fun k hlt hk => ⟨hlt, hk⟩, fun i _ hact => absurd hact (hno i)⟩
  · have hqueue := Session.acceptQueue_step h.queue hsession
    refine ⟨hqueue, fun k hlt hk => ⟨Nat.lt_of_lt_of_le hlt (Session.length_step hsession), ?_⟩,
      by rintro _ _ ⟨⟩⟩
    rw [hqueue.mem, Session.phaseAt_step hsession hne hlt, ← h.queue.mem]
    exact hk
  · have hqueue := Session.acceptQueue_step h.queue hsession
    obtain ⟨j, hin, htail, hj, hother⟩ := Session.accept_ok hsession
    have hlen := Session.length_step hsession
    have hun : u.session.unaccepted = j :: v.session.unaccepted := by
      rw [htail, Session.unaccepted, hin]
      rfl
    refine ⟨hqueue, fun k hlt hk => ⟨Nat.lt_of_lt_of_le hlt hlen, fun hm => hk ?_⟩, ?_⟩
    · rw [hun]
      exact List.mem_cons_of_mem _ hm
    · rintro i k - hhead
      rw [hin] at hhead
      obtain rfl := Option.some.inj hhead
      have hmem : j ∈ u.session.unaccepted := hun ▸ List.mem_cons_self
      refine ⟨hmem, Nat.lt_of_lt_of_le (Session.lt_of_phaseAt ((h.queue.mem j).mp hmem)) hlen, ?_⟩
      rw [hqueue.mem]
      exact hj

theorem returnedOnce_step (h : u.ReturnedOnce) (hs : u.step act = some v) : v.ReturnedOnce := by
  obtain ⟨hqueue, hkept, htaken⟩ := h.session_step hs
  refine ⟨hqueue, fun hc => ?_, fun hi hj => ?_⟩
  · rcases returned_step hs hc with hold | ⟨hact, hin⟩
    · obtain ⟨hlt, hk⟩ := h.handedOut hold
      exact hkept _ hlt hk
    · exact (htaken _ _ hact hin).2
  · rcases returned_step hs hi with hi | ⟨hacti, hin⟩
    · rcases returned_step hs hj with hj | ⟨hactj, hin⟩
      · exact h.once hi hj
      · exact absurd (htaken _ _ hactj hin).1 (h.handedOut hi).2
    · rcases returned_step hs hj with hj | ⟨hactj, -⟩
      · exact absurd (htaken _ _ hacti hin).1 (h.handedOut hj).2
      · exact Act.received.inj (hacti.symm.trans hactj)

/-- However many calls there are, no two return one stream, and what they
return nobody else is handed. -/
theorem returnedOnce (hr : Run step (start config isClient) tr t) :
    ∀ u ∈ visited tr t, u.ReturnedOnce :=
  hr.always (returnedOnce_start config isClient) returnedOnce_step

end

/-- Two calls wait for two streams, and the later call has the first. -/
theorem returnedOnce_two : ∃ tr t,
    exec step (start .default false) [.acceptStream, .select 0, .acceptStream,
      .session (.recv (.newSyn 1 1)), .session .accepted, .select 1, .received 1,
      .session (.recv (.newSyn 1 3)), .session .accepted, .received 0] = some (tr, t) ∧
    t.calls = [.returned (.ok 1), .returned (.ok 0)] ∧ t.ReturnedOnce := by
  obtain ⟨tr, t, he, hr, hcalls⟩ := exec_sat step (start .default false)
    [.acceptStream, .select 0, .acceptStream, .session (.recv (.newSyn 1 1)), .session .accepted,
      .select 1, .received 1, .session (.recv (.newSyn 1 3)), .session .accepted, .received 0]
    (fun _ t => t.calls = [.returned (.ok 1), .returned (.ok 0)]) (by decide)
  exact ⟨tr, t, he, hcalls, returnedOnce hr t (last_visited ..)⟩

-- ---------------------------------------------------------------------------
-- The close
-- ---------------------------------------------------------------------------

/-- A call waits on a closed session only with a notification to take. -/
def NoMissedAccept (tr : List (Accepting × Act)) (t : Accepting) : Prop :=
  ∀ u ∈ visited tr t, u.session.state.closed → ∀ (i : Nat) w, u.calls[i]? = some (.selecting w) →
    u.session.state.die.wakes w

def Act.isSelect : Act → Bool
  | .select _ => true
  | _ => false

structure Awake (accepting : Accepting) : Prop where
  since : ∀ {i : Nat} {w}, accepting.calls[i]? = some (.selecting w) →
    w.since ≤ accepting.session.state.die.calls
  wakes : accepting.session.state.closed → ∀ {i : Nat} {w}, accepting.calls[i]? = some (.selecting w) →
    accepting.session.state.die.wakes w

section
variable {config : Config} {isClient : Bool} {u v t : Accepting} {act : Act} {i : Nat}
  {tr : List (Accepting × Act)} {w : Notified}

theorem selecting_step (hs : u.step act = some v) (hc : v.calls[i]? = some (.selecting w)) :
    u.calls[i]? = some (.selecting w) ∨
      w = u.session.state.die.notified ∧ act = .select i ∧ v.session = u.session := by
  rcases call_step hs hc with h | ⟨h, hact, hsame⟩ | ⟨k, h, -⟩ | h | h | h
  · exact .inl h
  · cases h
    exact .inr ⟨rfl, hact, hsame⟩
  all_goals cases h

theorem mayClose_step (hs : u.step act = some v) :
    Tasks.MayClose u.session.state v.session.state := by
  rcases session_step hs with ⟨-, hsame⟩ | ⟨_, -, -, hsession⟩ | ⟨_, -, hsession⟩
  · rw [hsame]
    exact .rfl
  · exact Tasks.mayClose_step hsession
  · exact Tasks.mayClose_step hsession

theorem awake_start (config : Config) (isClient : Bool) : (start config isClient).Awake :=
  ⟨by simp [start], by simp [start]⟩

theorem awake_step (h : u.Awake) (hok : act.isSelect → u.session.state.closed = false)
    (hs : u.step act = some v) : v.Awake := by
  have key : ∀ {i : Nat} {w}, v.calls[i]? = some (.selecting w) →
      w.since ≤ v.session.state.die.calls ∧
        (v.session.state.closed → v.session.state.die.wakes w) := by
    intro i w hc
    rcases selecting_step hs hc with hold | ⟨rfl, rfl, hsame⟩
    · exact (mayClose_step hs).wakes (h.since hold) fun hc => h.wakes hc hold
    · rw [hsame]
      refine ⟨Nat.le_refl _, fun hc => ?_⟩
      rw [hok rfl] at hc
      cases hc
  exact ⟨fun hc => (key hc).1, fun hclosed _ _ hc => (key hc).2 hclosed⟩

/-- A close is missed by no call exactly if it comes to none between its
check of the flag and its `select!`. -/
theorem noMissedAccept_iff (hr : Run step (start config isClient) tr t) :
    NoMissedAccept tr t ↔ ∀ p ∈ tr, p.2.isSelect → p.1.session.state.closed = false := by
  constructor
  · rintro h ⟨u, act⟩ hp hsel
    obtain ⟨v, hv, hs⟩ := hr.next_visited hp
    cases step_ok hs with
    | @select i hcall =>
      refine Bool.eq_false_iff.mpr fun hc => ?_
      have hi : (u.setCall i (.selecting u.session.state.die.notified)).calls[i]? =
          some (.selecting u.session.state.die.notified) := by
        rw [setCall, List.getElem?_set_self']
        exact congrArg (Option.map _) hcall
      have hwakes := h _ hv hc i _ hi
      simp [setCall] at hwakes
    | _ => cases hsel
  · intro hok u hu hc i w hcall
    exact (hr.invariant hok (awake_start config isClient) awake_step u hu).wakes hc hcall

end

/-- The close finds two calls in their `select!`. One of them has its stream
all the same, and a call made now is refused. -/
theorem noMissedAccept_selecting : ∃ tr t,
    exec step (start .default false) [.acceptStream, .select 0, .acceptStream, .select 1,
      .acceptStream, .cancel 2, .session (.recv (.newSyn 1 1)), .session .accepted,
      .session .close, .received 1, .closeNotified 0, .acceptStream] = some (tr, t) ∧
    t.calls = [.returned (.error .sessionClosed), .returned (.ok 0), .cancelled,
      .returned (.error .sessionClosed)] ∧ NoMissedAccept tr t := by
  obtain ⟨tr, t, he, hr, hcalls, hok⟩ := exec_sat step (start .default false)
    [.acceptStream, .select 0, .acceptStream, .select 1, .acceptStream, .cancel 2,
      .session (.recv (.newSyn 1 1)), .session .accepted, .session .close, .received 1,
      .closeNotified 0, .acceptStream]
    (fun tr t => t.calls = [.returned (.error .sessionClosed), .returned (.ok 0), .cancelled,
        .returned (.error .sessionClosed)] ∧
      ∀ p ∈ tr, p.2.isSelect → p.1.session.state.closed = false) (by decide)
  exact ⟨tr, t, he, hcalls, (noMissedAccept_iff hr).mpr hok⟩

end Accepting

end Smux
