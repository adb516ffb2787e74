import Smux.Session.Laws

/-!
# A closed session

What is left to a session once it is closed: it stays closed, nobody is
notified again, no id is given out, and no byte goes in or out of a stream,
though `recv_loop` may go on delivering and `send_loop` sending for a while.
What is still queued is frames without data: the SYNs of calls that were
waiting, FINs, and NOPs.
-/

namespace Smux

open Runs

theorem Stream.pollRead_bytes (this : Stream) {state : SessionState} (hc : state.closed)
    (remaining : Nat) : (this.pollRead state remaining).1.bytes = [] := by
  simp only [pollRead, SessionState.isClosed, hc, if_true]
  split <;> rfl

theorem Handle.step_of_closed {self self' : Handle} {state state' : SessionState}
    (hc : state.closed) (h : self.step config state channelOpen act = some (self', state', frames)) :
    self'.accepted = self.accepted ∧ self'.returned = self.returned ∧
      ∀ frame ∈ frames, frame.data = [] := by
  rcases step_ok h with ⟨n, result, stream, -, -, rfl, hread, rfl⟩ |
    ⟨-, -, phase, closed, bytes, rfl, hw⟩
  · have hbytes := self.stream.pollRead_bytes hc n
    rw [hread] at hbytes
    exact ⟨rfl, (congrArg (self.returned ++ ·) hbytes).trans (List.append_nil _), by rintro _ ⟨⟩⟩
  · have hacc : self.accepted ++ bytes = self.accepted := by
      by_cases hact : ∃ buf room, act = .pollWrite buf room
      · obtain ⟨buf, room, rfl⟩ := hact
        refine (pollWrite_step h).1.trans ?_
        simp [Stream.pollWrite, SessionState.isClosed, hc, Poll.count]
      · exact step_accepted (fun buf room ha => hact ⟨buf, room, ha⟩) h
    obtain rfl := List.append_right_eq_self.mp hacc
    exact ⟨hacc, rfl, List.flatMap_eq_nil_iff.mp hw.data_eq⟩

namespace Session

/-- A history of the stream of a handle, empty where there is no handle yet. -/
def historyAt (history : Handle → Bytes) (self : Session) (k : Nat) : Bytes :=
  (self.handles[k]?.map history).getD []

/-- What closing a session fixes. -/
structure Frozen (session later : Session) : Prop where
  closed : later.state.closed
  die : later.state.die = session.state.die
  allocated : later.allocated.Sublist session.allocated
  accepted : ∀ k, later.historyAt Handle.accepted k = session.historyAt Handle.accepted k
  returned : ∀ k, later.historyAt Handle.returned k = session.historyAt Handle.returned k
  queued : ∃ more, later.queued = session.queued ++ more ∧ ∀ frame ∈ more, frame.data = []

section
variable {config : Config} {isClient : Bool} {u v w t : Session} {act : Act}
  {tr : List (Session × Act)} {frame : Frame} {handle handle' : Handle}

theorem Frozen.refl (hc : u.state.closed) : u.Frozen u :=
  ⟨hc, rfl, List.Sublist.refl _, fun _ => rfl, fun _ => rfl, [], (List.append_nil _).symm,
    by rintro _ ⟨⟩⟩

theorem Frozen.trans (h : u.Frozen v) (h' : v.Frozen w) : u.Frozen w where
  closed := h'.closed
  die := h'.die.trans h.die
  allocated := h'.allocated.trans h.allocated
  accepted k := (h'.accepted k).trans (h.accepted k)
  returned k := (h'.returned k).trans (h.returned k)
  queued := by
    obtain ⟨more, hmore, hdata⟩ := h.queued
    obtain ⟨later, hlater, hdata'⟩ := h'.queued
    refine ⟨more ++ later, by rw [hlater, hmore, List.append_assoc], fun frame hf => ?_⟩
    rcases List.mem_append.mp hf with hf | hf
    · exact hdata frame hf
    · exact hdata' frame hf

theorem historyAt_step {history : Handle → Bytes} (hs : u.step act = some v)
    (hnew : ∀ streamId phase, history (.new streamId phase) = [])
    (hkept : ∀ {handle handle'}, HandleStep u act v handle handle' →
      history handle' = history handle) (k : Nat) :
    v.historyAt history k = u.historyAt history k := by
  unfold historyAt
  cases hk : v.handles[k]? with
  | none =>
    have hlen := Nat.le_trans (length_step hs) (List.getElem?_eq_none_iff.mp hk)
    rw [List.getElem?_eq_none hlen]
  | some handle' =>
    rcases step_handle hs hk with ⟨handle, hu, hstep⟩ | ⟨rfl, streamId, phase, rfl, -⟩
    · rw [hu, Option.map_some, Option.map_some, hkept hstep]
    · rw [List.getElem?_eq_none (Nat.le_refl _)]
      exact hnew streamId phase

theorem frozen_step (hc : u.state.closed) (hs : u.step act = some v) : u.Frozen v := by
  have hstate : v.state.closed ∧ v.state.die = u.state.die := by
    rcases step_closed hs with ⟨hclosed, hdie⟩ | ⟨-, hclosed, hdie⟩
    · exact ⟨hclosed.trans hc, hdie⟩
    · refine ⟨hclosed, hdie.trans ?_⟩
      rw [SessionState.close_die, if_pos hc]
  have hsame : v.queued = u.queued →
      ∃ more, v.queued = u.queued ++ more ∧ ∀ frame ∈ more, frame.data = [] :=
    fun hq => ⟨[], by rw [hq, List.append_nil], by rintro _ ⟨⟩⟩
  have hhandle : ∀ {handle handle'}, HandleStep u act v handle handle' →
      handle'.accepted = handle.accepted ∧ handle'.returned = handle.returned := by
    intro handle handle' hstep
    cases hstep with
    | called _ hcall =>
      obtain ⟨hacc, hret, -⟩ := Handle.step_of_closed hc hcall
      exact ⟨hacc, hret⟩
    | _ => exact ⟨rfl, rfl⟩
  refine ⟨hstate.1, hstate.2, ?_,
    historyAt_step hs (fun _ _ => rfl) fun hstep => (hhandle hstep).1,
    historyAt_step hs (fun _ _ => rfl) fun hstep => (hhandle hstep).2, ?_⟩
  · cases step_ok hs with
    | opened ho => rw [hc] at ho; cases ho
    | register => exact List.erase_sublist
    | psh hp hpsh => cases hp <;> cases hpsh <;> exact List.Sublist.refl _
    | _ => exact List.Sublist.refl _
  · cases step_ok hs with
    | called _ _ hcall => exact ⟨_, rfl, (Handle.step_of_closed hc hcall).2.2⟩
    | ping => exact ⟨_, rfl, fun frame hf => by rw [List.mem_singleton.mp hf]; rfl⟩
    | psh hp hpsh => cases hp <;> cases hpsh <;> exact hsame rfl
    | _ => exact hsame rfl

/-- From the close on, whatever the tasks and the application do. -/
theorem closed_run (hc : u.state.closed) (hr : Run step u tr t) : u.Frozen t := by
  induction hr with
  | nil => exact .refl hc
  | snoc _ hs ih => exact ih.trans (frozen_step ih.closed hs)

end

/-- After the close a payload still arrives, and is neither read nor
answered, and the stream that was being opened is dropped. -/
theorem closed_run_reading : ∃ before u tr t,
    exec step (new .default false)
      [.recv (.newSyn 1 1), .accepted, .acceptStream, .recv (.newPsh 1 1 [7, 8]),
        .call 0 (.pollRead 1), .openStream, .register 2, .close] = some (before, u) ∧
    exec step u
      [.recv (.newPsh 1 1 [9]), .call 0 (.pollRead 4), .call 0 (.pollWrite [1] true), .openStream,
        .call 1 .synResumed, .call 1 (.openDropped true), .call 0 (.drop true)] = some (tr, t) ∧
    u.historyAt Handle.returned 0 = [7] ∧ u.Frozen t := by
  obtain ⟨before, u, he, -, hret, hc, hmore⟩ := exec_sat step (new .default false)
    [.recv (.newSyn 1 1), .accepted, .acceptStream, .recv (.newPsh 1 1 [7, 8]),
      .call 0 (.pollRead 1), .openStream, .register 2, .close]
    (fun _ u => u.historyAt Handle.returned 0 = [7] ∧ u.state.closed ∧ (exec step u
      [.recv (.newPsh 1 1 [9]), .call 0 (.pollRead 4), .call 0 (.pollWrite [1] true), .openStream,
        .call 1 .synResumed, .call 1 (.openDropped true), .call 0 (.drop true)]).isSome) (by decide)
  obtain ⟨⟨tr, t⟩, he'⟩ := Option.isSome_iff_exists.mp hmore
  exact ⟨before, u, tr, t, he, he', hret, closed_run hc (exec_run he')⟩

end Session

end Smux
