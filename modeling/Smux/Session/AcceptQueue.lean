import Smux.Session.Opening

/-!
# The accept queue

The streams that a session has built for SYNs and not handed out are those in
its accept queue, and the one `handle_syn_frame` waits to put there. Each is
there once, and there are never more than the queue holds and this one.
-/

namespace Smux

open Runs

/-- A stream that is not handed out is called by `accept_stream` only, and
none goes back. -/
theorem Handle.step_incoming {self self' : Handle} {state state' : SessionState}
    (h : self.step config state channelOpen act = some (self', state', frames)) :
    self'.phase ≠ .incoming ∧ (self.phase = .incoming ↔ act = .acceptReturned) := by
  constructor
  · rcases step_ok h with ⟨_, _, _, -, hheld, -, -, rfl⟩ | ⟨-, -, _, _, _, rfl, hw⟩
    · rw [read, hheld]
      decide
    · cases hw <;> simp [wrote]
  · constructor
    · intro hph
      cases act <;> simp [step, hph] at h ⊢
    · rintro rfl
      simp only [step] at h
      split at h
      · assumption
      · cases h

namespace Session

def phaseAt (self : Session) (k : Nat) : Option Phase := self.handles[k]?.map Handle.phase

structure AcceptQueue (session : Session) : Prop where
  mem : ∀ k, k ∈ session.unaccepted ↔ session.phaseAt k = some .incoming
  nodup : session.unaccepted.Nodup
  bound : session.incoming.length ≤ acceptBacklog

section
variable {config : Config} {isClient : Bool} {u v t : Session} {act : Act}
  {tr : List (Session × Act)} {frame : Frame} {handle handle' : Handle}

theorem acceptQueue_new (config : Config) (isClient : Bool) : (new config isClient).AcceptQueue := by
  refine ⟨fun k => ?_, List.nodup_nil, Nat.zero_le _⟩
  simp [phaseAt, unaccepted, new]

theorem lt_of_phaseAt (h : u.phaseAt k = some phase) : k < u.handles.length := by
  obtain ⟨handle, hk, -⟩ := Option.map_eq_some_iff.mp h
  exact (List.getElem?_eq_some_iff.mp hk).1

theorem phaseAt_step (hs : u.step act = some v) (hact : act ≠ .acceptStream)
    (hlt : k < u.handles.length) :
    v.phaseAt k = some .incoming ↔ u.phaseAt k = some .incoming := by
  have hk := List.getElem?_eq_getElem hlt
  obtain ⟨handle', hk', hstep⟩ := step_kept hs hk
  rw [phaseAt, phaseAt, hk, hk', Option.map_some, Option.map_some, Option.some_inj, Option.some_inj]
  cases hstep with
  | called hcall hcalled =>
    obtain ⟨hnot, hiff⟩ := Handle.step_incoming hcalled
    cases hcall with
    | call hne => exact iff_of_false hnot fun hph => hne (hiff.mp hph)
    | accept => exact absurd rfl hact
  | _ => exact Iff.rfl

theorem accept_ok (hs : u.step .acceptStream = some v) : ∃ k, u.incoming = k :: v.incoming ∧
    v.unaccepted = u.unaccepted.tail ∧ v.phaseAt k ≠ some .incoming ∧
    ∀ j, j ≠ k → v.phaseAt j = u.phaseAt j := by
  cases step_ok hs with
  | @called _ k _ waiting handle handle' state' sent hcall hk hcalled =>
    cases hcall with
    | accept hin =>
      refine ⟨k, hin, ?_, ?_, fun j hj => ?_⟩
      · simp [unaccepted, queue, hin]
      · have hlt := (List.getElem?_eq_some_iff.mp hk).1
        have hset : (u.handles.set k handle')[k]? = some handle' := List.getElem?_set_self hlt
        rw [phaseAt, queue, hset]
        exact fun he => (Handle.step_incoming hcalled).1 (Option.some.inj he)
      · have hset : (u.handles.set k handle')[j]? = u.handles[j]? := List.getElem?_set_ne hj.symm
        rw [phaseAt, queue, hset, phaseAt]
  | psh hp => cases hp

/-- The stream of a SYN is the one handle that a step makes to be accepted. -/
theorem phaseAt_new (hs : u.step act = some v) (hk : v.phaseAt k = some .incoming)
    (hge : u.handles.length ≤ k) :
    k = u.handles.length ∧ ∃ frame, act = .recv frame ∧ frame.cmd = .syn ∧ ¬u.refuses frame := by
  obtain ⟨handle', hk', hph⟩ := Option.map_eq_some_iff.mp hk
  rcases step_handle hs hk' with ⟨handle, hu, -⟩ | ⟨rfl, streamId, phase, rfl, hnew⟩
  · exact absurd (List.getElem?_eq_some_iff.mp hu).1 (Nat.not_lt.mpr hge)
  · refine ⟨rfl, ?_⟩
    cases hnew with
    | registered => cases hph
    | incoming hc hr => exact ⟨_, rfl, hc, hr⟩

theorem incoming_step (hb : u.incoming.length ≤ acceptBacklog) (hs : u.step act = some v) :
    v.incoming.length ≤ acceptBacklog := by
  cases step_ok hs with
  | called hcall =>
    cases hcall with
    | call => exact hb
    | accept hin =>
      rw [hin, List.length_cons] at hb
      exact Nat.le_of_succ_le hb
  | psh hp hpsh => cases hp <;> cases hpsh <;> exact hb
  | accepted _ hroom =>
    rw [List.length_append, List.length_singleton]
    exact hroom
  | _ => exact hb

/-- The stream that a SYN opens is not handed out. -/
theorem phaseAt_syn (hs : u.step (.recv frame) = some v) (hid : v.idAt u.handles.length = some streamId) :
    v.phaseAt u.handles.length = some .incoming := by
  obtain ⟨handle', hk, -⟩ := Option.map_eq_some_iff.mp hid
  rw [phaseAt, hk]
  rcases step_handle hs hk with ⟨handle, hu, -⟩ | ⟨-, _, _, rfl, hnew⟩
  · exact absurd (List.getElem?_eq_some_iff.mp hu).1 (Nat.lt_irrefl _)
  · cases hnew
    rfl

namespace AcceptQueue

variable (h : u.AcceptQueue)
include h

theorem lt_length (hk : k ∈ u.unaccepted) : k < u.handles.length := lt_of_phaseAt ((h.mem k).mp hk)

theorem mem_step (hs : u.step act = some v) (hact : act ≠ .acceptStream)
    (hk : k < u.handles.length) : k ∈ u.unaccepted ↔ v.phaseAt k = some .incoming :=
  (h.mem k).trans (phaseAt_step hs hact hk).symm

theorem accept (hs : u.step .acceptStream = some v) : v.AcceptQueue := by
  obtain ⟨k, hin, htail, hk, hother⟩ := accept_ok hs
  have hun : u.unaccepted = k :: v.unaccepted := by
    rw [htail, unaccepted, hin]
    rfl
  obtain ⟨hnot, hnodup⟩ := List.nodup_cons.mp (hun ▸ h.nodup)
  refine ⟨fun j => ?_, hnodup, incoming_step h.bound hs⟩
  by_cases hj : j = k
  · subst hj
    exact iff_of_false hnot hk
  · rw [hother j hj, ← h.mem j, hun, List.mem_cons]
    exact (or_iff_right hj).symm

/-- A step that adds none to the queue makes none to be accepted. -/
theorem kept (hs : u.step act = some v) (hact : act ≠ .acceptStream)
    (heq : v.unaccepted = u.unaccepted)
    (hno : ∀ frame, act = .recv frame → frame.cmd = .syn → u.refuses frame) : v.AcceptQueue := by
  refine ⟨fun k => ?_, heq ▸ h.nodup, incoming_step h.bound hs⟩
  rw [heq]
  by_cases hk : k < u.handles.length
  · exact h.mem_step hs hact hk
  · refine iff_of_false (fun hm => hk (h.lt_length hm)) fun hv => ?_
    obtain ⟨-, frame, he, hc, hr⟩ := phaseAt_new hs hv (Nat.not_lt.mp hk)
    exact hr (hno frame he hc)

theorem append (hs : u.step (.recv frame) = some v)
    (happend : v.unaccepted = u.unaccepted ++ [u.handles.length])
    (hid : v.idAt u.handles.length = some frame.streamId) : v.AcceptQueue := by
  refine ⟨fun k => ?_, ?_, incoming_step h.bound hs⟩
  · rw [happend, List.mem_append, List.mem_singleton]
    by_cases hk : k < u.handles.length
    · rw [or_iff_left (Nat.ne_of_lt hk)]
      exact h.mem_step hs (by rintro ⟨⟩) hk
    · rw [or_iff_right fun hm => hk (h.lt_length hm)]
      exact ⟨fun he => he ▸ phaseAt_syn hs hid,
        fun hv => (phaseAt_new hs hv (Nat.not_lt.mp hk)).1⟩
  · rw [happend]
    refine List.nodup_append.mpr ⟨h.nodup, by simp, fun a ha b hb => ?_⟩
    rw [List.mem_singleton.mp hb]
    exact Nat.ne_of_lt (h.lt_length ha)

end AcceptQueue

theorem acceptQueue_step (h : u.AcceptQueue) (hs : u.step act = some v) : v.AcceptQueue := by
  by_cases hact : act = .acceptStream
  · subst hact
    exact h.accept hs
  · rcases step_unaccepted hs with ⟨heq, -, hsyn⟩ | ⟨k, rfl, -⟩ | ⟨frame, rfl, hc, hframe⟩
    · refine h.kept hs hact heq ?_
      rintro frame rfl hc
      simp [synIds, Act.takes, hc] at hsyn
    · exact absurd rfl hact
    · rcases hframe with ⟨hr, heq⟩ | ⟨-, happend, hid⟩
      · refine h.kept hs hact heq fun _ he _ => ?_
        cases he
        exact hr
      · exact h.append hs happend hid

theorem AcceptQueue.length_le (h : u.AcceptQueue) : u.unaccepted.length ≤ acceptBacklog + 1 := by
  have hbound := h.bound
  rw [unaccepted, List.length_append]
  split <;> simp <;> omega

/-- Whatever waits can be received. -/
theorem AcceptQueue.accepts (h : u.AcceptQueue) :
    (u.step .acceptStream).isSome ↔ u.incoming ≠ [] := by
  constructor
  · intro hs
    obtain ⟨v, hs⟩ := Option.isSome_iff_exists.mp hs
    obtain ⟨k, hin, -⟩ := accept_ok hs
    rw [hin]
    exact List.cons_ne_nil _ _
  · intro hne
    obtain ⟨k, waiting, hin⟩ := List.exists_cons_of_ne_nil hne
    have hmem : k ∈ u.unaccepted := by
      rw [unaccepted, hin]
      exact List.mem_append_left _ List.mem_cons_self
    obtain ⟨handle, hk, hph⟩ := Option.map_eq_some_iff.mp ((h.mem k).mp hmem)
    simp [step, hin, hk, Handle.step, hph]

/-- In every state of a run, the streams not handed out are each in the accept
queue, or about to be, exactly once, and the receive of `accept_stream` is
ready when there is one in the queue. -/
theorem acceptQueue_run (hr : Run step (new config isClient) tr t) :
    ∀ u ∈ visited tr t, u.AcceptQueue ∧ u.unaccepted.length ≤ acceptBacklog + 1 ∧
      ((u.step .acceptStream).isSome ↔ u.incoming ≠ []) := by
  have hall := hr.always (acceptQueue_new config isClient) acceptQueue_step
  exact fun u hu => ⟨hall u hu, (hall u hu).length_le, (hall u hu).accepts⟩

end

/-- One stream in the queue, one on its way there, and one refused. -/
theorem acceptQueue_two : ∃ tr t, exec step (new .default false)
      [.recv (.newSyn 1 3), .accepted, .recv (.newSyn 1 2), .recv (.newSyn 1 1)] = some (tr, t) ∧
    t.unaccepted = [0, 1] ∧ t.AcceptQueue := by
  obtain ⟨tr, t, he, hr, hun⟩ := exec_sat step (new .default false)
    [.recv (.newSyn 1 3), .accepted, .recv (.newSyn 1 2), .recv (.newSyn 1 1)]
    (fun _ t => t.unaccepted = [0, 1]) (by decide)
  exact ⟨tr, t, he, hun, (acceptQueue_run hr t (last_visited ..)).1⟩

end Session

end Smux
