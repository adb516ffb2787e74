import Smux.Session.Streams

/-!
# Ids of live streams

Whatever the peer sends, a live stream should be the only one of its id. A
SYN is checked against the streams map, and the FIN of a stream removes it
from the map while the stream itself may live on. `liveIds_iff`: the ids of
live streams stay apart exactly if no SYN comes for the id of such a stream.
-/

namespace Smux

open Runs

/-- The stream exists and can still be written to. -/
def Handle.isLive (self : Handle) : Bool := self.phase ≠ .dropped ∧ self.stream.isWriteClosed = false

theorem Handle.isLive_of_step {self self' : Handle} {state state' : SessionState}
    (hs : self.step config state channelOpen act = some (self', state', frames))
    (h : self'.isLive) : self.isLive := by
  have hlive := (step_frame hs).1
  simp only [isLive, decide_eq_true_eq] at h ⊢
  refine ⟨hlive, ?_⟩
  rcases step_ok hs with ⟨_, _, _, -, -, -, hr, rfl⟩ | ⟨-, -, _, _, _, rfl, hw⟩
  · obtain ⟨⟨_, _, rfl⟩, -⟩ := Stream.pollRead_frame hr
    exact h.2
  · cases hw with
    | psh _ hopen => exact hopen
    | fin | finRefused | finPending | dropFin | dropSilent => cases h.2
    | _ => exact h.2

namespace Session

def liveWith (self : Session) (streamId : UInt32) : Bool :=
  self.handles.any fun handle => handle.isLive ∧ handle.id = streamId

/-- A SYN of the peer's for the id of a live stream finds that in the map. -/
def mapsLive (self : Session) : Act → Bool
  | .recv frame => frame.cmd = .syn → self.validatePeerStreamId frame.streamId = .ok () →
      self.liveWith frame.streamId → (self.streams frame.streamId).isSome
  | _ => true

structure LiveIds (tr : List (Session × Act)) (t : Session) : Prop where
  unique : ∀ u ∈ visited tr t, ∀ (j k : Nat) (handle handle' : Handle),
    u.handles[j]? = some handle → u.handles[k]? = some handle' → handle.isLive → handle'.isLive →
    handle.id = handle'.id → j = k
  refused : ∀ u frame, (u, .recv frame) ∈ tr → frame.cmd = .syn → u.liveWith frame.streamId →
    (u.handleSynFrame frame).1 ≠ .ok ()
  /-- A refused SYN leaves no trace. -/
  untouched : ∀ u v frame, (u, .recv frame) ∈ tr → u.step (.recv frame) = some v →
    frame.cmd = .syn → (u.handleSynFrame frame).1 ≠ .ok () →
    v.streams = u.streams ∧ v.incoming = u.incoming ∧ v.state.tokens = u.state.tokens

section
variable {config : Config} {isClient : Bool} {u v t : Session} {act : Act}
  {tr : List (Session × Act)} {frame : Frame} {streamId : UInt32}

theorem liveWith_iff : u.liveWith streamId ↔
    ∃ handle ∈ u.handles, handle.isLive ∧ handle.id = streamId := by
  simp [liveWith]

theorem recv_refused (hs : u.step (.recv frame) = some v) (hc : frame.cmd = .syn)
    (hr : u.refuses frame) : v = u.received.finish frame := by
  cases step_ok hs with
  | called hcall => cases hcall
  | ignored => rfl
  | syn _ _ _ hn => exact absurd hr hn
  | fin _ _ h => rw [hc] at h; cases h
  | psh hp =>
    cases hp with
    | first _ _ h => rw [hc] at h; cases h

theorem HandleStep.isLive (h : HandleStep u act v handle handle') (hlive : handle'.isLive) :
    handle.isLive := by
  cases h with
  | called _ hcall => exact Handle.isLive_of_step hcall hlive
  | _ => exact hlive

/-- A new stream takes an id of no live stream. -/
theorem NewHandle.dead (hnew : NewHandle u act streamId phase) (h : u.OwnIds)
    (hact : u.mapsLive act) : ∀ handle ∈ u.handles, handle.isLive → handle.id ≠ streamId := by
  intro handle hm hlive hid
  cases hnew with
  | registered hi => exact h.unregistered _ hi handle hm hid
  | @incoming frame hc hr =>
    have hmaps : (u.streams frame.streamId).isSome :=
      of_decide_eq_true hact hc (peer_of_not_refuses hr) (liveWith_iff.mpr ⟨handle, hm, hlive, hid⟩)
    exact hr (.inr (Option.isSome_iff_ne_none.mp hmaps))

/-- Live streams have distinct ids. -/
structure LiveApart (session : Session) : Prop where
  ownIds : session.OwnIds
  unique : ∀ (j k : Nat) (handle handle' : Handle), session.handles[j]? = some handle →
    session.handles[k]? = some handle' → handle.isLive → handle'.isLive →
    handle.id = handle'.id → j = k

theorem liveApart_new (config : Config) (isClient : Bool) : (new config isClient).LiveApart :=
  ⟨(ids_new config isClient).ownIds, by simp [new]⟩

theorem liveApart_step (h : u.LiveApart)
    (hok : (∀ e, idResult (u, act) ≠ some (.error e)) ∧ u.mapsLive act)
    (hs : u.step act = some v) : v.LiveApart := by
  refine ⟨ownIds_step h.ownIds hok.1 hs, fun j k handle handle' hj hk hlive hlive' hid => ?_⟩
  rcases step_handle hs hj with ⟨x, hx, hxs⟩ | ⟨hj', _, _, rfl, hnew⟩ <;>
    rcases step_handle hs hk with ⟨y, hy, hys⟩ | ⟨hk', _, _, rfl, hnew'⟩
  · rw [hxs.id_eq, hys.id_eq] at hid
    exact h.unique j k x y hx hy (hxs.isLive hlive) (hys.isLive hlive') hid
  · rw [hxs.id_eq] at hid
    exact absurd hid (hnew'.dead h.ownIds hok.2 x (List.mem_of_getElem? hx) (hxs.isLive hlive))
  · rw [hys.id_eq] at hid
    exact absurd hid.symm (hnew.dead h.ownIds hok.2 y (List.mem_of_getElem? hy) (hys.isLive hlive'))
  · rw [hj', hk']

theorem refused_iff (u : Session) (frame : Frame) :
    (frame.cmd = .syn → u.liveWith frame.streamId → (u.handleSynFrame frame).1 ≠ .ok ()) ↔
      u.mapsLive (.recv frame) := by
  simp only [mapsLive, decide_eq_true_eq, ne_eq, handleSynFrame_ok, refuses,
    Option.isSome_iff_ne_none]
  grind

/-- The ids of live streams stay apart, along a run that does not use up its
ids, exactly if every SYN for the id of a live stream finds that in the map. -/
theorem liveIds_iff (hr : Run step (new config isClient) tr t)
    (hids : ∀ p ∈ tr, ∀ e, idResult p ≠ some (.error e)) :
    LiveIds tr t ↔ ∀ p ∈ tr, p.1.mapsLive p.2 := by
  constructor
  · rintro h ⟨u, act⟩ hp
    cases act with
    | recv frame => exact (refused_iff u frame).mp (h.refused u frame hp)
    | _ => rfl
  · intro hmaps
    have hok : ∀ p ∈ tr, (∀ e, idResult (p.1, p.2) ≠ some (.error e)) ∧ p.1.mapsLive p.2 :=
      fun p hp => ⟨hids p hp, hmaps p hp⟩
    have hinv := hr.invariant hok (liveApart_new config isClient) liveApart_step
    refine ⟨fun u hu => (hinv u hu).unique, fun u frame hp => (refused_iff u frame).mpr (hmaps _ hp), ?_⟩
    intro u v frame hp hs hc href
    have hrefuses : u.refuses frame := Classical.not_not.mp fun hn => href (handleSynFrame_ok.mpr hn)
    rw [recv_refused hs hc hrefuses]
    exact ⟨rfl, rfl, rfl⟩

end

/-- After the FIN of a stream that is still written to, a second one gets its
id. -/
theorem not_liveIds_secondSyn : ∃ tr t,
    exec step (new .default false)
      [.recv (.newSyn 1 1), .accepted, .acceptStream, .recv (.newFin 1 1), .recv (.newSyn 1 1)] =
        some (tr, t) ∧ ¬LiveIds tr t := by
  obtain ⟨tr, t, he, -, hfirst, hsecond⟩ := exec_sat step (new .default false)
    [.recv (.newSyn 1 1), .accepted, .acceptStream, .recv (.newFin 1 1), .recv (.newSyn 1 1)]
    (fun _ t => t.handles[0]?.any (fun handle => handle.isLive ∧ handle.id = 1) ∧
      t.handles[1]?.any (fun handle => handle.isLive ∧ handle.id = 1)) (by decide)
  refine ⟨tr, t, he, fun h => ?_⟩
  obtain ⟨handle, hj, hlive⟩ := (Option.any_eq_true _ _).mp hfirst
  obtain ⟨handle', hk, hlive'⟩ := (Option.any_eq_true _ _).mp hsecond
  simp only [decide_eq_true_eq] at hlive hlive'
  have := h.unique t (last_visited ..) 0 1 handle handle' hj hk hlive.1 hlive'.1
    (hlive.2.trans hlive'.2.symm)
  cases this

/-- The id of a stream is used again once both directions are closed. -/
theorem liveIds_reopened : ∃ tr t,
    exec step (new .default false)
      [.recv (.newSyn 1 1), .accepted, .acceptStream, .recv (.newSyn 1 1), .recv (.newFin 1 1),
        .call 0 (.pollShutdown true), .recv (.newSyn 1 1), .accepted] = some (tr, t) ∧
      t.handles.length = 2 ∧ LiveIds tr t := by
  obtain ⟨tr, t, he, hr, hlen, hids, hmaps⟩ := exec_sat step (new .default false)
    [.recv (.newSyn 1 1), .accepted, .acceptStream, .recv (.newSyn 1 1), .recv (.newFin 1 1),
      .call 0 (.pollShutdown true), .recv (.newSyn 1 1), .accepted]
    (fun tr t => t.handles.length = 2 ∧ (∀ p ∈ tr, (idResult p).all Except.toBool) ∧
      ∀ p ∈ tr, p.1.mapsLive p.2) (by decide)
  refine ⟨tr, t, he, hlen, (liveIds_iff hr fun p hp e he => ?_).mpr hmaps⟩
  have := hids p hp
  rw [he] at this
  cases this

end Session

end Smux
