import Smux.Session.FailedOpen
import Smux.Session.Lane
import Smux.Session.Streams

/-!
# The streams map

Whatever a peer sends, the map has an entry for a stream exactly as long as
the stream's data channel has a sender: `senders_run`. So a stream reads its
end of file when its entry goes, and an entry goes for three reasons only: a
FIN of its id, a PSH that finds the stream dropped, and another stream of the
same id. Neither dropping the stream nor closing the session is one of them:
`entry_stays`.
-/

namespace Smux.Session

open Runs

structure Senders (session : Session) : Prop where
  routed : session.Routed
  connected : ∀ {k handle}, session.handles[k]? = some handle →
    handle.stream.dataRx.connected = session.listed k

/-- A frame of the stream that may take its entry out of the map. -/
def Frees (streamId : UInt32) (frame : Frame) : Prop :=
  frame.streamId = streamId ∧ (frame.cmd = .fin ∨ frame.cmd = .psh)

section
variable {config : Config} {isClient : Bool} {u v w t : Session} {act : Act} {frame : Frame}
  {handle handle' final : Handle} {streamId : UInt32} {streamState : StreamState}
  {before tr : List (Session × Act)}

theorem senders_new (config : Config) (isClient : Bool) : (new config isClient).Senders :=
  ⟨routed_new config isClient, by rintro _ _ ⟨⟩⟩

theorem listed_eq (hk : u.handles[k]? = some handle) :
    u.listed k = (u.streams handle.id).any (·.dataTx == k) := by
  rw [listed, idAt, hk]
  rfl

/-- What is left of the senders when an entry is dropped. -/
theorem Senders.dropEntry (h : u.Senders) (hk : (u.dropEntry (u.streams streamId))[k]? = some handle) :
    handle.stream.dataRx.connected =
      (u.streams handle.id).any (fun entry => entry.dataTx == k && handle.id ≠ streamId) := by
  have hk : (u.removeStream streamId).handles[k]? = some handle := hk
  rw [getElem_removeStream] at hk
  obtain ⟨before, hb, rfl⟩ := Option.map_eq_some_iff.mp hk
  have hconn := (h.connected hb).trans (listed_eq hb)
  split
  · rename_i hentry
    -- the entry leads to a stream of its id
    obtain ⟨entry, hs, hdata⟩ := (Option.any_eq_true _ _).mp hentry
    have hid := h.routed _ _ hs
    rw [beq_iff_eq.mp hdata, idAt, hb] at hid
    have hid : before.disconnect.id = streamId := Option.some.inj hid
    have hdis : before.disconnect.stream.dataRx.connected = false := rfl
    rw [hdis, hid]
    simp
  · rename_i hentry
    rw [hconn]
    by_cases hid : before.id = streamId
    · subst hid
      simpa using hentry
    · simp [hid]

theorem Senders.remove (h : u.Senders) (streamId : UInt32) (hstreams : v.streams =
      (u.removeStream streamId).streams) (hhandles : v.handles = (u.removeStream streamId).handles)
    (hk : v.handles[k]? = some handle) : handle.stream.dataRx.connected = v.listed k := by
  rw [listed_eq hk, hstreams]
  rw [hhandles] at hk
  rw [h.dropEntry hk, removeStream]
  by_cases hid : handle.id = streamId
  · simp [hid]
  · simp [hid]

theorem Senders.insert (h : u.Senders) (streamId : UInt32) (phase : Phase) (hstreams : v.streams =
      (u.insertStream streamId phase).streams)
    (hhandles : v.handles = (u.insertStream streamId phase).handles)
    (hk : v.handles[k]? = some handle) : handle.stream.dataRx.connected = v.listed k := by
  rw [listed_eq hk, hstreams]
  rw [hhandles] at hk
  simp only [insertStream, List.getElem?_append, length_dropEntry] at hk ⊢
  split at hk
  · rename_i hlt
    rw [h.dropEntry hk]
    by_cases hid : handle.id = streamId
    · have hne : u.handles.length ≠ k := Nat.ne_of_gt hlt
      simp [hid, hne]
    · simp [hid]
  · rename_i hge
    rw [List.getElem?_singleton] at hk
    split at hk <;> cases hk
    have hlen : u.handles.length = k := by omega
    simp [Handle.new, Handle.id, Stream.new, Channel.unbounded, hlen]

theorem Senders.set (h : u.Senders) (hn : u.handles[n]? = some handle)
    (hid : handle'.id = handle.id)
    (hconn : handle'.stream.dataRx.connected = handle.stream.dataRx.connected)
    (hstreams : v.streams = u.streams) (hhandles : v.handles = u.handles.set n handle')
    (hk : v.handles[k]? = some final) : final.stream.dataRx.connected = v.listed k := by
  rw [listed_eq hk, hstreams]
  rw [hhandles] at hk
  rcases set_cases hk with ⟨rfl, rfl⟩ | ⟨-, hk⟩
  · rw [hconn, h.connected hn, listed_eq hn, hid]
  · rw [h.connected hk, listed_eq hk]

theorem senders_psh (h : w.Senders) (hpsh : Psh w frame v) (hk : v.handles[k]? = some handle) :
    handle.stream.dataRx.connected = v.listed k := by
  cases hpsh with
  | @delivered streamState receiver _ _ hh =>
    have hid : (receiver.deliver frame.data).id = receiver.id := rfl
    exact h.set hh hid rfl rfl rfl hk
  | gone => exact Senders.remove (u := { w with state := _ }) ⟨h.routed, h.connected⟩ _ rfl rfl hk
  | _ => exact h.connected hk

theorem senders_step (h : u.Senders) (hs : u.step act = some v) : v.Senders := by
  refine ⟨routed_step h.routed hs, fun {k handle} hk => ?_⟩
  cases step_ok hs with
  | register => exact h.insert _ _ rfl rfl hk
  | syn => exact Senders.insert (u := u.received) ⟨h.routed, h.connected⟩ _ .incoming rfl rfl hk
  | fin => exact Senders.remove (u := u.received) ⟨h.routed, h.connected⟩ _ rfl rfl hk
  | called _ hh hcall =>
    obtain ⟨-, hid, hconn⟩ := Handle.step_frame hcall
    exact h.set hh hid hconn rfl rfl hk
  | psh hp hpsh =>
    cases hp with
    | first => exact senders_psh (w := u.received) ⟨h.routed, h.connected⟩ hpsh hk
    | again => exact senders_psh h hpsh hk
  | _ => exact h.connected hk

/-- In every state of a run, each entry of the map leads to a stream of its
id, and the streams with an entry are those whose data channel is connected. -/
theorem senders_run (hr : Run step (new config isClient) tr t) : ∀ u ∈ visited tr t, u.Senders :=
  hr.always (senders_new config isClient) senders_step

/-- What takes an entry out of the map, or puts another in its place. -/
theorem step_freed (haw : u.AwaitsPsh) (hs : u.step act = some v)
    (he : u.streams streamId = some streamState) : v.streams streamId = some streamState ∨
      act = .register streamId ∨ ∃ frame, v.handled = u.handled ++ [frame] ∧ Frees streamId frame := by
  cases step_ok hs with
  | @register i =>
    by_cases hi : streamId = i
    · exact .inr (.inl (by rw [hi]))
    · exact .inl ((if_neg hi).trans he)
  | @syn frame _ _ _ hr =>
    have hi : streamId ≠ frame.streamId := by
      rintro rfl
      exact hr (.inr (by rw [he]; exact Option.some_ne_none _))
    exact .inl ((if_neg hi).trans he)
  | @fin frame _ _ hc =>
    by_cases hi : streamId = frame.streamId
    · exact .inr (.inr ⟨frame, rfl, hi.symm, .inl hc⟩)
    · exact .inl ((if_neg hi).trans he)
  | @psh _ frame w _ hp hpsh =>
    have hpush := (hp.isPsh haw).2.1
    have hw : w.streams streamId = some streamState ∧ w.handled = u.handled := by
      cases hp <;> exact ⟨he, rfl⟩
    rw [← hw.2]
    by_cases hi : frame.streamId = streamId
    · cases hpsh with
      | waits => exact .inl hw.1
      | _ => exact .inr (.inr ⟨frame, rfl, hi, .inr hpush⟩)
    · cases hpsh with
      | gone => exact .inl ((if_neg (Ne.symm hi)).trans hw.1)
      | _ => exact .inl hw.1
  | _ => exact .inl he

theorem entry_kept (haw : u.AwaitsPsh) (hr : Run step u tr t)
    (he : u.streams streamId = some streamState) (hreg : ∀ p ∈ tr, p.2 ≠ .register streamId)
    (hno : ∀ more, t.handled = u.handled ++ more → ∀ frame ∈ more, ¬Frees streamId frame) :
    t.AwaitsPsh ∧ u.handled <+: t.handled ∧ t.streams streamId = some streamState := by
  induction hr with
  | nil => exact ⟨haw, List.prefix_rfl, he⟩
  | @snoc tr t act v _ hs ih =>
    obtain ⟨later, hlater⟩ := step_handled hs
    obtain ⟨hawt, ⟨more, hmore⟩, ht⟩ := ih (fun p hp => hreg p (List.mem_append_left _ hp))
      fun more hm frame hf => hno (more ++ later) (by rw [← hlater, hm, List.append_assoc]) frame
        (List.mem_append_left _ hf)
    refine ⟨awaitsPsh_step hawt hs, ⟨more ++ later, by rw [← hlater, ← hmore, List.append_assoc]⟩, ?_⟩
    rcases step_freed hawt hs ht with hv | rfl | ⟨frame, hv, hfrees⟩
    · exact hv
    · exact absurd rfl (hreg (t, .register streamId) (by simp))
    · refine absurd hfrees (hno (more ++ [frame]) ?_ frame (by simp))
      rw [hv, ← hmore, List.append_assoc]

/-- The entry of a stream is there until a FIN or a PSH of its id is handled,
or another stream gets its id, whatever the application does with it. -/
theorem entry_stays (hr : Run step (new config isClient) before u) (hr' : Run step u tr t)
    (he : u.streams streamId = some streamState) (hreg : ∀ p ∈ tr, p.2 ≠ .register streamId)
    (hno : ∀ more, t.handled = u.handled ++ more → ∀ frame ∈ more, ¬Frees streamId frame) :
    t.streams streamId = some streamState := by
  have haw : ∀ w ∈ visited before u, w.AwaitsPsh :=
    hr.always (by rintro _ _ _ ⟨⟩) awaitsPsh_step
  exact (entry_kept (haw u (last_visited ..)) hr' he hreg hno).2.2

end

/-- The stream of a FIN has lost its sender, a dropped stream has not. -/
theorem senders_dropped : ∃ tr t, exec step (new .default false)
      [.recv (.newSyn 1 1), .accepted, .acceptStream, .recv (.newSyn 1 3), .accepted,
        .recv (.newFin 1 3), .call 0 (.drop true), .close] = some (tr, t) ∧
    t.listed 0 = true ∧ t.listed 1 = false ∧ t.Senders := by
  obtain ⟨tr, t, he, hr, hdropped, hfinished⟩ := exec_sat step (new .default false)
    [.recv (.newSyn 1 1), .accepted, .acceptStream, .recv (.newSyn 1 3), .accepted,
      .recv (.newFin 1 3), .call 0 (.drop true), .close]
    (fun _ t => t.listed 0 = true ∧ t.listed 1 = false) (by decide)
  exact ⟨tr, t, he, hdropped, hfinished, senders_run hr t (last_visited ..)⟩

/-- Dropping the stream and closing the session leave its entry. -/
theorem entry_stays_dropped : ∃ before u tr t,
    exec step (new .default false) [.recv (.newSyn 1 1), .accepted, .acceptStream] =
      some (before, u) ∧
    exec step u [.call 0 (.drop true), .close, .recv (.newNop 1)] = some (tr, t) ∧
    t.streams 1 = some ⟨0, false⟩ := by
  obtain ⟨before, u, he, hr, hentry, hmore⟩ := exec_sat step (new .default false)
    [.recv (.newSyn 1 1), .accepted, .acceptStream]
    (fun _ u => u.streams 1 = some ⟨0, false⟩ ∧
      (exec step u [.call 0 (.drop true), .close, .recv (.newNop 1)]).any
        (fun r => decide ((∀ p ∈ r.1, p.2 ≠ .register 1) ∧
          r.2.handled = u.handled ++ [Frame.newNop 1])) = true) (by decide)
  obtain ⟨tr, t, he', hr', hreg, hhandled⟩ := exec_sat step u
    [.call 0 (.drop true), .close, .recv (.newNop 1)]
    (fun tr t => (∀ p ∈ tr, p.2 ≠ .register 1) ∧ t.handled = u.handled ++ [Frame.newNop 1]) hmore
  refine ⟨before, u, tr, t, he, he', entry_stays hr hr' hentry hreg fun more hm frame hf => ?_⟩
  rw [hhandled] at hm
  obtain rfl := List.append_cancel_left hm
  rw [List.mem_singleton.mp hf]
  rintro ⟨-, hc | hc⟩ <;> cases hc

end Smux.Session
