import Smux.Alone

/-!
# Reading reassembles the chunks

What a stream was sent is what `poll_read` returned followed by what is left
to read. One kind of call breaks this: a `poll_read` into a full buffer that
finds a current chunk and another one in the channel puts the second in the
place of the first. `reassembles_iff` says that nothing else does.

The end of the session cuts reading short: `poll_read` looks at the closed
flag before it looks at what is buffered.
-/

namespace Smux

open Runs

namespace Alone

/-- A `poll_read` into a full buffer finds nothing to put in the place of the
current chunk. -/
def KeepsChunk (alone : Alone) (act : Act) : Prop :=
  act = .call (.pollRead 0) →
    alone.handle.stream.currentChunk = none ∨ alone.handle.stream.dataRx.queue = []

instance (alone : Alone) (act : Act) : Decidable (alone.KeepsChunk act) :=
  inferInstanceAs (Decidable (_ → _))

section
variable {config : Config} {streamId : UInt32} {u v t : Alone} {act : Act}
  {tr : List (Alone × Act)}

theorem readable_step (h : u.handle.Readable) (hs : u.step config act = some v) :
    v.handle.Readable := by
  rcases step_cases hs with ⟨remaining, result, stream, state, rfl, -, hr, rfl⟩ |
    ⟨_, _, _, _, _, rfl, -, -, rfl⟩ | ⟨chunk, rfl, hne, -, -, rfl⟩ | ⟨rfl, -, rfl⟩ | ⟨-, _, rfl⟩
  · exact h.read hr
  · exact h.wrote
  · exact h.deliver hne
  · exact h.disconnect
  · exact h

theorem readable_run (hr : Run (step config) (start config streamId) tr t) :
    ∀ u ∈ visited tr t, u.handle.Readable :=
  hr.always (Handle.readable_new streamId .held) readable_step

theorem intact_step (h : u.handle.Intact) (hk : u.KeepsChunk act)
    (hs : u.step config act = some v) : v.handle.Intact := by
  rcases step_cases hs with ⟨remaining, result, stream, state, rfl, -, hr, rfl⟩ |
    ⟨_, _, _, _, _, rfl, -, -, rfl⟩ | ⟨chunk, rfl, hne, -, -, rfl⟩ | ⟨rfl, -, rfl⟩ | ⟨-, _, rfl⟩
  · exact h.read hr fun h0 => hk (by rw [h0])
  · exact h.wrote
  · exact h.deliver hne
  · exact h.disconnect
  · exact h

theorem intact_run (hr : Run (step config) (start config streamId) tr t)
    (hk : ∀ p ∈ tr, p.1.KeepsChunk p.2) : ∀ u ∈ visited tr t, u.handle.Intact :=
  hr.invariant hk (Handle.intact_new streamId .held) intact_step

/-- The read that `KeepsChunk` excludes drops the current chunk. -/
theorem keepsChunk_of_conserved (h : u.handle.Intact) (ho : u.Open)
    (hs : u.step config act = some v)
    (hv : v.handle.returned ++ v.handle.stream.unread = v.handle.delivered) : u.KeepsChunk act := by
  rintro rfl
  rcases step_cases hs with ⟨_, result, stream, state, ⟨⟩, -, hr, rfl⟩ |
    ⟨_, _, _, _, _, ⟨⟩, hcall, -⟩ | ⟨_, ⟨⟩, -⟩ | ⟨⟨⟩, -⟩ | ⟨⟨⟩, -⟩
  · have hread := Stream.read_of_eq h.chunks hr
    cases hcur : u.handle.stream.currentChunk with
    | none => exact .inl rfl
    | some chunk =>
      refine .inr ?_
      cases hread with
      | readClosed hc => rw [h.readOpen] at hc; cases hc
      | sessionClosed hc => rw [ho.state] at hc; cases hc
      | data _ hne hlen => exact absurd (List.length_eq_zero_iff.mp (Nat.le_zero.mp hlen)) hne
      | stashed _ hq =>
        have hlost := hv.trans h.conserved.symm
        simp only [Handle.read, Poll.bytes, List.append_nil, Stream.unread_withChunks] at hlost
        have hnil : chunk = [] := by
          simpa [Stream.unread, hcur, hq] using congrArg List.length (List.append_cancel_left hlost)
        exact absurd hnil (h.chunks.current chunk hcur)
      | eof _ hrx => rw [hrx]
      | pending _ hq => exact hq
  · exact absurd rfl (hcall 0)

-- ---------------------------------------------------------------------------
-- End of file
-- ---------------------------------------------------------------------------

structure Finished (alone : Alone) : Prop where
  readOpen : alone.handle.stream.isReadClosed = false
  disconnected : alone.handle.stream.dataRx = ⟨[], false⟩
  current : alone.handle.stream.currentChunk = none

theorem Finished.connected (h : u.Finished) : u.connected = false := by
  rw [Alone.connected, h.disconnected]

theorem finished_of_eof (h : u.handle.Intact) (hcap : remaining ≠ 0)
    (hres : u.readResult remaining = .ready (.ok [])) :
    u.Finished ∧ u.handle.returned = u.handle.delivered := by
  obtain ⟨_, _, hread⟩ := Stream.read_of_result h.chunks hres
  rcases hread.eof_of_ready hcap with hc | ⟨hun, hrx⟩
  · rw [h.readOpen] at hc; cases hc
  · have hcur : u.handle.stream.currentChunk = none := by
      cases hcur : u.handle.stream.currentChunk with
      | none => rfl
      | some chunk =>
        have hne := h.chunks.current chunk hcur
        simp [Stream.unread, hcur, hrx] at hun
        exact absurd hun hne
    have hcons := h.conserved
    rw [hun, List.append_nil] at hcons
    exact ⟨⟨h.readOpen, hrx, hcur⟩, hcons⟩

theorem Finished.pollRead (h : u.Finished) (ho : u.Open) (remaining : Nat) :
    u.handle.stream.pollRead u.state remaining = (.ready (.ok []), u.handle.stream, u.state) := by
  have hclosed := ho.state
  simp [Stream.pollRead, Stream.pollChannel, Channel.tryRecv, SessionState.isClosed, h.readOpen,
    h.disconnected, h.current, hclosed]

theorem finished_step (h : u.Finished) (ho : u.Open) (hs : u.step config act = some v) :
    v.Finished := by
  obtain ⟨hopen, hrx, hcur⟩ := h
  rcases step_cases hs with ⟨remaining, result, stream, state, rfl, -, hr, rfl⟩ |
    ⟨_, _, _, _, _, rfl, -, -, rfl⟩ | ⟨chunk, rfl, -, hc, -, -⟩ | ⟨rfl, hc, -⟩ | ⟨-, _, rfl⟩
  · rw [Finished.pollRead ⟨hopen, hrx, hcur⟩ ho] at hr
    cases hr
    exact ⟨hopen, hrx, hcur⟩
  · exact ⟨hopen, hrx, hcur⟩
  · simp [connected, hrx] at hc
  · simp [connected, hrx] at hc
  · exact ⟨hopen, hrx, hcur⟩

end

-- ---------------------------------------------------------------------------
-- Runs of an open session
-- ---------------------------------------------------------------------------

structure Reassembles (tr : List (Alone × Act)) (t : Alone) : Prop where
  conserved : ∀ u ∈ visited tr t,
    u.handle.returned ++ u.handle.stream.unread = u.handle.delivered
  /-- An end of file is reported once the sender is gone and everything was
  returned. -/
  eof : ∀ u remaining, (u, .call (.pollRead remaining)) ∈ tr → remaining ≠ 0 →
    u.readResult remaining = .ready (.ok []) →
    u.connected = false ∧ u.handle.returned = u.handle.delivered
  /-- After it every read is one. -/
  final : ∀ before u remaining after,
    tr = before ++ (u, .call (.pollRead remaining)) :: after → remaining ≠ 0 →
    u.readResult remaining = .ready (.ok []) →
    ∀ v m, (v, .call (.pollRead m)) ∈ after → v.readResult m = .ready (.ok [])

section
variable {config : Config} {streamId : UInt32} {t : Alone} {tr : List (Alone × Act)}

theorem reassembles_of_keepsChunk (hr : Run (step config) (start config streamId) tr t)
    (hk : ∀ p ∈ tr, p.2.keepsOpen) (hc : ∀ p ∈ tr, p.1.KeepsChunk p.2) : Reassembles tr t := by
  have hintact := intact_run hr hc
  have hopen := open_run hr hk
  refine ⟨fun u hu => (hintact u hu).conserved, ?_, ?_⟩
  · intro u remaining hu hcap hres
    obtain ⟨hfin, hret⟩ := finished_of_eof (hintact u (visited_of_mem hu)) hcap hres
    exact ⟨hfin.connected, hret⟩
  · rintro before u remaining after rfl hcap hres v m hv
    have hvis : u ∈ visited (before ++ (u, .call (.pollRead remaining)) :: after) t :=
      visited_of_mem (List.mem_append_right _ (List.mem_cons_self ..))
    obtain ⟨hfin, -⟩ := finished_of_eof (hintact u hvis) hcap hres
    obtain ⟨-, w, hs, hafter⟩ := hr.split
    have hkept : ∀ p ∈ after, p.2.keepsOpen := fun p hp => hk p (by simp [hp])
    have hlater : ∀ v ∈ visited after t, v.Finished ∧ v.Open :=
      hafter.invariant hkept
        ⟨finished_step hfin (hopen u hvis) hs, open_step (hopen u hvis) rfl hs⟩
        fun h ha hs => ⟨finished_step h.1 h.2 hs, open_step h.2 ha hs⟩
    obtain ⟨hf, ho⟩ := hlater v (visited_of_mem hv)
    rw [readResult, hf.pollRead ho]

/-- Reading reassembles the byte stream, for every pattern of chunks and
reads, exactly if no read into a full buffer meets both a current chunk and
one in the channel. -/
theorem reassembles_iff (hr : Run (step config) (start config streamId) tr t)
    (hk : ∀ p ∈ tr, p.2.keepsOpen) : Reassembles tr t ↔ ∀ p ∈ tr, p.1.KeepsChunk p.2 := by
  refine ⟨fun h p hp => ?_, reassembles_of_keepsChunk hr hk⟩
  have hvis : p.1 ∈ visited tr t := visited_of_mem hp
  obtain ⟨v, hv, hs⟩ := hr.next_visited hp
  exact keepsChunk_of_conserved ⟨readable_run hr _ hvis, h.conserved _ hvis⟩ (open_run hr hk _ hvis) hs
    (h.conserved v hv)

end

/-- Two chunks read across their border, with an empty buffer at a time when
nothing is at hand, and then the end of file. -/
def acrossChunks : List Act :=
  [.psh [1, 2], .call (.pollRead 0), .call (.pollRead 1), .psh [3], .call (.pollRead 4),
    .call (.pollRead 4), .fin, .call (.pollRead 4), .call (.pollRead 4)]

theorem reassembles_acrossChunks : ∃ tr t,
    exec (step .default) (start .default 1) acrossChunks = some (tr, t) ∧
      t.handle.returned = [1, 2, 3] ∧ Reassembles tr t := by
  obtain ⟨tr, t, he, hr, hret, hk, hc⟩ := exec_sat (step .default) (start .default 1) acrossChunks
    (fun tr t => t.handle.returned = [1, 2, 3] ∧ (∀ p ∈ tr, p.2.keepsOpen) ∧
      ∀ p ∈ tr, p.1.KeepsChunk p.2) (by decide)
  exact ⟨tr, t, he, hret, (reassembles_iff hr hk).mpr hc⟩

/-- A read into a full buffer loses the second byte. -/
theorem not_reassembles_fullBuffer : ∃ tr t,
    exec (step .default) (start .default 1)
      [.psh [1, 2], .psh [3], .call (.pollRead 1), .call (.pollRead 0)] = some (tr, t) ∧
    ¬Reassembles tr t := by
  obtain ⟨tr, t, he, -, hlost⟩ := exec_sat (step .default) (start .default 1)
    [.psh [1, 2], .psh [3], .call (.pollRead 1), .call (.pollRead 0)]
    (fun _ t => t.handle.returned ++ t.handle.stream.unread ≠ t.handle.delivered) (by decide)
  exact ⟨tr, t, he, fun h => hlost (h.conserved t (last_visited ..))⟩

-- ---------------------------------------------------------------------------
-- The end of the session
-- ---------------------------------------------------------------------------

/-- No end of file and no error before everything sent was returned. -/
def DrainsFirst (tr : List (Alone × Act)) : Prop :=
  ∀ u remaining, (u, .call (.pollRead remaining)) ∈ tr →
    (u.readResult remaining = .ready (.ok []) ∨ ∃ e, u.readResult remaining = .ready (.error e)) →
    u.handle.returned = u.handle.delivered

/-- The byte that was there when the session closed is not read any more. -/
theorem not_drainsFirst_closed : ∃ tr t,
    exec (step .default) (start .default 1) [.psh [1], .closeSession, .call (.pollRead 1)] =
      some (tr, t) ∧ ¬DrainsFirst tr := by
  obtain ⟨tr, t, he, -, ⟨u, a⟩, hu, ha, hres, hlost⟩ := exec_sat (step .default) (start .default 1)
    [.psh [1], .closeSession, .call (.pollRead 1)]
    (fun tr _ => ∃ p ∈ tr, p.2 = .call (.pollRead 1) ∧
      p.1.readResult 1 = .ready (.error sessionIsClosed) ∧
      p.1.handle.returned ≠ p.1.handle.delivered) (by decide)
  simp only at ha
  subst ha
  exact ⟨tr, t, he, fun h => hlost (h u 1 hu (.inr ⟨_, hres⟩))⟩

structure ReadsWhileOpen (tr : List (Alone × Act)) (t : Alone) : Prop where
  /-- In order, and nothing is lost, also when the session closes. -/
  conserved : ∀ u ∈ visited tr t,
    u.handle.returned ++ u.handle.stream.unread = u.handle.delivered
  /-- In an open session what is there is read, -/
  data : ∀ u remaining, (u, .call (.pollRead remaining)) ∈ tr → u.state.closed = false →
    u.handle.stream.unread ≠ [] →
    ∃ bytes, bytes ≠ [] ∧ u.readResult remaining = .ready (.ok bytes)
  /-- and an end of file is reported once everything was returned. -/
  eof : ∀ u remaining, (u, .call (.pollRead remaining)) ∈ tr →
    u.readResult remaining = .ready (.ok []) →
    u.connected = false ∧ u.handle.returned = u.handle.delivered
  /-- A read fails exactly if the session is closed when it is made. -/
  error : ∀ u remaining, (u, .call (.pollRead remaining)) ∈ tr →
    ((∃ e, u.readResult remaining = .ready (.error e)) ↔ u.state.closed)
  /-- It then takes nothing from the stream. -/
  closed : ∀ u remaining, (u, .call (.pollRead remaining)) ∈ tr → u.state.closed →
    u.handle.stream.pollRead u.state remaining =
      (.ready (.error sessionIsClosed), u.handle.stream, u.state)

section
variable {config : Config} {streamId : UInt32} {t : Alone} {tr : List (Alone × Act)}

theorem readsWhileOpen (hr : Run (step config) (start config streamId) tr t)
    (hcap : ∀ p ∈ tr, p.2 ≠ .call (.pollRead 0)) : ReadsWhileOpen tr t := by
  have hintact := intact_run hr fun p hp h => absurd h (hcap p hp)
  have hcap' : ∀ {u remaining}, (u, Act.call (.pollRead remaining)) ∈ tr → remaining ≠ 0 :=
    fun hu h0 => hcap _ hu (by rw [h0])
  refine ⟨fun u hu => (hintact u hu).conserved, ?_, ?_, ?_, ?_⟩
  · intro u remaining hu ho hun
    have h := hintact u (visited_of_mem hu)
    exact (Stream.pollRead_read h.chunks).data_of_unread h.readOpen ho (hcap' hu) hun
  · intro u remaining hu hres
    obtain ⟨hfin, hret⟩ := finished_of_eof (hintact u (visited_of_mem hu)) (hcap' hu) hres
    exact ⟨hfin.connected, hret⟩
  · intro u remaining hu
    have h := hintact u (visited_of_mem hu)
    constructor
    · rintro ⟨e, he⟩
      obtain ⟨_, _, hread⟩ := Stream.read_of_result h.chunks he
      exact hread.closed_of_error
    · intro hc
      exact ⟨_, by rw [readResult, Stream.pollRead_of_closed h.readOpen hc]⟩
  · intro u remaining hu hc
    exact Stream.pollRead_of_closed (hintact u (visited_of_mem hu)).readOpen hc remaining

end

theorem readsWhileOpen_closed : ∃ tr t,
    exec (step .default) (start .default 1)
      [.psh [1, 2], .call (.pollRead 1), .closeSession, .call (.pollRead 1)] = some (tr, t) ∧
    t.handle.returned = [1] ∧ ReadsWhileOpen tr t := by
  obtain ⟨tr, t, he, hr, hret, hcap⟩ := exec_sat (step .default) (start .default 1)
    [.psh [1, 2], .call (.pollRead 1), .closeSession, .call (.pollRead 1)]
    (fun tr t => t.handle.returned = [1] ∧ ∀ p ∈ tr, p.2 ≠ .call (.pollRead 0)) (by decide)
  exact ⟨tr, t, he, hret, readsWhileOpen hr hcap⟩

end Alone

end Smux
