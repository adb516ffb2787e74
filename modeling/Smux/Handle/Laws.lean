import Smux.Handle

/-!
# What a call on a stream can do

`pollRead_read` lists the outcomes of a `poll_read`, and the laws below it
say the same of a step of a `Handle`: what it leaves alone, how it reads, and
which frames it sends.
-/

namespace Smux

-- ---------------------------------------------------------------------------
-- Reading
-- ---------------------------------------------------------------------------

namespace Stream

/-- `handle_psh_frame` sends no empty chunk. -/
structure NonEmptyChunks (stream : Stream) : Prop where
  current : ∀ chunk, stream.currentChunk = some chunk → chunk ≠ []
  queue : ∀ chunk ∈ stream.dataRx.queue, chunk ≠ []

theorem NonEmptyChunks.queue_eq_nil {stream : Stream} (h : stream.NonEmptyChunks)
    (hun : stream.unread = []) : stream.dataRx.queue = [] := by
  have hflat := (List.append_eq_nil_iff.mp hun).2
  cases hq : stream.dataRx.queue with
  | nil => rfl
  | cons chunk chunks =>
    rw [hq, List.flatten_cons] at hflat
    exact absurd (List.append_eq_nil_iff.mp hflat).1 (h.queue chunk (by simp [hq]))

def withChunks (self : Stream) (currentChunk : Option Bytes) (queue : List Bytes) : Stream :=
  { self with currentChunk, dataRx := { self.dataRx with queue } }

section
variable (self : Stream) (currentChunk : Option Bytes) (queue : List Bytes)

@[simp] theorem unread_withChunks :
    (self.withChunks currentChunk queue).unread = currentChunk.getD [] ++ queue.flatten := rfl

theorem withChunks_self : self.withChunks self.currentChunk self.dataRx.queue = self := rfl

end

/-- Everything a `poll_read` can do to a stream without empty chunks. -/
inductive Read (this : Stream) (state : SessionState) (remaining : Nat) :
    Poll (IoResult Bytes) × Stream × SessionState → Prop
  | readClosed : this.isReadClosed → Read this state remaining (.ready (.ok []), this, state)
  | sessionClosed : state.closed →
      Read this state remaining (.ready (.error sessionIsClosed), this, state)
  | data : state.closed = false → bytes ≠ [] → bytes.length ≤ remaining →
      this.unread = bytes ++ (this.withChunks current chunks).unread →
      (this.withChunks current chunks).NonEmptyChunks →
      Read this state remaining
        (.ready (.ok bytes), this.withChunks current chunks, state.returnTokens bytes.length)
  | stashed : remaining = 0 → this.dataRx.queue = chunk :: chunks →
      Read this state remaining (.ready (.ok []), this.withChunks (some chunk) chunks, state)
  | eof : (remaining = 0 ∨ this.currentChunk = none) → this.dataRx = ⟨[], false⟩ →
      Read this state remaining (.ready (.ok []), this, state)
  | pending : (remaining = 0 ∨ this.currentChunk = none) → this.dataRx.queue = [] →
      Read this state remaining (.pending, this, state)

section
variable {this : Stream} {state : SessionState} {remaining : Nat}

/-- The front of a non-empty chunk is read, and the rest of it is kept. -/
private theorem read_chunk {chunk : Bytes} {chunks : List Bytes} {n : Nat}
    (hopen : state.closed = false) (hpos : 0 < n) (hn : n = min chunk.length remaining)
    (hread : this.unread = chunk ++ chunks.flatten) (hq : ∀ c ∈ chunks, c ≠ []) :
    Read this state remaining (.ready (.ok (chunk.take n)),
      this.withChunks (if (chunk.drop n).isEmpty then none else some (chunk.drop n)) chunks,
      state.returnTokens n) := by
  have hlen : (chunk.take n).length = n := by rw [List.length_take]; omega
  have hrest : (if (chunk.drop n).isEmpty then none else some (chunk.drop n)).getD [] =
      chunk.drop n := by
    split
    · rename_i he; exact (List.isEmpty_iff.mp he).symm
    · rfl
  have hreturn : state.returnTokens n = state.returnTokens (chunk.take n).length := by rw [hlen]
  rw [hreturn]
  refine .data hopen (List.ne_nil_of_length_pos (by omega)) (by omega) ?_ ⟨fun c hc hnil => ?_, hq⟩
  · rw [unread_withChunks, hrest, ← List.append_assoc, List.take_append_drop, hread]
  · subst hnil
    simp only [withChunks] at hc
    split at hc
    · cases hc
    · rename_i he
      exact he (by rw [Option.some.inj hc]; rfl)

theorem pollChannel_read (h : this.NonEmptyChunks) (hopen : state.closed = false)
    (hcur : remaining = 0 ∨ this.currentChunk = none) :
    Read this state remaining (this.pollChannel state remaining) := by
  unfold pollChannel Channel.tryRecv
  cases hq : this.dataRx.queue with
  | nil =>
    cases hd : this.dataRx.connected with
    | false => exact .eof hcur (by rw [← hq, ← hd])
    | true =>
      simp only [if_true]
      split
      · exact .readClosed ‹_›
      · exact .pending hcur hq
  | cons chunk chunks =>
    have hpos := List.length_pos_iff.mpr (h.queue chunk (by simp [hq]))
    dsimp only
    by_cases h0 : remaining = 0
    · rw [if_neg (by omega)]
      exact .stashed h0 hq
    · have hcn := hcur.resolve_left h0
      rw [if_pos (by omega), hcn]
      exact read_chunk hopen (by omega) rfl (by simp [unread, hcn, hq])
        fun c hc => h.queue c (by simp [hq, hc])

theorem pollRead_read (h : this.NonEmptyChunks) :
    Read this state remaining (this.pollRead state remaining) := by
  unfold pollRead SessionState.isClosed
  split
  · exact .readClosed ‹_›
  split
  · exact .sessionClosed ‹_›
  rename_i hopen
  replace hopen : state.closed = false := by simpa using hopen
  split
  · rename_i chunk hcur
    have hpos := List.length_pos_iff.mpr (h.current chunk hcur)
    by_cases h0 : remaining = 0
    · rw [if_neg (by omega)]
      exact pollChannel_read h hopen (.inl h0)
    · rw [if_pos (by omega)]
      exact read_chunk hopen (by omega) rfl (by simp [unread, hcur]) h.queue
  · exact pollChannel_read h hopen (.inr ‹_›)

end

theorem read_of_eq {this : Stream} (h : this.NonEmptyChunks)
    (hr : this.pollRead state remaining = outcome) : Read this state remaining outcome :=
  hr ▸ pollRead_read h

theorem read_of_result {this : Stream} (h : this.NonEmptyChunks)
    (hres : (this.pollRead state remaining).1 = result) :
    ∃ this' state', Read this state remaining (result, this', state') :=
  ⟨_, _, read_of_eq h (Prod.ext hres rfl)⟩

/-- The closed flag is looked at before anything buffered. -/
theorem pollRead_of_closed {this : Stream} {state : SessionState}
    (hread : this.isReadClosed = false) (hc : state.closed) (remaining : Nat) :
    this.pollRead state remaining = (.ready (.error sessionIsClosed), this, state) := by
  simp [pollRead, SessionState.isClosed, hread, hc]

/-- A stream without its write side. -/
def reader (self : Stream) : Stream := { self with isWriteClosed := false }

theorem pollChannel_reader (this : Stream) (state other : SessionState) (remaining : Nat) :
    (this.reader.pollChannel other remaining).1 = (this.pollChannel state remaining).1 ∧
      (this.reader.pollChannel other remaining).2.1 =
        (this.pollChannel state remaining).2.1.reader := by
  have hrx : this.reader.dataRx = this.dataRx := rfl
  have hread : this.reader.isReadClosed = this.isReadClosed := rfl
  unfold pollChannel
  rw [hrx, hread]
  split
  · dsimp only
    split <;> exact ⟨rfl, rfl⟩
  · exact ⟨rfl, rfl⟩
  · split <;> exact ⟨rfl, rfl⟩

/-- A read depends on nothing of the write side, and of the session's state
only on whether it is closed. -/
theorem pollRead_reader (this : Stream) {state other : SessionState}
    (hc : other.closed = state.closed) (remaining : Nat) :
    (this.reader.pollRead other remaining).1 = (this.pollRead state remaining).1 ∧
      (this.reader.pollRead other remaining).2.1 = (this.pollRead state remaining).2.1.reader := by
  have hch := this.pollChannel_reader state other remaining
  have hread : this.reader.isReadClosed = this.isReadClosed := rfl
  have hchunk : this.reader.currentChunk = this.currentChunk := rfl
  unfold pollRead SessionState.isClosed
  rw [hc, hread, hchunk]
  split
  · exact ⟨rfl, rfl⟩
  split
  · exact ⟨rfl, rfl⟩
  split
  · dsimp only
    split
    · exact ⟨rfl, rfl⟩
    · exact hch
  · exact hch

theorem pollChannel_credits (this : Stream) (state : SessionState) (remaining : Nat) :
    (this.pollChannel state remaining).2.2 = state ∧
        (this.pollChannel state remaining).1.bytes = [] ∨
      (this.pollChannel state remaining).2.2 =
        state.returnTokens (this.pollChannel state remaining).1.bytes.length := by
  unfold pollChannel
  split
  · dsimp only
    split
    · exact .inr (by rw [Poll.bytes, List.length_take_of_le (Nat.min_le_left ..)])
    · exact .inl ⟨rfl, rfl⟩
  · exact .inl ⟨rfl, rfl⟩
  · split <;> exact .inl ⟨rfl, rfl⟩

/-- A read returns a token for each byte it returns. -/
theorem pollRead_credits {this this' : Stream} {state state' : SessionState}
    (h : this.pollRead state remaining = (result, this', state')) :
    state' = state ∧ result.bytes = [] ∨ state' = state.returnTokens result.bytes.length := by
  have hread : (this.pollRead state remaining).2.2 = state ∧
      (this.pollRead state remaining).1.bytes = [] ∨
      (this.pollRead state remaining).2.2 =
        state.returnTokens (this.pollRead state remaining).1.bytes.length := by
    have hch := this.pollChannel_credits state remaining
    unfold pollRead
    split
    · exact .inl ⟨rfl, rfl⟩
    split
    · exact .inl ⟨rfl, rfl⟩
    split
    · dsimp only
      split
      · exact .inr (by rw [Poll.bytes, List.length_take_of_le (Nat.min_le_left ..)])
      · exact hch
    · exact hch
  rw [h] at hread
  exact hread

theorem pollChannel_chunks (this : Stream) (state : SessionState) (remaining : Nat) :
    ∃ current chunks,
      (this.pollChannel state remaining).2.1 = this.withChunks current chunks := by
  have hself : ∃ current chunks, this = this.withChunks current chunks :=
    ⟨_, _, this.withChunks_self.symm⟩
  unfold pollChannel Channel.tryRecv
  cases this.dataRx.queue with
  | nil =>
    cases this.dataRx.connected with
    | false => exact hself
    | true => simp only [if_true]; split <;> exact hself
  | cons chunk chunks =>
    dsimp only
    split <;> exact ⟨_, _, rfl⟩

/-- A read changes the chunks of the stream and nothing else of it, and
returns tokens at most. -/
theorem pollRead_returns {this this' : Stream} {state state' : SessionState}
    (h : this.pollRead state remaining = (result, this', state')) :
    (∃ current chunks, this' = this.withChunks current chunks) ∧
      (state' = state ∨ ∃ count, state' = state.returnTokens count) := by
  have hself : ∃ current chunks, this = this.withChunks current chunks :=
    ⟨_, _, this.withChunks_self.symm⟩
  have hread : ∃ current chunks, (this.pollRead state remaining).2.1 =
      this.withChunks current chunks := by
    have hch := this.pollChannel_chunks state remaining
    unfold pollRead
    split
    · exact hself
    split
    · exact hself
    split
    · dsimp only
      split
      · exact ⟨_, _, rfl⟩
      · exact hch
    · exact hch
  rw [h] at hread
  exact ⟨hread, (pollRead_credits h).imp And.left fun hcredit => ⟨_, hcredit⟩⟩

/-- A read does not close the session. -/
theorem pollRead_frame {this this' : Stream} {state state' : SessionState}
    (h : this.pollRead state remaining = (result, this', state')) :
    (∃ current chunks, this' = this.withChunks current chunks) ∧
      state'.closed = state.closed ∧ state'.die = state.die := by
  obtain ⟨hchunks, rfl | ⟨count, rfl⟩⟩ := pollRead_returns h
  · exact ⟨hchunks, rfl, rfl⟩
  · exact ⟨hchunks, rfl, rfl⟩

namespace Read

variable {this this' : Stream} {state state' : SessionState} {remaining : Nat}
  {result : Poll (IoResult Bytes)}

theorem nonEmptyChunks (h : Read this state remaining (result, this', state'))
    (hne : this.NonEmptyChunks) : this'.NonEmptyChunks := by
  cases h with
  | data _ _ _ _ h => exact h
  | stashed _ hq =>
    constructor
    · rintro _ ⟨⟩
      exact hne.queue _ (by simp [hq])
    · intro c hc
      exact hne.queue c (by rw [hq]; exact List.mem_cons_of_mem _ hc)
  | _ => exact hne

/-- A read loses nothing, unless it has no capacity and finds both a current
chunk and one in the channel. -/
theorem conserves (h : Read this state remaining (result, this', state'))
    (hz : remaining = 0 → this.currentChunk = none ∨ this.dataRx.queue = []) :
    this.unread = result.bytes ++ this'.unread := by
  cases h with
  | data _ _ _ h => exact h
  | stashed h0 hq =>
    have hn := (hz h0).resolve_right (by simp [hq])
    rw [unread_withChunks]
    simp [unread, hn, hq, Poll.bytes]
  | _ => rfl

theorem unread_le (h : Read this state remaining (result, this', state')) :
    this'.unread.length ≤ this.unread.length := by
  cases h with
  | data _ _ _ h => rw [h, List.length_append]; omega
  | stashed _ hq => rw [unread_withChunks]; simp [unread, hq]
  | _ => exact Nat.le_refl _

theorem returns_le (h : Read this state remaining (result, this', state')) :
    result.bytes.length + this'.unread.length ≤ this.unread.length := by
  cases h with
  | data _ _ _ h => rw [h, List.length_append]; exact Nat.le_refl _
  | stashed _ hq => rw [unread_withChunks]; simp [unread, hq, Poll.bytes]
  | _ => exact Nat.le_of_eq (Nat.zero_add _)

theorem state_eq (h : Read this state remaining (result, this', state')) :
    state' = if result.bytes = [] then state else state.returnTokens result.bytes.length := by
  cases h with
  | data _ hne => rw [Poll.bytes, if_neg hne]
  | _ => rfl

theorem of_closed (h : Read this state remaining (result, this', state')) (hc : state.closed) :
    result.bytes = [] := by
  cases h with
  | data ho => rw [hc] at ho; cases ho
  | _ => rfl

/-- A result without bytes into a buffer with capacity is an end of file. -/
theorem eof_of_ready (h : Read this state remaining (.ready (.ok []), this', state'))
    (h0 : remaining ≠ 0) :
    this.isReadClosed ∨ this.unread = [] ∧ this.dataRx = ⟨[], false⟩ := by
  cases h with
  | readClosed h => exact .inl h
  | data _ hne => exact absurd rfl hne
  | stashed h => exact absurd h h0
  | eof hcur hrx =>
    have hn := hcur.resolve_left h0
    exact .inr ⟨by simp [unread, hn, hrx], hrx⟩

theorem closed_of_error (h : Read this state remaining (.ready (.error e), this', state')) :
    state.closed := by
  cases h with
  | sessionClosed h => exact h

theorem data_of_unread (h : Read this state remaining (result, this', state'))
    (hread : this.isReadClosed = false) (ho : state.closed = false) (h0 : remaining ≠ 0)
    (hun : this.unread ≠ []) : ∃ bytes, bytes ≠ [] ∧ result = .ready (.ok bytes) := by
  cases h with
  | readClosed h => rw [hread] at h; cases h
  | sessionClosed h => rw [ho] at h; cases h
  | data _ hne => exact ⟨_, hne, rfl⟩
  | stashed h => exact absurd h h0
  | eof hcur hrx => exact absurd (by simp [unread, hcur.resolve_left h0, hrx]) hun
  | pending hcur hq => exact absurd (by simp [unread, hcur.resolve_left h0, hq]) hun

end Read

end Stream

-- ---------------------------------------------------------------------------
-- Writing
-- ---------------------------------------------------------------------------

namespace Handle

def wrote (self : Handle) (phase : Phase) (isWriteClosed : Bool) (bytes : Bytes)
    (frames : List Frame) : Handle :=
  { self with
    stream := { self.stream with isWriteClosed }, phase, sent := self.sent ++ frames,
    accepted := self.accepted ++ bytes }

def read (self : Handle) (stream : Stream) (bytes : Bytes) : Handle :=
  { self with stream, returned := self.returned ++ bytes }

/-- Everything a call other than `poll_read` can do: the phase and the
write-closed flag it leaves, the bytes it accepts and the frames it sends. -/
inductive Write (self : Handle) (config : Config) (channelOpen : Bool) :
    Act → Phase → Bool → Bytes → List Frame → Prop
  | quiet : self.phase = .held →
      Write self config channelOpen act .held self.stream.isWriteClosed [] []
  | psh : self.phase = .held → self.stream.isWriteClosed = false →
      data.length ≤ config.maxFrameSize - headerSize →
      Write self config channelOpen act .held false data [.newPsh 1 self.id data]
  | fin : self.phase = .held → self.stream.isWriteClosed = false →
      Write self config channelOpen act .held true [] [.newFin 1 self.id]
  | finRefused : self.phase = .held → self.stream.isWriteClosed = false → channelOpen = false →
      Write self config channelOpen act .held true [] []
  | finPending : self.phase = .held → self.stream.isWriteClosed = false →
      Write self config channelOpen act .closing true [] []
  | finResumed : self.phase = .closing →
      Write self config channelOpen act .held self.stream.isWriteClosed [] [.newFin 1 self.id]
  | finAbandoned : self.phase = .closing → (act = .closeDropped ∨ channelOpen = false) →
      Write self config channelOpen act .held self.stream.isWriteClosed [] []
  | syn : self.phase = .registered →
      Write self config channelOpen act .synQueued self.stream.isWriteClosed []
        [.newSyn config.version self.id]
  | handedOut : self.phase = .synQueued ∨ self.phase = .incoming →
      Write self config channelOpen act .held self.stream.isWriteClosed [] []
  | dropFin : self.phase = .held ∨ self.phase = .registered ∨ self.phase = .synQueued →
      self.stream.isWriteClosed = false →
      Write self config channelOpen act .dropped true [] [.newFin 1 self.id]
  | dropSilent : self.phase = .held ∨ self.phase = .registered ∨ self.phase = .synQueued →
      (self.stream.isWriteClosed ∨ act = .drop false ∨ act = .openDropped false ∨
        channelOpen = false) →
      Write self config channelOpen act .dropped true [] []

section
variable {self self' : Handle} {config : Config} {state state' : SessionState} {channelOpen : Bool}
  {act : Act} {frames : List Frame}

theorem answer_cases (channelOpen room : Bool) :
    answer channelOpen room = .sent ∨ (answer channelOpen room = .full ∧ room = false) ∨
      (answer channelOpen room = .disconnected ∧ channelOpen = false) := by
  cases channelOpen <;> cases room <;> simp [answer]

theorem Write.live {phase : Phase} {bytes : Bytes}
    (h : Write self config channelOpen act phase isWriteClosed bytes frames) :
    self.phase ≠ .dropped := by
  cases h with
  | handedOut h => rcases h with h | h <;> rw [h] <;> decide
  | dropFin h | dropSilent h => rcases h with h | h | h <;> rw [h] <;> decide
  | quiet h | psh h | fin h | finRefused h | finPending h | finResumed h | finAbandoned h | syn h =>
    rw [h]; decide

theorem dropStream_write {trySend : TrySend} (hd : self.dropStream trySend = (self', frames))
    (hph : self.phase = .held ∨ self.phase = .registered ∨ self.phase = .synQueued)
    (ha : trySend = .sent ∨ act = .drop false ∨ act = .openDropped false ∨ channelOpen = false) :
    ∃ phase isWriteClosed bytes, self' = self.wrote phase isWriteClosed bytes frames ∧
      Write self config channelOpen act phase isWriteClosed bytes frames := by
  unfold dropStream Stream.drop at hd
  split at hd
  · rename_i hs
    split at hs <;> cases hs <;> cases hd
    · rename_i hw
      exact ⟨_, _, [], by rw [← hw]; simp [wrote, queue], .dropSilent hph (.inl hw)⟩
    · rename_i hw
      replace hw : self.stream.isWriteClosed = false := by simpa using hw
      rcases ha with rfl | ha
      · exact ⟨_, _, [], by simp [wrote, queue], .dropFin hph hw⟩
      · cases trySend with
        | sent => exact ⟨_, _, [], by simp [wrote, queue], .dropFin hph hw⟩
        | _ => exact ⟨_, _, [], by simp [wrote, queue], .dropSilent hph (.inr ha)⟩

/-- A call left the reading half and the session's state alone. -/
def Wrote (self : Handle) (config : Config) (state : SessionState) (channelOpen : Bool) (act : Act)
    (self' : Handle) (state' : SessionState) (frames : List Frame) : Prop :=
  state' = state ∧ ∃ phase isWriteClosed bytes,
    self' = self.wrote phase isWriteClosed bytes frames ∧
      Write self config channelOpen act phase isWriteClosed bytes frames

theorem pollWrite_wrote
    (h : self.step config state channelOpen (.pollWrite buf room) = some (self', state', frames)) :
    Wrote self config state channelOpen (.pollWrite buf room) self' state' frames := by
  simp only [step] at h
  split at h
  · rename_i hph
    cases h
    refine ⟨rfl, ?_⟩
    unfold Stream.pollWrite
    repeat' split
    any_goals exact ⟨_, _, [], by simp [wrote, queue, Poll.count, hph], .quiet hph⟩
    rename_i hw _ _ _
    replace hw : self.stream.isWriteClosed = false := by simpa using hw
    exact ⟨_, false, buf.take (min buf.length (config.maxFrameSize - headerSize)),
      by rw [← hw]; simp [wrote, queue, Poll.count, hph],
      .psh hph hw (by rw [List.length_take]; omega)⟩
  · cases h

theorem pollShutdown_wrote
    (h : self.step config state channelOpen (.pollShutdown room) = some (self', state', frames)) :
    Wrote self config state channelOpen (.pollShutdown room) self' state' frames := by
  simp only [step] at h
  split at h <;> cases h
  rename_i hph
  refine ⟨rfl, ?_⟩
  unfold Stream.pollShutdown
  split
  · exact ⟨_, _, [], by simp [wrote, queue, hph], .quiet hph⟩
  · rename_i hw
    replace hw : self.stream.isWriteClosed = false := by simpa using hw
    rcases answer_cases channelOpen room with ha | ⟨ha, -⟩ | ⟨ha, ho⟩ <;> simp only [ha]
    · exact ⟨_, _, [], by simp [wrote, queue, hph], .fin hph hw⟩
    · exact ⟨_, _, [], by simp [wrote, queue, hph], .quiet hph⟩
    · exact ⟨_, _, [], by simp [wrote, queue, hph], .finRefused hph hw ho⟩

theorem close_wrote
    (h : self.step config state channelOpen (.close room) = some (self', state', frames)) :
    Wrote self config state channelOpen (.close room) self' state' frames := by
  simp only [step, Stream.close] at h
  split at h
  · rename_i hph
    by_cases hw : self.stream.isWriteClosed
    · simp only [hw, if_true, Option.some.injEq, Prod.mk.injEq] at h
      obtain ⟨rfl, rfl, rfl⟩ := h
      exact ⟨rfl, _, _, [], by simp [wrote, hph], .quiet hph⟩
    · replace hw : self.stream.isWriteClosed = false := by simpa using hw
      rcases answer_cases channelOpen room with ha | ⟨ha, -⟩ | ⟨ha, ho⟩ <;>
        simp only [hw, ha, Bool.false_eq_true, if_false, Option.some.injEq, Prod.mk.injEq] at h <;>
        obtain ⟨rfl, rfl, rfl⟩ := h
      · exact ⟨rfl, _, _, [], by simp [wrote, queue, hph], .fin hph hw⟩
      · exact ⟨rfl, _, _, [], by simp [wrote], .finPending hph hw⟩
      · exact ⟨rfl, _, _, [], by simp [wrote, hph], .finRefused hph hw ho⟩
  · cases h

theorem synResumed_wrote
    (h : self.step config state channelOpen .synResumed = some (self', state', frames)) :
    Wrote self config state channelOpen .synResumed self' state' frames := by
  simp only [step] at h
  split at h
  · rename_i hph
    cases channelOpen with
    | true =>
      cases h
      exact ⟨rfl, _, _, [], by simp [wrote, queue], .syn hph⟩
    | false =>
      cases hd : self.dropStream .disconnected with
      | mk handle frames' =>
        simp only [hd] at h
        cases h
        exact ⟨rfl, dropStream_write hd (.inr (.inl hph)) (.inr (.inr (.inr rfl)))⟩
  · cases h

/-- A call is a `poll_read`, or leaves the reading half and the session's
state alone. -/
theorem step_ok (h : self.step config state channelOpen act = some (self', state', frames)) :
    (∃ remaining result stream, act = .pollRead remaining ∧ self.phase = .held ∧ frames = [] ∧
      self.stream.pollRead state remaining = (result, stream, state') ∧
      self' = self.read stream result.bytes) ∨
    (∀ remaining, act ≠ .pollRead remaining) ∧ state' = state ∧
      ∃ phase isWriteClosed bytes, self' = self.wrote phase isWriteClosed bytes frames ∧
      Write self config channelOpen act phase isWriteClosed bytes frames := by
  cases act with
  | pollRead remaining =>
    simp only [step] at h
    split at h
    · cases h
      exact .inl ⟨_, _, _, rfl, ‹_›, rfl, rfl, rfl⟩
    · cases h
  | pollWrite => exact .inr ⟨nofun, pollWrite_wrote h⟩
  | pollShutdown => exact .inr ⟨nofun, pollShutdown_wrote h⟩
  | close => exact .inr ⟨nofun, close_wrote h⟩
  | synResumed => exact .inr ⟨nofun, synResumed_wrote h⟩
  | closeResumed =>
    simp only [step] at h
    split at h <;> cases h
    refine .inr ⟨nofun, rfl, ?_⟩
    cases channelOpen with
    | true => exact ⟨_, _, [], by simp [wrote, queue], .finResumed ‹_›⟩
    | false => exact ⟨_, _, [], by simp [wrote, queue], .finAbandoned ‹_› (.inr rfl)⟩
  | closeDropped =>
    simp only [step] at h
    split at h <;> cases h
    exact .inr ⟨nofun, rfl, _, _, [], by simp [wrote], .finAbandoned ‹_› (.inl rfl)⟩
  | drop room =>
    simp only [step] at h
    split at h <;> cases h
    refine .inr ⟨nofun, rfl, dropStream_write rfl (.inl ‹_›) ?_⟩
    rcases answer_cases channelOpen room with ha | ⟨-, rfl⟩ | ⟨-, ho⟩
    · exact .inl ha
    · exact .inr (.inl rfl)
    · exact .inr (.inr (.inr ho))
  | opened =>
    simp only [step] at h
    split at h <;> cases h
    exact .inr ⟨nofun, rfl, _, _, [], by simp [wrote], .handedOut (.inl ‹_›)⟩
  | openDropped room =>
    simp only [step] at h
    split at h <;> cases h
    refine .inr ⟨nofun, rfl, dropStream_write rfl (.inr ‹_›) ?_⟩
    rcases answer_cases channelOpen room with ha | ⟨-, rfl⟩ | ⟨-, ho⟩
    · exact .inl ha
    · exact .inr (.inr (.inl rfl))
    · exact .inr (.inr (.inr ho))
  | acceptReturned =>
    simp only [step] at h
    split at h <;> cases h
    exact .inr ⟨nofun, rfl, _, _, [], by simp [wrote], .handedOut (.inr ‹_›)⟩

/-- A call is on a live stream, and leaves its id and the sender of its data
channel alone. -/
theorem step_frame (h : self.step config state channelOpen act = some (self', state', frames)) :
    self.phase ≠ .dropped ∧ self'.id = self.id ∧
      self'.stream.dataRx.connected = self.stream.dataRx.connected := by
  rcases step_ok h with ⟨_, _, _, -, hheld, -, hr, rfl⟩ | ⟨-, -, _, _, _, rfl, hw⟩
  · obtain ⟨⟨_, _, rfl⟩, -⟩ := Stream.pollRead_frame hr
    exact ⟨by rw [hheld]; decide, rfl, rfl⟩
  · exact ⟨hw.live, rfl, rfl⟩

theorem dropStream_refused (self : Handle) : (self.dropStream .disconnected).2 = [] := by
  unfold dropStream Stream.drop
  cases self.stream.isWriteClosed <;> rfl

/-- Nothing is sent once the frame channel has lost its receiver. -/
theorem step_refused (h : self.step config state false act = some (self', state', frames)) :
    frames = [] := by
  have hanswer : ∀ room, answer false room = .disconnected := fun _ => rfl
  cases act with
  | pollRead =>
    simp only [step] at h
    split at h <;> cases h
    rfl
  | pollWrite buf room =>
    simp only [step, hanswer] at h
    split at h <;> cases h
    unfold Stream.pollWrite
    split
    · rfl
    split
    · rfl
    split <;> rfl
  | pollShutdown room =>
    simp only [step, hanswer] at h
    split at h <;> cases h
    unfold Stream.pollShutdown
    split <;> rfl
  | close room =>
    simp only [step, hanswer] at h
    split at h
    · split at h <;> cases h <;> simp_all
    · cases h
  | drop | openDropped =>
    simp only [step, hanswer] at h
    split at h <;> cases h
    exact dropStream_refused self
  | synResumed =>
    simp only [step] at h
    split at h
    · simp only [Bool.false_eq_true, if_false] at h
      cases h
      exact dropStream_refused self
    · cases h
  | closeResumed | closeDropped | opened | acceptReturned =>
    simp only [step] at h
    split at h <;> cases h
    rfl

theorem step_delivered
    (h : self.step config state channelOpen act = some (self', state', frames)) :
    self'.delivered = self.delivered := by
  rcases step_ok h with ⟨_, _, _, -, -, -, -, rfl⟩ | ⟨-, -, _, _, _, rfl, -⟩ <;> rfl

theorem step_accepted (hw : ∀ buf room, act ≠ .pollWrite buf room)
    (h : self.step config state channelOpen act = some (self', state', frames)) :
    self'.accepted = self.accepted := by
  cases act with
  | pollWrite => exact absurd rfl (hw _ _)
  | _ =>
    simp only [step, dropStream] at h
    repeat' split at h
    all_goals cases h
    all_goals rfl

theorem pollWrite_step {buf : Bytes} {room : Bool}
    (h : self.step config state channelOpen (.pollWrite buf room) = some (self', state', frames)) :
    self'.accepted = self.accepted ++ buf.take
        (self.stream.pollWrite state config buf (answer channelOpen room)).1.count ∧
      ∀ frame ∈ frames, frame.cmd = .psh := by
  simp only [step] at h
  split at h
  · cases h
    refine ⟨rfl, fun frame hf => ?_⟩
    unfold Stream.pollWrite at hf
    repeat' split at hf
    all_goals simp at hf
    rw [hf]
    rfl
  · cases h

/-- The bytes a call accepts are those it puts in the channel. -/
theorem Write.data_eq {phase : Phase} {bytes : Bytes}
    (h : Write self config channelOpen act phase isWriteClosed bytes frames) :
    frames.flatMap Frame.data = bytes := by
  cases h with
  | psh => exact List.append_nil _
  | _ => rfl

theorem step_sent (h : self.step config state channelOpen act = some (self', state', frames)) :
    self'.sent = self.sent ++ frames ∧
      ∀ frame ∈ frames, frame.streamId = self.id ∧ frame.cmd ≠ .nop := by
  rcases step_ok h with ⟨_, _, _, -, -, rfl, -, rfl⟩ | ⟨-, -, _, _, _, rfl, hw⟩
  · exact ⟨(List.append_nil _).symm, nofun⟩
  · refine ⟨rfl, fun frame hf => ?_⟩
    cases hw with
    | quiet | finRefused | finPending | finAbandoned | handedOut | dropSilent => cases hf
    | psh | fin | finResumed | syn | dropFin =>
      rw [List.mem_singleton.mp hf]
      exact ⟨rfl, nofun⟩

end

-- ---------------------------------------------------------------------------
-- What a handle has received
-- ---------------------------------------------------------------------------

/-- The reading half as `handle_psh_frame` and `handle_fin_frame` leave it:
neither sets the stream's own flag. -/
structure Readable (handle : Handle) : Prop where
  readOpen : handle.stream.isReadClosed = false
  chunks : handle.stream.NonEmptyChunks

/-- Nothing sent to the stream is lost: it was returned or is left to read. -/
structure Intact (handle : Handle) : Prop extends Readable handle where
  conserved : handle.returned ++ handle.stream.unread = handle.delivered

theorem readable_new (streamId : UInt32) (phase : Phase) : (new streamId phase).Readable :=
  ⟨rfl, ⟨by rintro _ ⟨⟩, by rintro _ ⟨⟩⟩⟩

theorem intact_new (streamId : UInt32) (phase : Phase) : (new streamId phase).Intact :=
  ⟨readable_new streamId phase, rfl⟩

section
variable {self self' : Handle} {stream : Stream} {config : Config} {state state' : SessionState}
  {channelOpen : Bool} {act : Act} {phase : Phase} {frames : List Frame}

namespace Readable

theorem read (h : self.Readable)
    (hr : self.stream.pollRead state remaining = (result, stream, state')) :
    (self.read stream result.bytes).Readable := by
  have hread := Stream.read_of_eq h.chunks hr
  obtain ⟨⟨current, chunks, rfl⟩, -⟩ := Stream.pollRead_frame hr
  exact ⟨h.readOpen, hread.nonEmptyChunks h.chunks⟩

theorem wrote (h : self.Readable) : (self.wrote phase isWriteClosed bytes frames).Readable :=
  ⟨h.readOpen, h.chunks.current, h.chunks.queue⟩

theorem step (h : self.Readable)
    (hs : self.step config state channelOpen act = some (self', state', frames)) :
    self'.Readable := by
  rcases step_ok hs with ⟨_, _, _, -, -, -, hr, rfl⟩ | ⟨-, -, _, _, _, rfl, -⟩
  · exact h.read hr
  · exact h.wrote

theorem disconnect (h : self.Readable) : self.disconnect.Readable :=
  ⟨h.readOpen, h.chunks.current, h.chunks.queue⟩

theorem deliver (h : self.Readable) (hne : chunk ≠ []) : (self.deliver chunk).Readable := by
  refine ⟨h.readOpen, h.chunks.current, fun c hc => ?_⟩
  rcases List.mem_append.mp hc with hc | hc
  · exact h.chunks.queue c hc
  · rw [List.mem_singleton.mp hc]; exact hne

end Readable

namespace Intact

/-- A read keeps the stream intact, unless it has no capacity and finds both
a current chunk and one in the channel. -/
theorem read (h : self.Intact)
    (hr : self.stream.pollRead state remaining = (result, stream, state'))
    (hz : remaining = 0 → self.stream.currentChunk = none ∨ self.stream.dataRx.queue = []) :
    (self.read stream result.bytes).Intact := by
  refine ⟨h.toReadable.read hr, ?_⟩
  have hread := Stream.read_of_eq h.chunks hr
  have hun := hread.conserves hz
  simp only [Handle.read, List.append_assoc, ← hun, h.conserved]

theorem wrote (h : self.Intact) : (self.wrote phase isWriteClosed bytes frames).Intact :=
  ⟨h.toReadable.wrote, h.conserved⟩

theorem step (h : self.Intact)
    (hz : act = .pollRead 0 → self.stream.currentChunk = none ∨ self.stream.dataRx.queue = [])
    (hs : self.step config state channelOpen act = some (self', state', frames)) :
    self'.Intact := by
  rcases step_ok hs with ⟨_, _, _, rfl, -, -, hr, rfl⟩ | ⟨-, -, _, _, _, rfl, -⟩
  · exact h.read hr fun h0 => hz (by rw [h0])
  · exact h.wrote

theorem disconnect (h : self.Intact) : self.disconnect.Intact :=
  ⟨h.toReadable.disconnect, h.conserved⟩

theorem deliver (h : self.Intact) (hne : chunk ≠ []) : (self.deliver chunk).Intact := by
  refine ⟨h.toReadable.deliver hne, ?_⟩
  simp only [Handle.deliver, ← h.conserved, Stream.unread, Channel.send]
  simp

end Intact

end

-- ---------------------------------------------------------------------------
-- What a handle has sent
-- ---------------------------------------------------------------------------

/-- A stream's frames: a SYN if it was opened here, then a PSH for each write
accepted, then at most one FIN, which needs the write side closed. -/
structure Sends (config : Config) (handle : Handle) (syn pshs fin : List Frame) : Prop where
  sent : handle.sent = syn ++ pshs ++ fin
  isSyn : syn = [] ∨ syn = [.newSyn config.version handle.id]
  isPsh : ∀ frame ∈ pshs, ∃ data, frame = .newPsh 1 handle.id data
  accepted : pshs.flatMap Frame.data = handle.accepted
  isFin : fin = [] ∨ fin = [.newFin 1 handle.id] ∧ handle.stream.isWriteClosed
  fresh : handle.phase = .registered ∨ handle.phase = .incoming →
    handle.sent = [] ∧ handle.stream.isWriteClosed = false
  synQueued : handle.phase = .synQueued → handle.stream.isWriteClosed = false
  closing : handle.phase = .closing → handle.stream.isWriteClosed ∧ fin = []

theorem sends_new (config : Config) (streamId : UInt32) (phase : Phase) (h : phase ≠ .closing) :
    Sends config (new streamId phase) [] [] [] where
  sent := rfl
  isSyn := .inl rfl
  isPsh := by simp
  accepted := rfl
  isFin := .inl rfl
  fresh _ := ⟨rfl, rfl⟩
  synQueued _ := rfl
  closing hc := absurd hc h

section
variable {self : Handle} {config : Config} {channelOpen : Bool} {act : Act} {phase : Phase}
  {isWriteClosed : Bool} {bytes : Bytes} {frames syn pshs fin : List Frame}

theorem Sends.fin_of_writeOpen (h : self.Sends config syn pshs fin)
    (hw : self.stream.isWriteClosed = false) : fin = [] := by
  rcases h.isFin with hf | ⟨-, hc⟩
  · exact hf
  · rw [hw] at hc; cases hc

/-- What a handle has sent does not depend on its reading half. -/
theorem Sends.of_eq {self' : Handle} (h : self.Sends config syn pshs fin)
    (hid : self'.id = self.id) (hphase : self'.phase = self.phase)
    (hclosed : self'.stream.isWriteClosed = self.stream.isWriteClosed)
    (hsent : self'.sent = self.sent) (haccepted : self'.accepted = self.accepted) :
    self'.Sends config syn pshs fin := by
  obtain ⟨h1, h2, h3, h4, h5, h6, h7, h8⟩ := h
  constructor <;> simp only [hid, hphase, hclosed, hsent, haccepted] <;> assumption

theorem Sends.read {stream : Stream} (h : self.Sends config syn pshs fin)
    (hr : self.stream.pollRead state remaining = (result, stream, state')) :
    (self.read stream result.bytes).Sends config syn pshs fin := by
  obtain ⟨⟨current, chunks, rfl⟩, -⟩ := Stream.pollRead_frame hr
  exact h.of_eq rfl rfl rfl rfl rfl

theorem Sends.write (h : self.Sends config syn pshs fin)
    (hw : Write self config channelOpen act phase isWriteClosed bytes frames) :
    ∃ syn' pshs' fin',
      (self.wrote phase isWriteClosed bytes frames).Sends config syn' pshs' fin' ∧
      (self.phase ≠ .registered → syn' = syn) := by
  have hopen := h.fin_of_writeOpen
  obtain ⟨hsent, hsyn, hpsh, hacc, hfin, hfresh, hqueued, hclosing⟩ := h
  cases hw with
  | quiet hph | finAbandoned hph | handedOut hph =>
    refine ⟨syn, pshs, fin, ⟨?_, hsyn, hpsh, ?_, hfin, ?_, ?_, ?_⟩, fun _ => rfl⟩ <;>
      simp [wrote, hsent, hacc]
  | psh hph hw =>
    refine ⟨syn, pshs ++ [.newPsh 1 self.id bytes], [],
      ⟨?_, hsyn, fun f hf => ?_, ?_, .inl rfl, ?_, ?_, ?_⟩, fun _ => rfl⟩
    · simp [wrote, hsent, hopen hw]
    · rcases List.mem_append.mp hf with hf | hf
      · exact hpsh f hf
      · exact ⟨bytes, List.mem_singleton.mp hf⟩
    · simp [wrote, hacc, Frame.newPsh, Frame.new]
    all_goals simp [wrote]
  | fin hph hw | dropFin hph hw =>
    refine ⟨syn, pshs, [.newFin 1 self.id], ⟨?_, hsyn, hpsh, ?_, .inr ⟨rfl, rfl⟩, ?_, ?_, ?_⟩,
      fun _ => rfl⟩ <;> simp [wrote, hsent, hacc, hopen hw]
  | finRefused hph hw | finPending hph hw =>
    refine ⟨syn, pshs, [], ⟨?_, hsyn, hpsh, ?_, .inl rfl, ?_, ?_, ?_⟩, fun _ => rfl⟩ <;>
      simp [wrote, hsent, hacc, hopen hw]
  | finResumed hph =>
    obtain ⟨hc, hnil⟩ := hclosing hph
    refine ⟨syn, pshs, [.newFin 1 self.id], ⟨?_, hsyn, hpsh, ?_, .inr ⟨rfl, hc⟩, ?_, ?_, ?_⟩,
      fun _ => rfl⟩ <;> simp [wrote, hsent, hacc, hnil]
  | syn hph =>
    obtain ⟨hnil, hw⟩ := hfresh (.inl hph)
    simp only [hnil, List.nil_eq, List.append_eq_nil_iff] at hsent
    obtain ⟨⟨rfl, rfl⟩, rfl⟩ := hsent
    refine ⟨[.newSyn config.version self.id], [], [],
      ⟨?_, .inr rfl, by simp, ?_, .inl rfl, ?_, ?_, ?_⟩, fun h => absurd hph h⟩ <;>
      simp [wrote, hnil, ← hacc, hw]
  | dropSilent hph =>
    refine ⟨syn, pshs, fin, ⟨?_, hsyn, hpsh, ?_, hfin.imp_right fun h => ⟨h.1, rfl⟩, ?_, ?_, ?_⟩,
      fun _ => rfl⟩ <;> simp [wrote, hsent, hacc]

theorem Sends.step (h : self.Sends config syn pshs fin)
    (hs : self.step config state channelOpen act = some (self', state', frames)) :
    ∃ syn pshs fin, self'.Sends config syn pshs fin := by
  rcases step_ok hs with ⟨_, _, _, -, -, -, hr, rfl⟩ | ⟨-, -, _, _, _, rfl, hw⟩
  · exact ⟨syn, pshs, fin, h.read hr⟩
  · obtain ⟨syn', pshs', fin', h', -⟩ := h.write hw
    exact ⟨syn', pshs', fin', h'⟩

end

end Handle

end Smux
