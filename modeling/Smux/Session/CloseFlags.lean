import Smux.Session.Lane
import Smux.Session.Streams
import Smux.Session.Tokens

/-!
# The flags of a closed stream

`handle_fin_frame` sets the flag of the entry that it takes out of the streams
map. A `Stream` has a flag of its own, which nothing ever sets: neither the
FIN nor the end of file that `poll_read` reports. `flagsFollow_iff`.
-/

namespace Smux

open Runs

namespace Stream

variable {this : Stream} {state : SessionState} {remaining : Nat}

/-- When `poll_read` reports an end of file. -/
theorem eof_iff (h : this.NonEmptyChunks) (hread : this.isReadClosed = false) (hcap : remaining ≠ 0) :
    (this.pollRead state remaining).1 = .ready (.ok []) ↔
      state.closed = false ∧ this.unread = [] ∧ this.dataRx.connected = false := by
  constructor
  · intro heof
    obtain ⟨_, _, hr⟩ := read_of_result h heof
    rcases hr.eof_of_ready hcap with hc | ⟨hun, hrx⟩
    · rw [hread] at hc
      cases hc
    · refine ⟨?_, hun, by rw [hrx]⟩
      cases hc : state.closed with
      | false => rfl
      | true =>
        rw [pollRead_of_closed hread hc] at heof
        cases heof
  · rintro ⟨hopen, hun, hconn⟩
    have hcur : this.currentChunk = none := by
      cases hcur : this.currentChunk with
      | none => rfl
      | some chunk =>
        rw [unread, hcur] at hun
        exact absurd (List.append_eq_nil_iff.mp hun).1 (h.current chunk hcur)
    have hqueue := h.queue_eq_nil hun
    simp [pollRead, pollChannel, Channel.tryRecv, SessionState.isClosed, hread, hopen, hcur, hqueue,
      hconn]

end Stream

namespace Session

-- ---------------------------------------------------------------------------
-- What the flags are to say
-- ---------------------------------------------------------------------------

/-- `handle_fin_frame` finds the entry of the stream for the FIN of a step. -/
def finFor (self : Session) (k : Nat) : Act → Bool
  | .recv frame => frame.cmd = .fin ∧ (self.streams frame.streamId).any (·.dataTx == k)
  | _ => false

/-- A `poll_read` of the stream has no byte for a buffer with room. -/
def reportsEof (self : Session) (k : Nat) : Act → Bool
  | .call j (.pollRead remaining) => j = k ∧ remaining ≠ 0 ∧ self.handles[k]?.any fun handle =>
      (handle.stream.pollRead self.state remaining).1 = .ready (.ok [])
  | _ => false

def finHandled (k : Nat) (tr : List (Session × Act)) : Bool := tr.any fun p => p.1.finFor k p.2

def eofReported (k : Nat) (tr : List (Session × Act)) : Bool := tr.any fun p => p.1.reportsEof k p.2

/-- What the accessors say of a stream after some steps. -/
structure FlagsFollow (k : Nat) (tr : List (Session × Act)) (stream : Stream) : Prop where
  readClosed : finHandled k tr → eofReported k tr → stream.isReadClosed
  notBefore : stream.isReadClosed → finHandled k tr
  closed : stream.isClosed ↔ (finHandled k tr ∧ eofReported k tr) ∧ stream.isWriteClosed

/-- The flags of the streams follow their FINs, at all times of a run. -/
def FlagsAlong (config : Config) (isClient : Bool) (tr : List (Session × Act)) : Prop :=
  ∀ before u, before <+: tr → Run step (new config isClient) before u →
    ∀ (k : Nat) (handle : Handle), u.handles[k]? = some handle → handle.phase ≠ .dropped →
      FlagsFollow k before handle.stream

/-- A `poll_read` with room for a byte, in an open session, of a stream that
has none left. -/
def readsDrained (self : Session) (k : Nat) : Act → Bool
  | .call j (.pollRead remaining) => j = k ∧ remaining ≠ 0 ∧ self.state.closed = false ∧
      self.handles[k]?.any fun handle => handle.stream.unread = []
  | _ => false

-- ---------------------------------------------------------------------------
-- Senders and entries
-- ---------------------------------------------------------------------------

/-- The entry of a stream holds the sender of its data channel. -/
def HoldsSender (u : Session) : Prop :=
  ∀ i streamState handle, u.streams i = some streamState →
    u.handles[streamState.dataTx]? = some handle → handle.stream.dataRx.connected

section
variable {config : Config} {isClient : Bool} {u v w t : Session} {act : Act} {k : Nat}
  {tr : List (Session × Act)} {handle handle' : Handle} {streamId : UInt32}

theorem holdsSender_set (h : u.HoldsSender) (hk : u.handles[k]? = some handle)
    (hconn : handle'.stream.dataRx.connected = handle.stream.dataRx.connected) :
    { u with handles := u.handles.set k handle' }.HoldsSender := by
  intro i streamState x hs hx
  rcases set_cases hx with ⟨rfl, rfl⟩ | ⟨-, hx⟩
  · rw [hconn]
    exact h i streamState handle hs hk
  · exact h i streamState x hs hx

/-- Dropping the entry of an id disconnects no stream of another. -/
theorem holdsSender_dropEntry (h : u.HoldsSender) (hr : u.Routed) {i : UInt32}
    {streamState : StreamState} (hs : u.streams i = some streamState) (hi : i ≠ streamId)
    (hk : (u.dropEntry (u.streams streamId))[streamState.dataTx]? = some handle') :
    handle'.stream.dataRx.connected := by
  cases hst : u.streams streamId with
  | none =>
    rw [hst] at hk
    exact h i streamState handle' hs hk
  | some other =>
    have hne : other.dataTx ≠ streamState.dataTx := by
      intro he
      have hid := hr _ _ hst
      rw [he, hr _ _ hs] at hid
      exact hi (Option.some.inj hid)
    have hk : u.handles[streamState.dataTx]? = some handle' := by
      simpa [hst, dropEntry, List.getElem?_modify, hne] using hk
    exact h i streamState handle' hs hk

theorem holdsSender_removeStream (h : u.HoldsSender) (hr : u.Routed) (streamId : UInt32) :
    (u.removeStream streamId).HoldsSender := by
  intro i streamState handle' hs hk
  simp only [removeStream] at hs
  split at hs
  · cases hs
  · exact holdsSender_dropEntry h hr hs ‹_› hk

theorem holdsSender_insertStream (h : u.HoldsSender) (hr : u.Routed) (streamId : UInt32)
    (phase : Phase) : (u.insertStream streamId phase).HoldsSender := by
  intro i streamState handle' hs hk
  simp only [insertStream] at hs hk
  split at hs
  · cases hs
    simp [length_dropEntry] at hk
    rw [← hk]
    rfl
  · have hlt := idAt_lt (hr _ _ hs)
    rw [List.getElem?_append_left (by rwa [length_dropEntry])] at hk
    exact holdsSender_dropEntry h hr hs ‹_› hk

theorem holdsSender_step (h : u.HoldsSender) (hr : u.Routed) (hs : u.step act = some v) :
    v.HoldsSender := by
  cases step_ok hs with
  | register => exact holdsSender_insertStream h hr _ _
  | syn => exact holdsSender_insertStream (u := u.received) h hr _ _
  | fin => exact holdsSender_removeStream (u := u.received) h hr _
  | called _ hk hcall => exact holdsSender_set h hk (Handle.step_frame hcall).2.2
  | @psh _ _ w _ hp hpsh =>
    have hw : w.HoldsSender ∧ w.Routed := by cases hp <;> exact ⟨h, hr⟩
    cases hpsh with
    | delivered _ _ hk => exact holdsSender_set hw.1 hk rfl
    | gone => exact holdsSender_removeStream (u := { w with state := _ }) hw.1 hw.2 _
    | _ => exact hw.1
  | _ => exact h

-- ---------------------------------------------------------------------------
-- FIN and end of file
-- ---------------------------------------------------------------------------

def disconnected (self : Session) (k : Nat) : Prop :=
  ∃ handle, self.handles[k]? = some handle ∧ handle.stream.dataRx.connected = false

theorem disconnected_step (h : u.disconnected k) (hs : u.step act = some v) : v.disconnected k := by
  obtain ⟨handle, hk, hconn⟩ := h
  obtain ⟨handle', hk', hstep⟩ := step_kept hs hk
  refine ⟨handle', hk', ?_⟩
  cases hstep with
  | same | delivered => exact hconn
  | called _ hcall => exact (Handle.step_frame hcall).2.2.trans hconn
  | disconnected => rfl

theorem disconnected_run (h : u.disconnected k) (hr : Run step u tr t) : t.disconnected k :=
  hr.always h disconnected_step t (last_visited ..)

/-- The FIN of a stream drops the sender of its data channel. -/
theorem disconnected_of_fin (hr : u.Routed) (hs : u.step act = some v) (hfin : u.finFor k act) :
    v.disconnected k := by
  cases act with
  | recv frame =>
    obtain ⟨hc, hentry⟩ : frame.cmd = .fin ∧ (u.streams frame.streamId).any (·.dataTx == k) :=
      by simpa [finFor] using hfin
    have hv : v = (u.received.removeStream frame.streamId).finish frame := by
      cases step_ok hs with
      | called hcalls => cases hcalls
      | ignored _ _ hcase => simp [hc] at hcase
      | syn _ _ h => rw [hc] at h; cases h
      | fin => rfl
      | psh hp =>
        cases hp with
        | first _ _ h => rw [hc] at h; cases h
    obtain ⟨streamState, hst, hk⟩ := (Option.any_eq_true _ _).mp hentry
    obtain ⟨handle, hh, -⟩ := handle_of_idAt (hr _ _ hst)
    rw [beq_iff_eq.mp hk] at hh
    have hget := getElem_removeStream u.received frame.streamId k
    rw [hv]
    refine ⟨handle.disconnect, hget.trans ?_, rfl⟩
    have hentry' : (u.received.streams frame.streamId).any (·.dataTx == k) := hentry
    have hh' : u.received.handles[k]? = some handle := hh
    rw [hh', hentry', Option.map_some, if_pos rfl]
  | _ => cases hfin

theorem not_finFor_of_disconnected (h : u.HoldsSender) (hd : u.disconnected k) :
    u.finFor k act = false := by
  obtain ⟨handle, hk, hconn⟩ := hd
  cases act with
  | recv frame =>
    cases hst : u.streams frame.streamId with
    | none => simp [finFor, hst]
    | some streamState =>
      have hne : streamState.dataTx ≠ k := by
        rintro rfl
        rw [h _ _ handle hst hk] at hconn
        cases hconn
      simp [finFor, hst, hne]
  | _ => rfl

/-- A stream reports an end of file when it is read, drained, and its sender is
gone. -/
theorem reportsEof_iff (hread : ∀ handle ∈ u.handles, handle.Readable) :
    u.reportsEof k act ↔ u.readsDrained k act ∧ u.disconnected k := by
  cases act with
  | call j call =>
    cases call with
    | pollRead remaining =>
      cases hk : u.handles[k]? with
      | none => simp [reportsEof, readsDrained, hk]
      | some handle =>
        have hreadable := hread handle (List.mem_of_getElem? hk)
        simp only [reportsEof, readsDrained, disconnected, hk, Option.any_some, decide_eq_true_eq]
        constructor
        · rintro ⟨rfl, hcap, heof⟩
          obtain ⟨hopen, hun, hconn⟩ :=
            (Stream.eof_iff hreadable.chunks hreadable.readOpen hcap).mp heof
          exact ⟨⟨rfl, hcap, hopen, hun⟩, handle, rfl, hconn⟩
        · rintro ⟨⟨rfl, hcap, hopen, hun⟩, _, ⟨⟩, hconn⟩
          exact ⟨rfl, hcap,
            (Stream.eof_iff hreadable.chunks hreadable.readOpen hcap).mpr ⟨hopen, hun, hconn⟩⟩
    | _ => simp [reportsEof, readsDrained]
  | _ => simp [reportsEof, readsDrained]

theorem reads_of_readsDrained (h : u.readsDrained k act) :
    ∃ remaining, act = .call k (.pollRead remaining) := by
  cases act with
  | call j call =>
    cases call with
    | pollRead remaining =>
      obtain ⟨rfl, -⟩ : j = k ∧ _ := of_decide_eq_true h
      exact ⟨remaining, rfl⟩
    | _ => cases h
  | _ => cases h

/-- A stream that is read stays in the hands of the user. -/
theorem held_of_reads {remaining : Nat} (hs : u.step (.call k (.pollRead remaining)) = some v) :
    ∃ handle, v.handles[k]? = some handle ∧ handle.phase = .held := by
  obtain ⟨_, handle', _, _, -, hcall, hk, -⟩ := call_ok hs
  refine ⟨handle', hk, ?_⟩
  rcases Handle.step_ok hcall with ⟨_, _, _, -, hheld, -, -, rfl⟩ | ⟨hread, -⟩
  · exact hheld
  · exact absurd rfl (hread remaining)

/-- A session as far as the flags of its streams depend on it. -/
structure Wired (session : Session) : Prop where
  routed : session.Routed
  sender : session.HoldsSender
  awaits : session.AwaitsPsh
  readable : ∀ handle ∈ session.handles, handle.Readable

theorem wired_new (config : Config) (isClient : Bool) : (new config isClient).Wired :=
  ⟨routed_new config isClient, nofun, nofun, nofun⟩

theorem wired_step (h : u.Wired) (hs : u.step act = some v) : v.Wired where
  routed := routed_step h.routed hs
  sender := holdsSender_step h.sender h.routed hs
  awaits := awaitsPsh_step h.awaits hs
  readable := readable_step h.readable h.awaits hs

theorem wired_run (hr : Run step (new config isClient) tr t) : ∀ u ∈ visited tr t, u.Wired :=
  hr.always (wired_new config isClient) wired_step

/-- Nothing sets the flag of a stream. -/
theorem readOpen_run (hr : Run step (new config isClient) tr t) (hk : t.handles[k]? = some handle) :
    handle.stream.isReadClosed = false :=
  ((wired_run hr t (last_visited ..)).readable handle (List.mem_of_getElem? hk)).readOpen

theorem finHandled_append (k : Nat) (tr tr' : List (Session × Act)) :
    finHandled k (tr ++ tr') = (finHandled k tr || finHandled k tr') := List.any_append

theorem disconnected_of_finHandled (hr : Run step (new config isClient) tr t)
    (hfin : finHandled k tr) : t.disconnected k := by
  obtain ⟨⟨u, act⟩, hp, hstep⟩ := List.any_eq_true.mp hfin
  have hrouted := (wired_run hr u (visited_of_mem hp)).routed
  obtain ⟨before, after, rfl⟩ := List.append_of_mem hp
  obtain ⟨-, v, hs, hafter⟩ := hr.split
  exact disconnected_run (disconnected_of_fin hrouted hs hstep) hafter

/-- The end of file of a stream comes after its FIN, if that comes at all. -/
theorem fin_before_eof (hr : Run step (new config isClient) tr t) (hfin : finHandled k tr)
    (heof : eofReported k tr) : ∃ before u act after, tr = before ++ (u, act) :: after ∧
      u.readsDrained k act ∧ finHandled k before := by
  obtain ⟨⟨u, act⟩, hp, heof⟩ := List.any_eq_true.mp heof
  have hwired := wired_run hr
  obtain ⟨hdrained, hdisc⟩ := (reportsEof_iff (hwired u (visited_of_mem hp)).readable).mp heof
  obtain ⟨before, after, rfl⟩ := List.append_of_mem hp
  obtain ⟨-, v, hs, hafter⟩ := hr.split
  have hrest : finHandled k ((u, act) :: after) = false := by
    refine List.any_eq_false.mpr fun p hp => ?_
    have hgone := (Run.cons hs hafter).always hdisc disconnected_step p.1 (visited_of_mem hp)
    have hsender := (hwired p.1 (visited_of_mem (List.mem_append_right _ hp))).sender
    simp [not_finFor_of_disconnected hsender hgone]
  refine ⟨before, u, act, after, rfl, hdrained, ?_⟩
  rwa [finHandled_append, hrest, Bool.or_false] at hfin

/-- The flags of streams follow their FINs, along a run, exactly if no stream
is read in an open session once its FIN is handled and its last byte read. -/
theorem flagsFollow_iff (hr : Run step (new config isClient) tr t) :
    FlagsAlong config isClient tr ↔ ∀ before u act after k, tr = before ++ (u, act) :: after →
      u.readsDrained k act → finHandled k before = false := by
  constructor
  · rintro h before u act after k rfl hdrained
    cases hfin : finHandled k before with
    | false => rfl
    | true =>
      exfalso
      obtain ⟨hbefore, v, hs, -⟩ := hr.split
      have hrun : Run step (new config isClient) (before ++ [(u, act)]) v := hbefore.snoc hs
      have hwired := wired_run hbefore u (last_visited ..)
      have heof := (reportsEof_iff hwired.readable).mpr
        ⟨hdrained, disconnected_of_finHandled hbefore hfin⟩
      obtain ⟨remaining, rfl⟩ := reads_of_readsDrained hdrained
      obtain ⟨handle, hk, hheld⟩ := held_of_reads hs
      have hlive : handle.phase ≠ .dropped := by rw [hheld]; decide
      have hflags := h _ v ⟨after, by simp⟩ hrun k handle hk hlive
      have hfin' : finHandled k (before ++ [(u, .call k (.pollRead remaining))]) := by
        rw [finHandled_append, hfin, Bool.true_or]
      have hclosed := hflags.readClosed hfin' (by simp [eofReported, heof])
      rw [readOpen_run hrun hk] at hclosed
      cases hclosed
  · intro hnone before u hprefix hbefore k handle hk hlive
    have hread := readOpen_run hbefore hk
    have hnot : ¬(finHandled k before ∧ eofReported k before) := by
      rintro ⟨hfin, heof⟩
      obtain ⟨earlier, w, act, later, rfl, hdrained, hfin⟩ := fin_before_eof hbefore hfin heof
      obtain ⟨rest, rfl⟩ := hprefix
      have := hnone earlier w act (later ++ rest) k (by simp) hdrained
      rw [hfin] at this
      cases this
    refine ⟨fun hfin heof => absurd ⟨hfin, heof⟩ hnot, fun hr => ?_, ?_⟩
    · rw [hread] at hr
      cases hr
    · simp [Stream.isClosed, hread, hnot]

end

/-- The end of file that follows a FIN leaves the stream open for reading. -/
theorem not_flagsFollow_eof : ∃ tr t, Run step (new .default false) tr t ∧
    tr.map Prod.snd =
      [.recv (.newSyn 1 1), .accepted, .acceptStream, .recv (.newFin 1 1), .call 0 (.pollRead 1)] ∧
    ¬FlagsAlong .default false tr := by
  obtain ⟨tr, t, -, hr, hacts, hfin, heof, hopen⟩ := exec_sat step (new .default false)
    [.recv (.newSyn 1 1), .accepted, .acceptStream, .recv (.newFin 1 1), .call 0 (.pollRead 1)]
    (fun tr t => tr.map Prod.snd =
        [.recv (.newSyn 1 1), .accepted, .acceptStream, .recv (.newFin 1 1), .call 0 (.pollRead 1)] ∧
      finHandled 0 tr ∧ eofReported 0 tr ∧
      t.handles[0]?.any fun handle => handle.phase = .held ∧ handle.stream.isReadClosed = false)
    (by decide)
  obtain ⟨handle, hk, hflags⟩ := (Option.any_eq_true _ _).mp hopen
  obtain ⟨hheld, hopen⟩ : handle.phase = .held ∧ handle.stream.isReadClosed = false :=
    of_decide_eq_true hflags
  refine ⟨tr, t, hr, hacts, fun h => ?_⟩
  have hclosed := (h tr t List.prefix_rfl hr 0 handle hk (by rw [hheld]; decide)).readClosed hfin heof
  rw [hopen] at hclosed
  cases hclosed

/-- A FIN, and a read that finds bytes left. -/
theorem flagsFollow_bytesLeft : ∃ tr t, Run step (new .default false) tr t ∧
    tr.map Prod.snd =
      [.recv (.newSyn 1 1), .accepted, .acceptStream, .recv (.newPsh 1 1 [5, 6]),
        .recv (.newFin 1 1), .call 0 (.pollRead 1)] ∧
    FlagsAlong .default false tr := by
  obtain ⟨tr, t, -, hr, hacts, hread⟩ := exec_sat step (new .default false)
    [.recv (.newSyn 1 1), .accepted, .acceptStream, .recv (.newPsh 1 1 [5, 6]),
      .recv (.newFin 1 1), .call 0 (.pollRead 1)]
    (fun tr _ => tr.map Prod.snd =
        [.recv (.newSyn 1 1), .accepted, .acceptStream, .recv (.newPsh 1 1 [5, 6]),
          .recv (.newFin 1 1), .call 0 (.pollRead 1)] ∧
      ∀ p ∈ tr, p.1.readsDrained 0 p.2 = false) (by decide)
  refine ⟨tr, t, hr, hacts, (flagsFollow_iff hr).mpr ?_⟩
  rintro before u act after k rfl hdrained
  obtain ⟨remaining, rfl⟩ := reads_of_readsDrained hdrained
  have hmem : .call k (.pollRead remaining) ∈
      (before ++ (u, .call k (.pollRead remaining)) :: after).map Prod.snd := by simp
  rw [hacts] at hmem
  obtain ⟨rfl, -⟩ : k = 0 ∧ remaining = 1 := by simpa using hmem
  rw [hread (u, .call 0 (.pollRead remaining)) (by simp)] at hdrained
  cases hdrained

end Session

end Smux
