import Mathlib.Algebra.Order.BigOperators.Group.List
import Mathlib.Algebra.Order.Ring.Nat
import Smux.Session.Tokens

/-!
# The ledger of the balance

What the balance is in every state: `max_receive_buffer`, and a token for each
byte `poll_read` returned, and one for each byte of a payload that reached no
stream. Nothing is ever taken from it, so `handle_psh_frame` never waits, and
what holds up `recv_loop` is only a full accept queue: `tokens_ledger`.
-/

namespace Smux

open Runs

namespace Handle

/-- What was delivered is returned, or left to read, or was lost. -/
structure Covered (handle : Handle) : Prop extends Readable handle where
  covered : handle.returned.length + handle.stream.unread.length ≤ handle.delivered.length

theorem covered_new (streamId : UInt32) (phase : Phase) : (new streamId phase).Covered :=
  { readable_new streamId phase with covered := Nat.le_refl _ }

namespace Covered

variable {self self' : Handle} {config : Config} {state state' : SessionState} {channelOpen : Bool}
  {act : Act} {frames : List Frame} {chunk : Bytes}

theorem step (h : self.Covered)
    (hs : self.step config state channelOpen act = some (self', state', frames)) : self'.Covered := by
  refine { h.toReadable.step hs with covered := ?_ }
  have hc := h.covered
  rcases step_ok hs with ⟨_, result, stream, -, -, -, hr, rfl⟩ | ⟨-, -, _, _, _, rfl, -⟩
  · have hle := (Stream.read_of_eq h.chunks hr).returns_le
    simp only [Handle.read, List.length_append]
    omega
  · exact hc

theorem disconnect (h : self.Covered) : self.disconnect.Covered :=
  { h.toReadable.disconnect with covered := h.covered }

theorem deliver (h : self.Covered) (hne : chunk ≠ []) : (self.deliver chunk).Covered := by
  refine { h.toReadable.deliver hne with covered := ?_ }
  have hc := h.covered
  simp only [Handle.deliver, Stream.unread, Channel.send, List.flatten_append, List.flatten_cons,
    List.flatten_nil, List.append_nil, List.length_append] at hc ⊢
  omega

end Covered

end Handle

namespace Session

def deliveredBytes (self : Session) : Nat := (self.handles.map (·.delivered.length)).sum

def returnedBytes (self : Session) : Nat := (self.handles.map (·.returned.length)).sum

/-- The bytes of all payloads. -/
def payloadBytes (frames : List Frame) : Nat := (frames.map (·.data.length)).sum

section
variable {config : Config} {isClient : Bool} {u v w t : Session} {act : Act}
  {tr : List (Session × Act)} {frame : Frame}

theorem payloadBytes_snoc (frames : List Frame) (frame : Frame) :
    payloadBytes (frames ++ [frame]) = payloadBytes frames + frame.data.length := by
  simp [payloadBytes]

theorem payloadBytes_mono {earlier later : List Frame} (h : earlier <+: later) :
    payloadBytes earlier ≤ payloadBytes later := by
  obtain ⟨more, rfl⟩ := h
  simp [payloadBytes]

theorem covered_step (h : ∀ handle ∈ u.handles, handle.Covered) (haw : u.AwaitsPsh)
    (hs : u.step act = some v) : ∀ handle ∈ v.handles, handle.Covered := by
  intro handle' hm
  rcases step_mem hs hm with ⟨handle, hm, hstep⟩ | ⟨streamId, phase, rfl, -⟩
  · have hc := h handle hm
    cases hstep with
    | same => exact hc
    | called _ hcall => exact hc.step hcall
    | delivered hp => exact hc.deliver (hp.isPsh haw).2.2
    | disconnected => exact hc.disconnect
  · exact Handle.covered_new streamId phase

theorem returnedBytes_le (h : ∀ handle ∈ u.handles, handle.Covered) :
    u.returnedBytes ≤ u.deliveredBytes :=
  List.sum_le_sum fun handle hm => Nat.le_of_add_right_le (h handle hm).covered

/-- The balance, and what it is made of. -/
structure Ledger (config : Config) (session : Session) : Prop where
  config_eq : session.config = config
  idle : session.Idle
  awaits : session.AwaitsPsh
  covered : ∀ handle ∈ session.handles, handle.Covered
  delivered : session.deliveredBytes ≤ payloadBytes session.handled
  balance : session.state.tokens + session.deliveredBytes =
    config.maxReceiveBuffer + session.returnedBytes + payloadBytes session.handled

theorem ledger_new (hmax : config.maxReceiveBuffer < 2 ^ 63) :
    (new config isClient).Ledger config where
  config_eq := rfl
  idle := by rintro _ _ _ ⟨⟩
  awaits := by rintro _ _ _ ⟨⟩
  covered := by simp [new]
  delivered := Nat.le_refl _
  balance := by
    have htokens : (new config isClient).state.tokens = i64 config.maxReceiveBuffer := by
      simp [new, SessionState.new]
    have hdelivered : (new config isClient).deliveredBytes = 0 := rfl
    have hreturned : (new config isClient).returnedBytes = 0 := rfl
    have hhandled : payloadBytes (new config isClient).handled = 0 := rfl
    rw [htokens, i64_of_lt hmax, hdelivered, hreturned, hhandled]
    simp

/-- There are always tokens. -/
theorem Ledger.tokens_ge (h : u.Ledger config) : (config.maxReceiveBuffer : Int) ≤ u.state.tokens := by
  have hbalance := h.balance
  have hdelivered := h.delivered
  omega

/-- What a step adds to the totals of the ledger, and to the balance. -/
structure Entry (u v : Session) (delivered returned handled credit : Nat) : Prop where
  delivered_eq : v.deliveredBytes = u.deliveredBytes + delivered
  returned_eq : v.returnedBytes = u.returnedBytes + returned
  handled_eq : payloadBytes v.handled = payloadBytes u.handled + handled
  delivered_le : delivered ≤ handled
  credit_eq : returned + handled = delivered + credit
  tokens : v.state.tokens = u.state.tokens ∧ credit = 0 ∨
    v.state.tokens = i64 (u.state.tokens + i64 credit)

/-- A step that delivers, returns and credits nothing. -/
theorem Entry.zero (hd : v.deliveredBytes = u.deliveredBytes) (hr : v.returnedBytes = u.returnedBytes)
    (hh : payloadBytes v.handled = payloadBytes u.handled)
    (ht : v.state.tokens = u.state.tokens) : Entry u v 0 0 0 0 :=
  ⟨hd, hr, hh, Nat.le_refl _, rfl, .inl ⟨ht, rfl⟩⟩

theorem totals_insertStream (u : Session) (streamId : UInt32) (phase : Phase) :
    (u.insertStream streamId phase).deliveredBytes = u.deliveredBytes ∧
      (u.insertStream streamId phase).returnedBytes = u.returnedBytes :=
  ⟨sum_insertStream u (fun _ _ => rfl) (fun _ => rfl) streamId phase,
    sum_insertStream u (fun _ _ => rfl) (fun _ => rfl) streamId phase⟩

theorem totals_removeStream (u : Session) (streamId : UInt32) :
    (u.removeStream streamId).deliveredBytes = u.deliveredBytes ∧
      (u.removeStream streamId).returnedBytes = u.returnedBytes :=
  ⟨sum_removeStream u (fun _ => rfl) streamId, sum_removeStream u (fun _ => rfl) streamId⟩

theorem entry_call {handle handle' : Handle} {state' : SessionState} {waiting : List Nat}
    (hk : u.handles[k]? = some handle)
    (hcall : handle.step u.config u.state u.channelOpen call = some (handle', state', sent)) :
    ∃ returned, Entry u
      ({ u with
        handles := u.handles.set k handle', state := state', incoming := waiting }.queue sent)
      0 returned 0 returned := by
  have hd := sum_map_set (f := fun handle => handle.delivered.length) hk handle'
  have hr := sum_map_set (f := fun handle => handle.returned.length) hk handle'
  rw [Handle.step_delivered hcall] at hd
  rcases Handle.step_ok hcall with ⟨_, result, stream, -, -, -, hread, rfl⟩ | ⟨-, rfl, _, _, _, rfl, -⟩
  · refine ⟨result.bytes.length, Nat.add_right_cancel hd, ?_, rfl, Nat.le_refl _, by omega, ?_⟩
    · simp only [returnedBytes, queue, Handle.read, List.length_append] at hr ⊢
      omega
    · rcases Stream.pollRead_credits hread with ⟨rfl, hnil⟩ | rfl
      · exact .inl ⟨rfl, by rw [hnil]; rfl⟩
      · exact .inr rfl
  · exact ⟨0, .zero (Nat.add_right_cancel hd) (Nat.add_right_cancel hr) rfl rfl⟩

theorem entry_psh (htokens : 0 < w.state.tokens) (hpsh : Psh w frame v) :
    v.Idle ∧ ∃ delivered credit, Entry w v delivered 0 frame.data.length credit := by
  have hidle : v.handling = none → v.Idle := fun hn => by rw [Idle, hn]; simp
  cases hpsh with
  | @delivered streamState handle _ hs hk =>
    have hd := sum_map_set (f := fun handle => handle.delivered.length) hk (handle.deliver frame.data)
    have hr := sum_map_set (f := fun handle => handle.returned.length) hk (handle.deliver frame.data)
    refine ⟨hidle rfl, frame.data.length, 0, ?_, ?_, payloadBytes_snoc .., Nat.le_refl _,
      by omega, .inl ⟨rfl, rfl⟩⟩
    · simp only [deliveredBytes, finish, Handle.deliver, List.length_append] at hd ⊢
      omega
    · simp only [returnedBytes, finish, Handle.deliver] at hr ⊢
      omega
  | gone =>
    obtain ⟨hd, hr⟩ := totals_removeStream { w with state := w.state.returnTokens frame.data.length }
      frame.streamId
    exact ⟨hidle rfl, 0, frame.data.length, hd, hr, payloadBytes_snoc .., Nat.zero_le _, by omega,
      .inr rfl⟩
  | unknown =>
    exact ⟨hidle rfl, 0, frame.data.length, rfl, rfl, payloadBytes_snoc .., Nat.zero_le _, by omega,
      .inr rfl⟩
  | waits hle => omega

theorem entry_step (hidle : u.Idle) (htokens : 0 < u.state.tokens) (hs : u.step act = some v) :
    v.Idle ∧ ∃ delivered returned handled credit, Entry u v delivered returned handled credit := by
  have hsilent : ∀ {frame : Frame}, frame.data = [] →
      payloadBytes (u.handled ++ [frame]) = payloadBytes u.handled := by
    intro frame hd
    rw [payloadBytes_snoc, hd]
    rfl
  have hnone : v.handling = none → v.Idle := fun hn => by rw [Idle, hn]; simp
  cases step_ok hs with
  | register =>
    obtain ⟨hd, hr⟩ := totals_insertStream u _ .registered
    exact ⟨hidle, _, _, _, _, .zero hd hr rfl rfl⟩
  | called _ hk hcall =>
    obtain ⟨returned, h⟩ := entry_call hk hcall
    exact ⟨hidle, _, _, _, _, h⟩
  | ignored _ hv hcase =>
    refine ⟨hnone rfl, _, _, _, _, .zero rfl rfl (hsilent ?_) rfl⟩
    rcases hcase with hc | ⟨_, _, hc⟩ | ⟨-, hd⟩ | ⟨hc, -⟩
    · exact hv.control (by rw [hc]; rfl)
    · exact hv.control (by rw [hc]; rfl)
    · exact hd
    · exact hv.control (by rw [hc]; rfl)
  | @syn frame _ hv hc =>
    obtain ⟨hd, hr⟩ := totals_insertStream u.received frame.streamId .incoming
    have hdata := hv.control (by rw [hc]; rfl)
    exact ⟨(by rintro _ _ _ ⟨⟩), _, _, _, _, .zero hd hr (hsilent hdata) rfl⟩
  | @fin frame _ hv hc =>
    obtain ⟨hd, hr⟩ := totals_removeStream u.received frame.streamId
    have hdata := hv.control (by rw [hc]; rfl)
    exact ⟨hnone rfl, _, _, _, _, .zero hd hr (hsilent hdata) rfl⟩
  | psh hp hpsh =>
    cases hp with
    | first =>
      obtain ⟨hidle', delivered, credit, h⟩ := entry_psh (w := u.received) htokens hpsh
      exact ⟨hidle', _, _, _, _, ⟨h.1, h.2, h.3, h.4, h.5, h.6⟩⟩
    | again hn => exact absurd hn (hidle _ _ _)
  | accepted => exact ⟨hnone rfl, _, _, _, _, .zero rfl rfl rfl rfl⟩
  | sessionClosing hn => exact absurd hn (hidle _ _ _)
  | keepAliveTimeout hstate =>
    refine ⟨hidle, _, _, _, _, .zero rfl rfl rfl ?_⟩
    rcases hstate with rfl | rfl
    · rfl
    · exact SessionState.close_tokens _
  | close | sendLoopEnded =>
    exact ⟨hidle, _, _, _, _, .zero rfl rfl rfl (SessionState.close_tokens _)⟩
  | _ => exact ⟨hidle, _, _, _, _, .zero rfl rfl rfl rfl⟩

theorem i64_of_range {x : Int} (h0 : 0 ≤ x) (hx : x < 2 ^ 63) : i64 x = x := by
  simp only [i64, Int.bmod_def]
  omega

theorem ledger_step (hpos : 0 < config.maxReceiveBuffer)
    (hsmall : config.maxReceiveBuffer + payloadBytes v.handled < 2 ^ 63) (h : u.Ledger config)
    (hs : u.step act = some v) : v.Ledger config := by
  have htokens : 0 < u.state.tokens := by
    have hge := h.tokens_ge
    omega
  obtain ⟨hidle, delivered, returned, handled, credit, hentry⟩ := entry_step h.idle htokens hs
  have hcovered := covered_step h.covered h.awaits hs
  have hreturned := returnedBytes_le hcovered
  obtain ⟨hd, hr, hh, hdle, hcredit, htokens⟩ := hentry
  have hbalance := h.balance
  have hdelivered := h.delivered
  have hge := h.tokens_ge
  have hsum : v.state.tokens = u.state.tokens + credit := by
    rcases htokens with ⟨ht, rfl⟩ | ht
    · rw [ht]
      exact (Int.add_zero _).symm
    · rw [ht, i64_of_lt (by omega)]
      exact i64_of_range (by omega) (by omega)
  exact ⟨(step_config hs).trans h.config_eq, hidle, awaitsPsh_step h.awaits hs, hcovered, by omega,
    by omega⟩

theorem maxReceiveBuffer_pos (hv : config.validate = .ok ()) : 0 < config.maxReceiveBuffer :=
  have hvalid := Config.validate_ok.mp hv
  Nat.lt_of_lt_of_le hvalid.maxFrameSize_pos hvalid.maxFrameSize_le_buffer

theorem ledger_run (hv : config.validate = .ok ()) (hr : Run step (new config isClient) tr t)
    (hsmall : config.maxReceiveBuffer + payloadBytes t.handled < 2 ^ 63) : t.Ledger config := by
  induction hr with
  | nil => exact ledger_new (Nat.lt_of_le_of_lt (Nat.le_add_right ..) hsmall)
  | snoc _ hs ih =>
    have hle := payloadBytes_mono (step_handled hs)
    exact ledger_step (maxReceiveBuffer_pos hv) hsmall (ih (by omega)) hs

/-- For the first 2^63 bytes, less `max_receive_buffer`, no payload waits for
tokens, and the balance is what the ledger says. -/
theorem tokens_ledger (hv : config.validate = .ok ()) (hr : Run step (new config isClient) tr t)
    (hsmall : config.maxReceiveBuffer + payloadBytes t.handled < 2 ^ 63) :
    t.Idle ∧ t.state.tokens + t.deliveredBytes =
        config.maxReceiveBuffer + t.returnedBytes + payloadBytes t.handled ∧
      config.maxReceiveBuffer ≤ t.state.tokens := by
  have hledger := ledger_run hv hr hsmall
  exact ⟨hledger.idle, hledger.balance, hledger.tokens_ge⟩

end

/-- One payload is delivered and read, and one is for a stream that is not
there. -/
theorem tokens_ledger_read : ∃ tr t, exec step (new .default false)
      [.recv (.newSyn 1 1), .accepted, .acceptStream, .recv (.newPsh 1 1 [5, 6]),
        .call 0 (.pollRead 1), .recv (.newPsh 1 3 [7])] = some (tr, t) ∧
    t.state.tokens + 2 = Config.default.maxReceiveBuffer + 1 + 3 := by
  obtain ⟨tr, t, he, hr, hd, hret, hh⟩ := exec_sat step (new .default false)
    [.recv (.newSyn 1 1), .accepted, .acceptStream, .recv (.newPsh 1 1 [5, 6]),
      .call 0 (.pollRead 1), .recv (.newPsh 1 3 [7])]
    (fun _ t => t.deliveredBytes = 2 ∧ t.returnedBytes = 1 ∧ payloadBytes t.handled = 3) (by decide)
  have hledger := (tokens_ledger (by decide) hr (by rw [hh]; decide)).2.1
  rw [hd, hret, hh] at hledger
  exact ⟨tr, t, he, hledger⟩

end Session

end Smux
