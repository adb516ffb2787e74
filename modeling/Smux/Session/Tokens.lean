import Mathlib.Algebra.Ring.Nat
import Smux.Session.Laws

/-!
# Flow control

The token balance starts at `max_receive_buffer`, and `poll_read` returns to
it what it returns to its caller. `handle_psh_frame` takes tokens only before
it waits for more, so a payload that finds tokens is delivered without being
charged, and one that is discarded is credited. What the balance ought to be,
and what streams then hold, is thus lost with the first payload.
-/

namespace Smux

open Runs

namespace Handle

/-- The bytes a live stream holds, in its data channel and its current chunk. -/
def buffered (self : Handle) : Nat :=
  if self.phase = .dropped then 0 else self.stream.unread.length

/-- The bytes delivered to a live stream and not returned by `poll_read`. -/
def unreturned (self : Handle) : Nat :=
  if self.phase = .dropped then 0 else self.delivered.length - self.returned.length

end Handle

namespace Session

def buffered (self : Session) : Nat := (self.handles.map Handle.buffered).sum

def unreturned (self : Session) : Nat := (self.handles.map Handle.unreturned).sum

/-- The step sends the payload of `frame` to a live stream. -/
structure Delivers (u : Session) (act : Act) (frame : Frame) : Prop where
  pass : ∃ w, Pass u act frame w
  tokens : 0 < u.state.tokens
  receiver : ∃ streamState handle, u.streams frame.streamId = some streamState ∧
    u.handles[streamState.dataTx]? = some handle ∧ handle.phase ≠ .dropped

-- ---------------------------------------------------------------------------
-- A total over the handles
-- ---------------------------------------------------------------------------

/-- How a step changes the total of something that new handles have none of
and that disconnecting leaves alone. -/
inductive SumStep (f : Handle → Nat) (u : Session) (act : Act) (v : Session) : Prop
  | same : (v.handles.map f).sum = (u.handles.map f).sum → SumStep f u act v
  | called : Calls u act k call waiting → u.handles[k]? = some handle →
      handle.step u.config u.state u.channelOpen call = some (handle', v.state, sent) →
      (v.handles.map f).sum + f handle = (u.handles.map f).sum + f handle' → SumStep f u act v
  | delivered : Delivers u act frame → handle ∈ u.handles → handle.phase ≠ .dropped →
      (v.handles.map f).sum + f handle = (u.handles.map f).sum + f (handle.deliver frame.data) →
      SumStep f u act v

section
variable {f : Handle → Nat} {u v : Session} {act : Act}

theorem sum_map_set {l : List Handle} {k : Nat} {handle : Handle} (hk : l[k]? = some handle)
    (handle' : Handle) :
    ((l.set k handle').map f).sum + f handle = (l.map f).sum + f handle' := by
  induction l generalizing k with
  | nil => cases hk
  | cons x l ih =>
    cases k with
    | zero =>
      cases hk
      simp only [List.set_cons_zero, List.map_cons, List.sum_cons]
      omega
    | succ k =>
      have := ih hk
      simp only [List.set_cons_succ, List.map_cons, List.sum_cons]
      omega

theorem map_dropEntry (u : Session) (hd : ∀ handle : Handle, f handle.disconnect = f handle)
    (entry : Option StreamState) : (u.dropEntry entry).map f = u.handles.map f := by
  cases entry with
  | none => rfl
  | some streamState =>
    apply List.ext_getElem?
    intro k
    rw [dropEntry, List.getElem?_map, List.getElem?_map, List.getElem?_modify,
      Option.map_eq_map, Option.map_map]
    congr 1
    funext handle
    simp only [Function.comp]
    split
    · exact hd handle
    · rfl

theorem sum_insertStream (u : Session) (hn : ∀ streamId phase, f (.new streamId phase) = 0)
    (hd : ∀ handle : Handle, f handle.disconnect = f handle) (streamId : UInt32) (phase : Phase) :
    ((u.insertStream streamId phase).handles.map f).sum = (u.handles.map f).sum := by
  simp [insertStream, map_dropEntry u hd, hn]

theorem sum_removeStream (u : Session) (hd : ∀ handle : Handle, f handle.disconnect = f handle)
    (streamId : UInt32) :
    ((u.removeStream streamId).handles.map f).sum = (u.handles.map f).sum := by
  simp [removeStream, map_dropEntry u hd]

theorem Pass.same (hp : Pass u act frame w) :
    w.handles = u.handles ∧ w.streams = u.streams ∧ w.state.tokens = u.state.tokens := by
  cases hp <;> exact ⟨rfl, rfl, rfl⟩

theorem psh_sum (hd : ∀ handle : Handle, f handle.disconnect = f handle)
    (hp : Pass u act frame w) (hpsh : Psh w frame v) : SumStep f u act v := by
  obtain ⟨hhandles, hstreams, htokens⟩ := hp.same
  cases hpsh with
  | @delivered streamState handle ht hs hh hlive =>
    have hsum := sum_map_set (f := f) hh (handle.deliver frame.data)
    rw [hhandles] at hh
    exact .delivered ⟨⟨w, hp⟩, htokens ▸ ht, _, _, hstreams ▸ hs, hh, hlive⟩
      (List.mem_of_getElem? hh) hlive (by rw [← hhandles]; exact hsum)
  | gone =>
    refine .same ?_
    rw [← hhandles]
    exact sum_removeStream { w with state := _ } hd frame.streamId
  | unknown => exact .same (by rw [← hhandles]; rfl)
  | waits => exact .same (by rw [← hhandles])

theorem step_sum (hn : ∀ streamId phase, f (.new streamId phase) = 0)
    (hd : ∀ handle : Handle, f handle.disconnect = f handle) (hs : u.step act = some v) :
    SumStep f u act v := by
  cases step_ok hs with
  | register => exact .same (sum_insertStream u hn hd ..)
  | syn => exact .same (sum_insertStream u.received hn hd ..)
  | called hcall hh hstep => exact .called hcall hh hstep (sum_map_set hh _)
  | fin => exact .same (sum_removeStream u.received hd _)
  | psh hp hpsh => exact psh_sum hd hp hpsh
  | _ => exact .same rfl

end

-- ---------------------------------------------------------------------------
-- What streams hold
-- ---------------------------------------------------------------------------

section
variable {config : Config} {isClient : Bool} {u v t : Session} {act : Act}
  {tr : List (Session × Act)}

theorem readable_step (h : ∀ handle ∈ u.handles, handle.Readable) (haw : u.AwaitsPsh)
    (hs : u.step act = some v) : ∀ handle ∈ v.handles, handle.Readable := by
  intro handle' hmem
  rcases step_mem hs hmem with ⟨handle, hm, hstep⟩ | ⟨streamId, phase, rfl, -⟩
  · have hread := h handle hm
    cases hstep with
    | same => exact hread
    | called _ hcall => exact hread.step hcall
    | delivered hp => exact hread.deliver (hp.isPsh haw).2.2
    | disconnected => exact hread.disconnect
  · exact Handle.readable_new streamId phase

theorem buffered_new (streamId : UInt32) (phase : Phase) :
    (Handle.new streamId phase).buffered = 0 := by
  simp [Handle.buffered, Handle.new, Stream.new, Stream.unread, Channel.unbounded]

theorem buffered_deliver (handle : Handle) (chunk : Bytes) (hlive : handle.phase ≠ .dropped) :
    (handle.deliver chunk).buffered = handle.buffered + chunk.length := by
  simp [Handle.buffered, Handle.deliver, hlive, Stream.unread, Channel.send, Nat.add_assoc]

theorem buffered_call {handle handle' : Handle} {state state' : SessionState} {channelOpen : Bool}
    (h : handle.Readable)
    (hs : handle.step config state channelOpen call = some (handle', state', sent)) :
    handle'.buffered ≤ handle.buffered := by
  rcases Handle.step_ok hs with ⟨remaining, result, stream, -, hph, -, hr, rfl⟩ |
    ⟨-, -, phase, isWriteClosed, bytes, rfl, hw⟩
  · have hle := (Stream.read_of_eq h.chunks hr).unread_le
    simpa [Handle.buffered, Handle.read, hph] using hle
  · have hsame : (handle.wrote phase isWriteClosed bytes sent).stream.unread =
        handle.stream.unread := rfl
    rw [Handle.buffered, Handle.buffered, if_neg hw.live, hsame]
    split
    · exact Nat.zero_le _
    · exact Nat.le_refl _

theorem buffered_step (h : ∀ handle ∈ u.handles, handle.Readable) (hs : u.step act = some v) :
    v.buffered ≤ u.buffered ∨
      ∃ frame, Delivers u act frame ∧ v.buffered = u.buffered + frame.data.length := by
  have hd : ∀ handle : Handle, handle.disconnect.buffered = handle.buffered := fun _ => rfl
  cases step_sum buffered_new hd hs with
  | same heq => exact .inl (Nat.le_of_eq heq)
  | called _ hh hcall hsum =>
    have hle := buffered_call (h _ (List.mem_of_getElem? hh)) hcall
    left
    unfold buffered
    omega
  | delivered hdel _ hlive hsum =>
    rw [buffered_deliver _ _ hlive] at hsum
    refine .inr ⟨_, hdel, ?_⟩
    unfold buffered
    omega

def bufferLimit (config : Config) : Nat :=
  config.maxReceiveBuffer + (config.maxFrameSize - headerSize)

theorem Delivers.length_le (hd : Delivers u act frame) (haw : u.AwaitsPsh) :
    frame.data.length ≤ u.config.maxFrameSize - headerSize := by
  obtain ⟨⟨w, hp⟩, -, -⟩ := hd
  have := (hp.isPsh haw).1.size
  omega

/-- Flow control of a session between two frames. -/
structure Bounded (config : Config) (session : Session) : Prop where
  config_eq : session.config = config
  readable : ∀ handle ∈ session.handles, handle.Readable
  awaits : session.AwaitsPsh
  bound : session.buffered ≤ bufferLimit config

theorem bounded_new (config : Config) (isClient : Bool) : (new config isClient).Bounded config :=
  ⟨rfl, by simp [new], (fun _ _ _ h => nomatch h), Nat.zero_le _⟩

theorem bounded_step (h : u.Bounded config)
    (hgate : ∀ frame, Delivers u act frame → u.buffered ≤ config.maxReceiveBuffer)
    (hs : u.step act = some v) : v.Bounded config := by
  obtain ⟨hconfig, hread, haw, hbound⟩ := h
  refine ⟨(step_config hs).trans hconfig, readable_step hread haw hs, awaitsPsh_step haw hs, ?_⟩
  rcases buffered_step hread hs with hle | ⟨frame, hd, heq⟩
  · exact Nat.le_trans hle hbound
  · have hlen := hd.length_le haw
    have hheld := hgate frame hd
    rw [hconfig] at hlen
    unfold bufferLimit
    omega

/-- Streams never hold more than `max_receive_buffer` and one payload, in a
run that delivers a payload only while they hold `max_receive_buffer` at most. -/
theorem buffered_le (hr : Run step (new config isClient) tr t)
    (hgate : ∀ u act frame, (u, act) ∈ tr → Delivers u act frame →
      u.buffered ≤ config.maxReceiveBuffer) :
    ∀ u ∈ visited tr t,
      u.buffered ≤ config.maxReceiveBuffer + (config.maxFrameSize - headerSize) := by
  have hok : ∀ p ∈ tr, ∀ frame, Delivers p.1 p.2 frame → p.1.buffered ≤ config.maxReceiveBuffer :=
    fun p hp frame hd => hgate p.1 p.2 frame hp hd
  have hall := hr.invariant hok (bounded_new config isClient) bounded_step
  exact fun u hu => (hall u hu).bound

end

def tinyConfig : Config := { Config.default with maxFrameSize := 9, maxReceiveBuffer := 9 }

/-- Payloads of one byte on one stream, none of which is read. -/
def flood (n : Nat) : List Act :=
  .recv (.newSyn 1 1) :: .accepted :: List.replicate n (.recv (.newPsh 1 1 [0]))

theorem not_buffered_le_flood : tinyConfig.validate = .ok () ∧ ∃ tr t,
    exec step (new tinyConfig false) (flood 11) = some (tr, t) ∧
      ¬∀ u ∈ visited tr t, u.buffered ≤
        tinyConfig.maxReceiveBuffer + (tinyConfig.maxFrameSize - headerSize) := by
  refine ⟨by decide, ?_⟩
  obtain ⟨tr, t, he, -, hlong⟩ := exec_sat step (new tinyConfig false) (flood 11)
    (fun _ t => tinyConfig.maxReceiveBuffer + (tinyConfig.maxFrameSize - headerSize) < t.buffered)
    (by decide)
  exact ⟨tr, t, he, fun h => Nat.not_lt.mpr (h t (last_visited ..)) hlong⟩

/-- One payload more than the limit, which is the most a delivery adds. -/
theorem buffered_le_flood : ∃ tr t, exec step (new tinyConfig false) (flood 10) = some (tr, t) ∧
    t.buffered = 10 ∧ ∀ u ∈ visited tr t, u.buffered ≤ 10 := by
  obtain ⟨tr, t, he, hr, hlen, hgate⟩ := exec_sat step (new tinyConfig false) (flood 10)
    (fun tr t => t.buffered = 10 ∧ ∀ p ∈ tr, p.1.buffered ≤ tinyConfig.maxReceiveBuffer)
    (by decide)
  exact ⟨tr, t, he, hlen, buffered_le hr fun u act _ hp _ => hgate (u, act) hp⟩

-- ---------------------------------------------------------------------------
-- The balance
-- ---------------------------------------------------------------------------

/-- No `handle_psh_frame` is waiting for tokens. -/
def Idle (self : Session) : Prop :=
  ∀ frame tokensNotified closeNotified,
    self.handling ≠ some (.awaitingTokens frame tokensNotified closeNotified)

/-- The balance and what is out make up `max_receive_buffer`, along a run. -/
def TokensConserved (config : Config) (tr : List (Session × Act)) (t : Session) : Prop :=
  ∀ u ∈ visited tr t, u.Idle → u.state.tokens + u.unreturned = config.maxReceiveBuffer

structure Untouched (config : Config) (session : Session) : Prop where
  config_eq : session.config = config
  idle : session.Idle
  intact : ∀ handle ∈ session.handles, handle.Intact
  delivered : ∀ handle ∈ session.handles, handle.delivered = []
  tokens : session.state.tokens = i64 config.maxReceiveBuffer

def handlesPayload : Act → Bool
  | .recv frame => frame.cmd = .psh ∧ frame.data ≠ []
  | _ => false

section
variable {config : Config} {isClient : Bool} {u v t : Session} {act : Act}
  {tr : List (Session × Act)}

theorem Untouched.no_pass (h : u.Untouched config) (hact : handlesPayload act = false) :
    ¬Pass u act frame w := by
  intro hp
  cases hp with
  | first _ _ hc hne => simp [handlesPayload, hc, hne] at hact
  | again hh => exact h.idle _ _ _ hh

theorem Untouched.unread {handle : Handle} (h : u.Untouched config) (hm : handle ∈ u.handles) :
    handle.stream.unread = [] := by
  have hcons := (h.intact handle hm).conserved
  rw [h.delivered handle hm] at hcons
  exact (List.append_eq_nil_iff.mp hcons).2

theorem Untouched.unreturned (h : u.Untouched config) : u.unreturned = 0 := by
  have hzero : ∀ l : List Handle, (∀ handle ∈ l, handle.delivered = []) →
      (l.map Handle.unreturned).sum = 0 := by
    intro l hl
    induction l with
    | nil => rfl
    | cons handle l ih =>
      rw [List.map_cons, List.sum_cons, ih fun x hx => hl x (List.mem_cons_of_mem _ hx),
        Handle.unreturned, hl handle (List.mem_cons_self ..)]
      split <;> simp
  exact hzero u.handles h.delivered

theorem untouched_call {handle handle' : Handle} {state state' : SessionState} {channelOpen : Bool}
    (hi : handle.Intact) (hun : handle.stream.unread = [])
    (hs : handle.step config state channelOpen call = some (handle', state', sent)) :
    handle'.Intact ∧ handle'.delivered = handle.delivered ∧ state'.tokens = state.tokens := by
  have hq := hi.chunks.queue_eq_nil hun
  refine ⟨hi.step (fun _ => .inr hq) hs, Handle.step_delivered hs, ?_⟩
  rcases Handle.step_ok hs with ⟨remaining, result, stream, -, -, -, hr, rfl⟩ | ⟨-, rfl, -⟩
  · have hread := Stream.read_of_eq hi.chunks hr
    have hun' := hread.conserves fun _ => .inr hq
    have hnil := (List.append_eq_nil_iff.mp (hun'.symm.trans hun)).1
    rw [hread.state_eq, if_pos hnil]
  · rfl

theorem untouched_tokens (h : u.Untouched config) (hact : handlesPayload act = false)
    (hs : u.step act = some v) : v.state.tokens = u.state.tokens ∧ v.Idle := by
  have hidle := h.idle
  cases step_ok hs with
  | called _ hh hcall =>
    have hm := List.mem_of_getElem? hh
    exact ⟨(untouched_call (h.intact _ hm) (h.unread hm) hcall).2.2, hidle⟩
  | psh hp => exact absurd hp (h.no_pass hact)
  | sessionClosing hh => exact absurd hh (hidle _ _ _)
  | keepAliveTimeout hstate =>
    rcases hstate with rfl | rfl
    · exact ⟨rfl, hidle⟩
    · exact ⟨SessionState.close_tokens _, hidle⟩
  | close | sendLoopEnded => exact ⟨SessionState.close_tokens _, hidle⟩
  | ignored | fin | accepted | syn => exact ⟨rfl, nofun⟩
  | _ => exact ⟨rfl, hidle⟩

theorem untouched_step (h : u.Untouched config) (hact : handlesPayload act = false)
    (hs : u.step act = some v) : v.Untouched config := by
  have hhandles : ∀ handle ∈ v.handles, handle.Intact ∧ handle.delivered = [] := by
    intro handle' hmem
    rcases step_mem hs hmem with ⟨handle, hm, hstep⟩ | ⟨streamId, phase, rfl, -⟩
    · have hi := h.intact handle hm
      have hd := h.delivered handle hm
      cases hstep with
      | same => exact ⟨hi, hd⟩
      | called _ hcall =>
        obtain ⟨hi', hd', -⟩ := untouched_call hi (h.unread hm) hcall
        exact ⟨hi', hd'.trans hd⟩
      | delivered hp => exact absurd hp (h.no_pass hact)
      | disconnected => exact ⟨hi.disconnect, hd⟩
    · exact ⟨Handle.intact_new streamId phase, rfl⟩
  obtain ⟨htokens, hidle⟩ := untouched_tokens h hact hs
  exact ⟨(step_config hs).trans h.config_eq, hidle, fun x hx => (hhandles x hx).1,
    fun x hx => (hhandles x hx).2, htokens.trans h.tokens⟩

theorem untouched_new (config : Config) (isClient : Bool) :
    (new config isClient).Untouched config :=
  ⟨rfl, (by intro _ _ _ h; cases h), by simp [new], by simp [new],
    by simp [new, SessionState.new]⟩

theorem i64_of_lt {n : Nat} (h : n < 2 ^ 63) : i64 n = n := by
  simp only [i64, Int.bmod_def]
  omega

/-- The balance never starts at `max_receive_buffer` when that needs 64 bits. -/
theorem lt_of_i64 {n : Nat} (h : i64 n = n) : n < 2 ^ 63 := by
  simp only [i64, Int.bmod_def] at h
  omega

/-- A credit shows, also when it wraps. -/
theorem i64_add_ne {x : Int} {n : Nat} (h0 : n ≠ 0) (hn : n < 2 ^ 63) : i64 (x + i64 n) ≠ x := by
  rw [i64_of_lt hn]
  simp only [i64, Int.bmod_def]
  omega

theorem untouched_run (hr : Run step (new config isClient) tr t)
    (hno : ∀ p ∈ tr, handlesPayload p.2 = false) : ∀ u ∈ visited tr t, u.Untouched config :=
  hr.invariant hno (untouched_new config isClient) untouched_step

theorem psh_of_payload (hact : handlesPayload act) (hs : u.step act = some v) :
    ∃ frame, frame.Valid u.config ∧ frame.data ≠ [] ∧ Psh u.received frame v := by
  cases act with
  | recv frame =>
    obtain ⟨hcmd, hne⟩ : frame.cmd = .psh ∧ frame.data ≠ [] := by simpa [handlesPayload] using hact
    cases step_ok hs with
    | ignored _ _ h =>
      rw [hcmd] at h
      rcases h with h | ⟨_, _, h⟩ | ⟨-, h⟩ | ⟨h, -⟩
      · cases h
      · cases h
      · exact absurd h hne
      · cases h
    | syn _ _ h => rw [hcmd] at h; cases h
    | fin _ _ h => rw [hcmd] at h; cases h
    | called hcall => cases hcall
    | psh hp hpsh =>
      cases hp with
      | first _ hv _ hne => exact ⟨frame, hv, hne, hpsh⟩
  | _ => cases hact

theorem not_conserved_of_payload (hv : config.Valid) (hmax : config.maxReceiveBuffer < 2 ^ 63)
    (h : u.Untouched config) (hact : handlesPayload act) (hs : u.step act = some v) :
    v.Idle ∧ v.state.tokens + v.unreturned ≠ config.maxReceiveBuffer := by
  obtain ⟨frame, hframe, hne, hpsh⟩ := psh_of_payload hact hs
  have htokens : u.received.state.tokens = config.maxReceiveBuffer :=
    h.tokens.trans (i64_of_lt hmax)
  have hpos : (0 : Int) < u.received.state.tokens := by
    have := hv.maxFrameSize_pos
    have := hv.maxFrameSize_le_buffer
    omega
  have hlen : frame.data.length ≠ 0 := fun h => hne (List.length_eq_zero_iff.mp h)
  have hsmall : frame.data.length < 2 ^ 63 := by
    have hsize := hframe.size
    have hmax := hv.maxFrameSize_le
    rw [h.config_eq] at hsize
    omega
  have hcredit := i64_add_ne (x := u.received.state.tokens) hlen hsmall
  have hzero : u.received.unreturned = 0 := h.unreturned
  have hidle : v.handling = none → v.Idle := fun hn => by rw [Idle, hn]; simp
  cases hpsh with
  | @delivered streamState handle _ _ hh hlive =>
    have hsum := sum_map_set (f := Handle.unreturned) hh (handle.deliver frame.data)
    have hm := List.mem_of_getElem? hh
    have hd := h.delivered handle hm
    have hret : handle.returned = [] :=
      (List.append_eq_nil_iff.mp ((h.intact handle hm).conserved.trans hd)).1
    have hold : handle.unreturned = 0 := by simp [Handle.unreturned, hd]
    have hnew : (handle.deliver frame.data).unreturned = frame.data.length := by
      simp [Handle.unreturned, Handle.deliver, hlive, hd, hret]
    refine ⟨hidle rfl, ?_⟩
    unfold unreturned at hzero ⊢
    simp only [finish]
    omega
  | gone =>
    have hsum : (u.received.removeStream frame.streamId).unreturned = u.received.unreturned :=
      sum_removeStream u.received (fun _ => rfl) frame.streamId
    refine ⟨hidle rfl, fun he => hcredit ?_⟩
    have he : i64 (u.received.state.tokens + i64 frame.data.length) +
      (u.received.removeStream frame.streamId).unreturned = config.maxReceiveBuffer := he
    omega
  | unknown =>
    refine ⟨hidle rfl, fun he => hcredit ?_⟩
    have he : i64 (u.received.state.tokens + i64 frame.data.length) + u.received.unreturned =
      config.maxReceiveBuffer := he
    omega
  | waits hle => omega

theorem no_payload_of_conserved (hv : config.Valid) (hmax : config.maxReceiveBuffer < 2 ^ 63)
    (hr : Run step (new config isClient) tr t) (h : TokensConserved config tr t) :
    ∀ p ∈ tr, handlesPayload p.2 = false := by
  induction hr with
  | nil => exact fun p hp => nomatch hp
  | @snoc tr u a v hr hs ih =>
    have hno := ih fun w hw => h w (visited_snoc hw)
    intro p hp
    rcases List.mem_append.mp hp with hp | hp
    · exact hno p hp
    · rw [List.mem_singleton.mp hp]
      cases ha : handlesPayload a with
      | false => rfl
      | true =>
        have hu := untouched_run hr hno u (last_visited ..)
        obtain ⟨hidle, hne⟩ := not_conserved_of_payload hv hmax hu ha hs
        exact absurd (h v (last_visited ..) hidle) hne

/-- The balance and what is out make up `max_receive_buffer` in every idle
state of a run exactly if that fits an `i64` and the run handles no payload. -/
theorem tokensConserved_iff (hv : config.validate = .ok ())
    (hr : Run step (new config isClient) tr t) :
    TokensConserved config tr t ↔
      config.maxReceiveBuffer < 2 ^ 63 ∧ ∀ p ∈ tr, handlesPayload p.2 = false := by
  have hvalid := Config.validate_ok.mp hv
  constructor
  · intro h
    have hnew := untouched_new config isClient
    have hstart := h _ hr.start_visited hnew.idle
    rw [hnew.unreturned, hnew.tokens] at hstart
    have hmax := lt_of_i64 (by simpa using hstart)
    exact ⟨hmax, no_payload_of_conserved hvalid hmax hr h⟩
  · rintro ⟨hmax, hno⟩ u hu -
    have h := untouched_run hr hno u hu
    rw [h.tokens, h.unreturned, i64_of_lt hmax]
    simp

end

/-- A payload of one byte, delivered and then returned, leaves the balance one
above `max_receive_buffer`. -/
theorem not_tokensConserved_oneByte : ∃ tr t,
    exec step (new .default false)
      [.recv (.newSyn 1 1), .accepted, .acceptStream, .recv (.newPsh 1 1 [0]),
        .call 0 (.pollRead 1)] = some (tr, t) ∧
    ¬TokensConserved .default tr t := by
  obtain ⟨tr, t, he, -, hn, htokens⟩ := exec_sat step (new .default false)
    [.recv (.newSyn 1 1), .accepted, .acceptStream, .recv (.newPsh 1 1 [0]), .call 0 (.pollRead 1)]
    (fun _ t => t.handling = none ∧
      t.state.tokens + t.unreturned = Config.default.maxReceiveBuffer + 1) (by decide)
  refine ⟨tr, t, he, fun h => ?_⟩
  have := h t (last_visited ..) (by rw [Idle, hn]; nofun)
  omega

theorem tokensConserved_noPayload : ∃ tr t,
    exec step (new .default false)
      [.recv (.newSyn 1 1), .accepted, .acceptStream, .recv (.newPsh 1 1 []), .recv (.newFin 1 1),
        .call 0 (.pollRead 1), .call 0 (.drop true)] = some (tr, t) ∧
    TokensConserved .default tr t := by
  obtain ⟨tr, t, he, hr, hno⟩ := exec_sat step (new .default false)
    [.recv (.newSyn 1 1), .accepted, .acceptStream, .recv (.newPsh 1 1 []), .recv (.newFin 1 1),
      .call 0 (.pollRead 1), .call 0 (.drop true)]
    (fun tr _ => ∀ p ∈ tr, handlesPayload p.2 = false) (by decide)
  exact ⟨tr, t, he, (tokensConserved_iff (by decide) hr).mpr ⟨by decide, hno⟩⟩

end Session

end Smux
