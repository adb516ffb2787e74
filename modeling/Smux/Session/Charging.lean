import Mathlib.Algebra.Ring.Int.Defs
import Smux.Session.Tokens

/-!
# What a payload is charged

`handle_psh_frame` takes `data_len` tokens each time it finds none and gives
`data_len` back once if it discards the payload. So what a call does to the
balance depends on how often it waits: `chargedOnce_iff`.
-/

namespace Smux

open Runs

namespace Session

/-- What a step does to the balance, which wraps. -/
def tokensChange : Session × Act → Int
  | (u, act) =>
    match u.step act with
    | some v => i64 (v.state.tokens - u.state.tokens)
    | none => 0

/-- The tokens that a stream returns in a step: `poll_read` returns one for
each byte. -/
def streamReturns : Session × Act → Int
  | (u, .call k (.pollRead remaining)) =>
    match u.handles[k]? with
    | some handle => i64 (handle.stream.pollRead u.state remaining).1.bytes.length
    | none => 0
  | _ => 0

/-- The change of the balance along a run, less what streams returned. -/
def netEffect (tr : List (Session × Act)) : Int :=
  (tr.map tokensChange).sum - (tr.map streamReturns).sum

/-- The step sends the payload of the frame to its stream. -/
def sendsPayload (frame : Frame) : Session × Act → Bool
  | (u, .recv _) | (u, .tokensReturned) =>
    u.state.getTokens > 0 ∧ ((u.streams frame.streamId).bind u.receiver).isSome
  | _ => false

/-- A run that is one `handle_psh_frame` call, from the frame to the end. -/
structure PshCall (s : Session) (frame : Frame) (tr : List (Session × Act)) (t : Session) : Prop where
  run : Run step s ((s, .recv frame) :: tr) t
  cmd : frame.cmd = .psh
  data : frame.data ≠ []
  waits : ∀ p ∈ tr, p.1.handling ≠ none
  ends : t.handling = none

/-- A payload that reaches its stream is charged, and any other is not. -/
def ChargedOnce (frame : Frame) (tr : List (Session × Act)) : Prop :=
  netEffect tr = if tr.any (sendsPayload frame) then -(frame.data.length : Int) else 0

/-- The call waits when it first looks at the balance, and not when it is
woken up to look again. -/
def waitsOnce (self : Session) : Act → Bool
  | .recv _ => self.state.getTokens ≤ 0
  | .tokensReturned => self.state.getTokens > 0
  | _ => true

/-- What a pass through the loop does: it waits, having taken the tokens, or
sends the payload on, or discards it and credits it. -/
inductive Look (frame : Frame) (w v : Session) : Prop
  | waits (tokensNotified closeNotified : Notified) : w.state.tokens ≤ 0 →
      v.handling = some (.awaitingTokens frame tokensNotified closeNotified) →
      i64 (v.state.tokens - w.state.tokens) = -frame.data.length → Look frame w v
  | sends : 0 < w.state.tokens → v.handling = none →
      ((w.streams frame.streamId).bind w.receiver).isSome →
      i64 (v.state.tokens - w.state.tokens) = 0 → Look frame w v
  | discards : 0 < w.state.tokens → v.handling = none →
      (w.streams frame.streamId).bind w.receiver = none →
      i64 (v.state.tokens - w.state.tokens) = frame.data.length → Look frame w v

/-- What a step does to a call that waits: nothing, or it is woken up to look
at the balance, or it ends as the session closes. -/
inductive Wakes (frame : Frame) (u : Session) : Act → Session → Prop
  | other : v.handling = u.handling → netEffect [(u, act)] = 0 →
      sendsPayload frame (u, act) = false → u.waitsOnce act → Wakes frame u act v
  | looks : Pass u .tokensReturned frame u → Look frame u v → Wakes frame u .tokensReturned v
  | closing : v.handling = none → netEffect [(u, .sessionClosing)] = frame.data.length →
      Wakes frame u .sessionClosing v

section
variable {s u v w t : Session} {act : Act} {tr : List (Session × Act)} {frame : Frame}

theorem netEffect_append (tr tr' : List (Session × Act)) :
    netEffect (tr ++ tr') = netEffect tr + netEffect tr' := by
  simp only [netEffect, List.map_append, List.sum_append]
  omega

theorem netEffect_singleton (hs : u.step act = some v) : netEffect [(u, act)] =
    i64 (v.state.tokens - u.state.tokens) - streamReturns (u, act) := by
  simp [netEffect, tokensChange, hs]

/-- What is credited is what the balance gains, also when it wraps. -/
theorem i64_gain (x y : Int) : i64 (i64 (x + i64 y) - x) = i64 y := by
  simp only [i64, Int.bmod_def]
  omega

theorem i64_loss (x y : Int) (h : i64 y = y) (hy : -2 ^ 63 < y) : i64 (i64 (x - i64 y) - x) = -y := by
  simp only [i64, Int.bmod_def] at h ⊢
  omega

theorem look_of_psh (hpsh : Psh w frame v) (hlen : frame.data.length < 2 ^ 63) : Look frame w v := by
  have hn := i64_of_lt hlen
  cases hpsh with
  | @delivered streamState handle htokens hs hh hlive =>
    refine .sends htokens rfl ?_ (by simp [finish, i64])
    simp [hs, receiver, hh, hlive]
  | @gone streamState htokens hs hdropped =>
    refine .discards htokens rfl ?_ ((i64_gain ..).trans hn)
    rw [hs, Option.bind_some, receiver]
    cases hh : w.handles[streamState.dataTx]? with
    | none => rfl
    | some handle => simp [hdropped handle hh]
  | unknown htokens hs =>
    exact .discards htokens rfl (by rw [hs, Option.bind_none]) ((i64_gain ..).trans hn)
  | waits htokens => exact .waits _ _ htokens rfl (i64_loss _ _ hn (by omega))

theorem pollRead_tokens {this this' : Stream} {state state' : SessionState}
    (h : this.pollRead state remaining = (result, this', state')) :
    i64 (state'.tokens - state.tokens) = i64 result.bytes.length := by
  rcases Stream.pollRead_credits h with ⟨rfl, hnil⟩ | rfl
  · rw [hnil, Int.sub_self]
    rfl
  · exact i64_gain ..

theorem streamReturns_read {handle : Handle} (hk : u.handles[k]? = some handle)
    (hr : handle.stream.pollRead u.state remaining = (result, stream, state')) :
    streamReturns (u, .call k (.pollRead remaining)) = i64 result.bytes.length := by
  simp only [streamReturns, hk, hr]

theorem streamReturns_of_ne (h : ∀ k remaining, act ≠ .call k (.pollRead remaining)) :
    streamReturns (u, act) = 0 := by
  unfold streamReturns
  split
  · rename_i heq
    cases heq
    exact absurd rfl (h _ _)
  · rfl

/-- A stream changes the balance by what it returns, and no other step does
but those of the call. -/
theorem netEffect_other (hs : u.step act = some v) (hpass : ∀ frame w, ¬Pass u act frame w)
    (hact : act ≠ .sessionClosing) : netEffect [(u, act)] = 0 := by
  rw [netEffect_singleton hs]
  have hsame : ∀ {state : SessionState}, (∀ k remaining, act ≠ .call k (.pollRead remaining)) →
      state.tokens = u.state.tokens →
      i64 (state.tokens - u.state.tokens) - streamReturns (u, act) = 0 := by
    intro state hne htokens
    rw [streamReturns_of_ne hne, htokens, Int.sub_self]
    rfl
  cases step_ok hs with
  | called hcalls hk hcall =>
    rcases Handle.step_ok hcall with ⟨remaining, _, _, rfl, -, -, hr, -⟩ | ⟨hne, rfl, -⟩
    · cases hcalls with
      | call =>
        rw [streamReturns_read hk hr]
        exact Int.sub_eq_zero.mpr (pollRead_tokens hr)
    · refine hsame ?_ rfl
      rintro k remaining rfl
      cases hcalls
      exact hne _ rfl
  | psh hp => exact absurd hp (hpass _ _)
  | sessionClosing => exact absurd rfl hact
  | keepAliveTimeout hstate =>
    refine hsame nofun ?_
    rcases hstate with rfl | rfl
    · rfl
    · exact SessionState.close_tokens _
  | close | sendLoopEnded => exact hsame nofun (SessionState.close_tokens _)
  | _ => exact hsame nofun rfl

/-- What a step of the call does to the balance. -/
theorem netEffect_pass (hs : u.step act = some v) (hp : Pass u act frame w) :
    netEffect [(u, act)] = i64 (v.state.tokens - w.state.tokens) := by
  rw [netEffect_singleton hs, hp.same.2.2, streamReturns_of_ne, Int.sub_zero]
  cases hp <;> exact nofun

theorem sendsPayload_pass (hp : Pass u act frame w) : sendsPayload frame (u, act) =
    decide (0 < w.state.tokens ∧ ((w.streams frame.streamId).bind w.receiver).isSome) := by
  cases hp <;> rfl

theorem waitsOnce_first (hp : Pass u (.recv frame) frame w) :
    u.waitsOnce (.recv frame) = decide (w.state.tokens ≤ 0) := by
  cases hp; rfl

theorem waitsOnce_again (hp : Pass u .tokensReturned frame w) :
    u.waitsOnce .tokensReturned = decide (0 < w.state.tokens) := by
  cases hp; rfl

/-- A call that waits, having taken the tokens once and `more` times. -/
structure Waited (frame : Frame) (tr : List (Session × Act)) (u : Session) : Prop where
  handling : ∃ tokensNotified closeNotified,
    u.handling = some (.awaitingTokens frame tokensNotified closeNotified)
  sent : tr.any (sendsPayload frame) = false
  taken : ∃ more : Nat,
    netEffect tr = -((frame.data.length + more * frame.data.length : Nat) : Int) ∧
      (more = 0 ↔ ∀ p ∈ tr, p.1.waitsOnce p.2)

theorem any_sends_snoc (tr : List (Session × Act)) (p : Session × Act) :
    (tr ++ [p]).any (sendsPayload frame) = (tr.any (sendsPayload frame) || sendsPayload frame p) := by
  simp

theorem all_waitsOnce_snoc (tr : List (Session × Act)) (u : Session) (act : Act) :
    (∀ p ∈ tr ++ [(u, act)], p.1.waitsOnce p.2) ↔
      (∀ p ∈ tr, p.1.waitsOnce p.2) ∧ u.waitsOnce act := by
  simp [or_imp, forall_and]

theorem not_look (hrecv : ∀ frame, act ≠ .recv frame) (hagain : act ≠ .tokensReturned) :
    sendsPayload frame (u, act) = false ∧ u.waitsOnce act := by
  cases act with
  | recv frame => exact absurd rfl (hrecv frame)
  | tokensReturned => exact absurd rfl hagain
  | _ => exact ⟨rfl, rfl⟩

theorem wakes_of_step (hlen : frame.data.length < 2 ^ 63)
    (hh : u.handling = some (.awaitingTokens frame tokensNotified closeNotified))
    (hs : u.step act = some v) : Wakes frame u act v := by
  have hother : v.handling = u.handling → (∀ frame, act ≠ .recv frame) → act ≠ .tokensReturned →
      act ≠ .sessionClosing → Wakes frame u act v := by
    intro hkept hrecv hagain hclosing
    have hpass : ∀ frame w, ¬Pass u act frame w := by
      intro frame w hp
      cases hp with
      | first => exact hrecv _ rfl
      | again => exact hagain rfl
    obtain ⟨hsends, hwaits⟩ := not_look hrecv hagain
    exact .other hkept (netEffect_other hs hpass hclosing) hsends hwaits
  cases step_ok hs with
  | ignored hn | syn hn | fin hn => rw [hh] at hn; cases hn
  | accepted hn => rw [hh] at hn; cases hn
  | called hcalls =>
    cases hcalls with
    | call => exact hother rfl nofun nofun nofun
    | accept => exact hother rfl nofun nofun nofun
  | psh hp hpsh =>
    cases hp with
    | first hn => rw [hh] at hn; cases hn
    | again hn =>
      have hp := Pass.again hh
      rw [hh] at hn
      cases hn
      exact .looks hp (look_of_psh hpsh hlen)
  | sessionClosing hn =>
    rw [hh] at hn
    cases hn
    have hno : streamReturns (u, .sessionClosing) = 0 := rfl
    refine .closing rfl ?_
    rw [netEffect_singleton hs, hno, Int.sub_zero]
    exact (i64_gain ..).trans (i64_of_lt hlen)
  | _ => exact hother rfl nofun nofun nofun

/-- A call that ends after it has waited charges the frame once exactly if it
took the tokens once. -/
theorem Waited.ends (h : Waited frame tr u) (hne : frame.data ≠ []) (hwaits : u.waitsOnce act)
    (heffect : netEffect [(u, act)] =
      if sendsPayload frame (u, act) then 0 else (frame.data.length : Int)) :
    ChargedOnce frame (tr ++ [(u, act)]) ↔ ∀ p ∈ tr ++ [(u, act)], p.1.waitsOnce p.2 := by
  obtain ⟨-, hsent, more, hnet, hmore⟩ := h
  have hmul : more * frame.data.length = 0 ↔ more = 0 := by simp [hne]
  rw [ChargedOnce, any_sends_snoc, hsent, Bool.false_or, all_waitsOnce_snoc, netEffect_append, hnet,
    heffect, and_iff_left hwaits, ← hmore, ← hmul]
  cases sendsPayload frame (u, act) with
  | true =>
    simp only [if_true]
    omega
  | false =>
    simp only [Bool.false_eq_true, if_false]
    omega

/-- A call that waits goes on waiting, or ends. -/
theorem waited_step (h : Waited frame tr u) (hne : frame.data ≠ []) (hlen : frame.data.length < 2 ^ 63)
    (hs : u.step act = some v) : Waited frame (tr ++ [(u, act)]) v ∨
      v.handling = none ∧ (ChargedOnce frame (tr ++ [(u, act)]) ↔
        ∀ p ∈ tr ++ [(u, act)], p.1.waitsOnce p.2) := by
  have ⟨⟨_, _, hh⟩, hsent, more, hnet, hmore⟩ := h
  cases wakes_of_step hlen hh hs with
  | other hkept hzero hsends hwaits =>
    refine .inl ⟨⟨_, _, hkept.trans hh⟩, by rw [any_sends_snoc, hsent, hsends]; rfl, more, ?_, ?_⟩
    · rw [netEffect_append, hnet, hzero, Int.add_zero]
    · rw [all_waitsOnce_snoc, and_iff_left hwaits, hmore]
  | looks hp hlook =>
    have hsends := sendsPayload_pass hp
    have hwaits := waitsOnce_again hp
    have hchange := netEffect_pass hs hp
    cases hlook with
    | waits _ _ htokens hhandling htaken =>
      have hnot : ¬0 < u.state.tokens := Int.not_lt.mpr htokens
      refine .inl ⟨⟨_, _, hhandling⟩, by simp [hsent, hsends, hnot], more + 1, ?_, ?_⟩
      · rw [netEffect_append, hnet, hchange, htaken, Nat.add_mul]
        omega
      · rw [all_waitsOnce_snoc, hwaits]
        simp [hnot]
    | sends htokens hend hreceiver hsame =>
      refine .inr ⟨hend, h.ends hne (by simp [hwaits, htokens]) ?_⟩
      rw [hchange, hsame, hsends]
      simp [htokens, hreceiver]
    | discards htokens hend hreceiver hcredit =>
      refine .inr ⟨hend, h.ends hne (by simp [hwaits, htokens]) ?_⟩
      rw [hchange, hcredit, hsends]
      simp [hreceiver]
  | closing hend hcredit => exact .inr ⟨hend, h.ends hne rfl hcredit⟩

/-- The first look of a call: it ends at once, or waits. -/
theorem waited_first (hne : frame.data ≠ []) (hlen : frame.data.length < 2 ^ 63) (hc : frame.cmd = .psh)
    (hs : s.step (.recv frame) = some v) : Waited frame [(s, .recv frame)] v ∨
      v.handling = none ∧ ¬ChargedOnce frame [(s, .recv frame)] ∧ s.waitsOnce (.recv frame) = false := by
  have hpos : frame.data.length ≠ 0 := fun h0 => hne (List.length_eq_zero_iff.mp h0)
  obtain ⟨w, hp, hpsh⟩ : ∃ w, Pass s (.recv frame) frame w ∧ Psh w frame v := by
    cases step_ok hs with
    | called hcalls => cases hcalls
    | ignored _ _ hcase => simp [hc, hne] at hcase
    | syn _ _ h | fin _ _ h => rw [hc] at h; cases h
    | psh hp hpsh =>
      have hp' := hp
      cases hp with
      | first => exact ⟨_, hp', hpsh⟩
  have hsends := sendsPayload_pass hp
  have hwaits := waitsOnce_first hp
  have hchange := netEffect_pass hs hp
  cases look_of_psh hpsh hlen with
  | waits _ _ htokens hhandling htaken =>
    have hnot : ¬0 < w.state.tokens := Int.not_lt.mpr htokens
    refine .inl ⟨⟨_, _, hhandling⟩, by simp [hsends, hnot], 0, ?_, ?_⟩
    · rw [hchange, htaken, Nat.zero_mul, Nat.add_zero]
    · simp [hwaits, htokens]
  | sends htokens hend hreceiver hsame =>
    refine .inr ⟨hend, ?_, by simp [hwaits, htokens]⟩
    simp only [ChargedOnce, hchange, hsame, List.any_cons, hsends, htokens, hreceiver]
    simp
    omega
  | discards htokens hend hreceiver hcredit =>
    refine .inr ⟨hend, ?_, by simp [hwaits, htokens]⟩
    rw [ChargedOnce, hchange, hcredit]
    simp [hsends, hreceiver, hne]

theorem waited_run {before : List (Session × Act)} (h : Waited frame before v) (hne : frame.data ≠ [])
    (hlen : frame.data.length < 2 ^ 63) (hr : Run step v tr t)
    (hwaits : ∀ p ∈ tr, p.1.handling ≠ none) : Waited frame (before ++ tr) t ∨
      t.handling = none ∧ (ChargedOnce frame (before ++ tr) ↔
        ∀ p ∈ before ++ tr, p.1.waitsOnce p.2) := by
  induction hr with
  | nil => exact .inl (by rwa [List.append_nil])
  | @snoc tr u act w _ hs ih =>
    rcases ih fun p hp => hwaits p (List.mem_append_left _ hp) with hu | ⟨hend, -⟩
    · rw [← List.append_assoc]
      exact waited_step hu hne hlen hs
    · exact absurd hend (hwaits (u, act) (by simp))

/-- A call charges its frame once exactly if it waits at its first look at the
balance and at no other. -/
theorem chargedOnce_iff (hcall : PshCall s frame tr t) (hlen : frame.data.length < 2 ^ 63) :
    ChargedOnce frame ((s, .recv frame) :: tr) ↔
      ∀ p ∈ (s, .recv frame) :: tr, p.1.waitsOnce p.2 := by
  obtain ⟨hr, hc, hne, hwaits, hend⟩ := hcall
  have hr : Run step s ([] ++ (s, .recv frame) :: tr) t := hr
  obtain ⟨-, v, hs, hr⟩ := hr.split
  rcases waited_first hne hlen hc hs with hwaited | ⟨hdone, hnot, hfirst⟩
  · rcases waited_run hwaited hne hlen hr hwaits with ⟨⟨_, _, hh⟩, -⟩ | ⟨-, hiff⟩
    · rw [hend] at hh
      cases hh
    · exact hiff
  · obtain rfl : tr = [] := by
      cases tr with
      | nil => rfl
      | cons p tr =>
        obtain ⟨w, act⟩ := p
        have hr : Run step v ([] ++ (w, act) :: tr) t := hr
        obtain rfl := hr.split.1.eq_of_nil
        exact absurd hdone (hwaits (w, act) List.mem_cons_self)
    refine iff_of_false hnot fun hall => ?_
    have := hall _ List.mem_cons_self
    rw [hfirst] at this
    cases this

end

/-- A payload of one byte that finds tokens is delivered uncharged. -/
theorem not_chargedOnce_oneByte : ∃ tr s t, Run step (new .default false) tr s ∧
    PshCall s (.newPsh 1 1 [0]) [] t ∧
    ¬ChargedOnce (.newPsh 1 1 [0]) [(s, .recv (.newPsh 1 1 [0]))] := by
  obtain ⟨tr, s, -, hr, hnet, hsends, hends⟩ := exec_sat step (new .default false)
    [.recv (.newSyn 1 1), .accepted]
    (fun _ s => netEffect [(s, .recv (.newPsh 1 1 [0]))] = 0 ∧
      sendsPayload (.newPsh 1 1 [0]) (s, .recv (.newPsh 1 1 [0])) ∧
      (s.step (.recv (.newPsh 1 1 [0]))).any (·.handling = none)) (by decide)
  obtain ⟨t, hs, hend⟩ := (Option.any_eq_true _ _).mp hends
  refine ⟨tr, s, t, hr, ⟨.cons hs .nil, rfl, by decide, by simp, of_decide_eq_true hend⟩, ?_⟩
  rw [ChargedOnce, hnet, List.any_cons, hsends]
  decide

/-- A session with a stream that holds two bytes, and no tokens left. -/
def drained : Session :=
  let session := ((new .default false).insertStream 1 .held).dispatchPsh (.newPsh 1 1 [7, 8])
  { session with state := { session.state with tokens := 0 } }

/-- A payload that waits until the stream has been read. -/
theorem chargedOnce_read : ∃ tr t, PshCall drained (.newPsh 1 1 [0]) tr t ∧
    tr.map Prod.snd = [.call 0 (.pollRead 2), .tokensReturned] ∧
    ChargedOnce (.newPsh 1 1 [0]) ((drained, .recv (.newPsh 1 1 [0])) :: tr) := by
  obtain ⟨tr, t, -, hr, hacts, hwaits, hend, honce⟩ := exec_sat step
    ({ drained with state := drained.state.markDataReceived }.handleFrame (.newPsh 1 1 [0]))
    [.call 0 (.pollRead 2), .tokensReturned]
    (fun tr t => tr.map Prod.snd = [.call 0 (.pollRead 2), .tokensReturned] ∧
      (∀ p ∈ tr, p.1.handling ≠ none) ∧ t.handling = none ∧ ∀ p ∈ tr, p.1.waitsOnce p.2) (by decide)
  have hs : drained.step (.recv (.newPsh 1 1 [0])) =
      some ({ drained with state := drained.state.markDataReceived }.handleFrame (.newPsh 1 1 [0])) := by
    simp only [step]
    exact if_pos (by decide)
  have hcall : PshCall drained (.newPsh 1 1 [0]) tr t :=
    ⟨.cons hs hr, rfl, by decide, hwaits, hend⟩
  refine ⟨tr, t, hcall, hacts, (chargedOnce_iff hcall (by decide)).mpr ?_⟩
  exact List.forall_mem_cons.mpr ⟨by decide, honce⟩

end Session

end Smux
