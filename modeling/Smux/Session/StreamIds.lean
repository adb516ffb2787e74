import Mathlib.Algebra.Ring.Nat
import Smux.Session.Laws

/-!
# Stream ids

`next_stream_id` adds 2 to a counter that wraps, also when it fails. The
`n`-th call therefore sees the first id plus `2 * n`, modulo `2 ^ 32`, and
its result is a function of `n`. Ids are sound for as long as the counter
goes round only once: `idsSound_iff` counts the calls.
-/

namespace Smux

open Runs

namespace Session

-- ---------------------------------------------------------------------------
-- The calls of a run
-- ---------------------------------------------------------------------------

/-- The result of the `next_stream_id` call that a step makes, if it makes
one. -/
def idResult : Session × Act → Option (Result UInt32)
  | (u, .nextStreamId) => some u.nextStreamId.1
  | (u, .openStream) => if u.state.isClosed then none else some u.nextStreamId.1
  | _ => none

def idResults (tr : List (Session × Act)) : List (Result UInt32) := tr.filterMap idResult

/-- The ids returned by the calls of a run. -/
def okIds (tr : List (Session × Act)) : List UInt32 :=
  (idResults tr).filterMap Except.toOption

def initialId (isClient : Bool) : Nat := if isClient then 1 else 2

/-- What a `next_stream_id` call that sees `current` returns. -/
def idOf (current : UInt32) : Result UInt32 :=
  if current > 0xFFFFFFFF - 2 then
    .error (.protocolViolation "Stream ID overflow - session should be restarted")
  else .ok current

def counterAt (isClient : Bool) (n : Nat) : UInt32 := UInt32.ofNat (initialId isClient + 2 * n)

theorem counterAt_succ (isClient : Bool) (n : Nat) :
    counterAt isClient (n + 1) = counterAt isClient n + 2 := by
  apply UInt32.toNat_inj.mp
  simp [counterAt]
  omega

section
variable {config : Config} {isClient : Bool} {u v t : Session} {act : Act}
  {tr : List (Session × Act)}

/-- A step moves the counter exactly if it makes a call. -/
theorem step_idCounter (hs : u.step act = some v) :
    v.idCounter = u.idCounter ∧ idResult (u, act) = none ∨
      v.idCounter = u.idCounter + 2 ∧ idResult (u, act) = some (idOf u.idCounter) := by
  cases step_ok hs with
  | nextStreamId => exact .inr ⟨rfl, rfl⟩
  | openClosed hc => exact .inl ⟨rfl, if_pos hc⟩
  | openFailed hc => exact .inr ⟨rfl, if_neg (by simp [SessionState.isClosed, hc])⟩
  | opened hc => exact .inr ⟨rfl, if_neg (by simp [SessionState.isClosed, hc])⟩
  | called hcall => cases hcall <;> exact .inl ⟨rfl, rfl⟩
  | psh hp hpsh => cases hp <;> cases hpsh <;> exact .inl ⟨rfl, rfl⟩
  | _ => exact .inl ⟨rfl, rfl⟩

theorem idResults_snoc (tr : List (Session × Act)) (u : Session) (act : Act) :
    idResults (tr ++ [(u, act)]) = idResults tr ++ (idResult (u, act)).toList := by
  cases hi : idResult (u, act) <;> simp [idResults, hi]

theorem idResults_run (hr : Run step (new config isClient) tr t) :
    idResults tr = (List.range (idResults tr).length).map (fun n => idOf (counterAt isClient n)) ∧
      t.idCounter = counterAt isClient (idResults tr).length := by
  induction hr with
  | nil => exact ⟨rfl, by cases isClient <;> rfl⟩
  | @snoc tr u a v _ hs ih =>
    obtain ⟨hres, hcount⟩ := ih
    rw [idResults_snoc]
    rcases step_idCounter hs with ⟨hc, hi⟩ | ⟨hc, hi⟩
    · rw [hi]
      simp only [Option.toList_none, List.append_nil]
      exact ⟨hres, hc.trans hcount⟩
    · rw [hi, hcount]
      simp only [Option.toList_some, List.length_append, List.length_singleton, List.range_succ,
        List.map_append, List.map_singleton]
      exact ⟨by rw [← hres], by rw [hc, hcount, counterAt_succ]⟩

end

-- ---------------------------------------------------------------------------
-- Once round
-- ---------------------------------------------------------------------------

def callLimit (isClient : Bool) : Nat := if isClient then 2 ^ 31 else 2 ^ 31 - 1

/-- The ids a session opens, by the last bit. -/
def Own (isClient : Bool) (streamId : UInt32) : Prop := streamId % 2 = if isClient then 1 else 0

section
variable {isClient : Bool} {n m : Nat}

theorem toNat_counterAt (h : n < callLimit isClient) :
    (counterAt isClient n).toNat = initialId isClient + 2 * n := by
  have : initialId isClient + 2 * n < 2 ^ 32 := by
    cases isClient <;> simp [initialId, callLimit] at * <;> omega
  simpa [counterAt] using this

theorem counterAt_inj (hn : n < callLimit isClient) (hm : m < callLimit isClient)
    (h : counterAt isClient n = counterAt isClient m) : n = m := by
  have := congrArg UInt32.toNat h
  rw [toNat_counterAt hn, toNat_counterAt hm] at this
  omega

theorem counterAt_ne_zero (h : n < callLimit isClient) : counterAt isClient n ≠ 0 := by
  intro h0
  have := congrArg UInt32.toNat h0
  rw [toNat_counterAt h] at this
  cases isClient <;> simp [initialId] at this

theorem own_counterAt (isClient : Bool) (n : Nat) : Own isClient (counterAt isClient n) := by
  apply UInt32.toNat_inj.mp
  rw [UInt32.toNat_mod, counterAt, UInt32.toNat_ofNat']
  cases isClient <;> simp only [initialId] <;> dsimp <;> omega

theorem idOf_counterAt (h : n < callLimit isClient) : idOf (counterAt isClient n) =
    if n + 1 = callLimit isClient then
      .error (.protocolViolation "Stream ID overflow - session should be restarted")
    else .ok (counterAt isClient n) := by
  have hnat := toNat_counterAt h
  have hiff : counterAt isClient n > 0xFFFFFFFF - 2 ↔ n + 1 = callLimit isClient := by
    rw [gt_iff_lt, UInt32.lt_iff_toNat_lt, hnat]
    cases isClient <;> simp [initialId, callLimit] at * <;> omega
  unfold idOf
  simp only [hiff]

/-- Once the counter has gone round, a call starts over. -/
theorem idOf_counterAt_limit (isClient : Bool) :
    idOf (counterAt isClient (callLimit isClient)) = .ok (if isClient then 1 else 0) := by
  cases isClient <;> rfl

end

-- ---------------------------------------------------------------------------
-- The streams map
-- ---------------------------------------------------------------------------

section
variable {config : Config} {isClient : Bool} {u v t : Session} {act : Act}
  {tr : List (Session × Act)} {streamId : UInt32}

theorem not_own_of_peer (h : u.validatePeerStreamId streamId = .ok ()) :
    ¬Own u.isClient streamId := by
  intro ho
  unfold Own at ho
  simp only [validatePeerStreamId, ho] at h
  cases hc : u.isClient <;> simp [hc] at h

/-- Only a `register` puts an id of one's own in the streams map. -/
theorem step_streams (hs : u.step act = some v) (ho : Own u.isClient streamId)
    (hv : v.streams streamId ≠ none) :
    u.streams streamId ≠ none ∨ act = .register streamId ∧ streamId ∈ u.allocated := by
  have hremove : ∀ {w : Session} {i : UInt32}, (w.removeStream i).streams streamId ≠ none →
      w.streams streamId ≠ none := by
    intro w i h
    simp only [removeStream] at h
    split at h
    · exact absurd rfl h
    · exact h
  cases step_ok hs with
  | @register i hi =>
    simp only [insertStream] at hv
    split at hv
    · rename_i he
      exact .inr ⟨by rw [he], he ▸ hi⟩
    · exact .inl hv
  | syn _ _ _ hr =>
    simp only [insertStream] at hv
    split at hv
    · rename_i he
      refine absurd (he ▸ ho) (not_own_of_peer ?_)
      exact Classical.not_not.mp fun h => hr (.inl h)
    · exact .inl hv
  | fin => exact .inl (hremove hv)
  | psh hp hpsh =>
    cases hp <;> cases hpsh with
    | gone => exact .inl (hremove hv)
    | _ => exact .inl hv
  | _ => exact .inl hv

/-- Ids within the limit: one that is fetched is not in the map until it is
registered. -/
structure IdsFresh (isClient : Bool) (n : Nat) (session : Session) : Prop where
  role : session.isClient = isClient
  fetched : ∀ i, i ∈ session.allocated ∨ Own isClient i ∧ session.streams i ≠ none →
    ∃ j < n, i = counterAt isClient j
  distinct : session.allocated.Nodup
  unregistered : ∀ i ∈ session.allocated, session.streams i = none

theorem idsFresh_new (config : Config) (isClient : Bool) : (new config isClient).IdsFresh isClient 0 where
  role := rfl
  fetched i h := by rcases h with h | ⟨-, h⟩ <;> exact absurd h (by simp [new])
  distinct := List.nodup_nil
  unregistered i h := by cases h

theorem step_allocated (hs : u.step act = some v) :
    (v.allocated = u.allocated ∧ ∀ i, act ≠ .register i) ∨
    (∃ i, act = .openStream ∧ idResult (u, act) = some (.ok i) ∧ i = u.idCounter ∧
      v.allocated = i :: u.allocated) ∨
    (∃ i, act = .register i ∧ i ∈ u.allocated ∧ v.allocated = u.allocated.erase i) := by
  cases step_ok hs with
  | @opened i hc hid =>
    have hi : i = u.idCounter := by
      simp only [nextStreamId] at hid
      split at hid <;> cases hid
      rfl
    refine .inr (.inl ⟨i, rfl, ?_, hi, rfl⟩)
    rw [idResult, if_neg (by simp [SessionState.isClosed, hc]), hid]
  | @register i hi => exact .inr (.inr ⟨i, rfl, hi, rfl⟩)
  | called hcall => cases hcall <;> exact .inl ⟨rfl, by rintro _ ⟨⟩⟩
  | psh hp hpsh => cases hp <;> cases hpsh <;> exact .inl ⟨rfl, by rintro _ ⟨⟩⟩
  | _ => exact .inl ⟨rfl, by rintro _ ⟨⟩⟩

/-- An id in the streams map after a step was fetched before it. -/
theorem IdsFresh.mapped (h : u.IdsFresh isClient n) (hs : u.step act = some v)
    (ho : Own isClient streamId) (hv : v.streams streamId ≠ none) :
    ∃ j < n, streamId = counterAt isClient j := by
  rcases step_streams hs (h.role ▸ ho) hv with hu | ⟨-, hi⟩
  · exact h.fetched streamId (.inr ⟨ho, hu⟩)
  · exact h.fetched streamId (.inl hi)

/-- An id that stays allocated is not registered by the step. -/
theorem IdsFresh.kept (h : u.IdsFresh isClient n) (hs : u.step act = some v)
    (hi : streamId ∈ u.allocated) (hact : act ≠ .register streamId) : v.streams streamId = none := by
  refine Classical.not_not.mp fun hv => ?_
  obtain ⟨j, -, rfl⟩ := h.fetched streamId (.inl hi)
  rcases step_streams hs (h.role ▸ own_counterAt isClient j) hv with hu | ⟨hr, -⟩
  · exact hu (h.unregistered _ hi)
  · exact hact hr

theorem fetched_later {m : Nat} (h : ∃ j < n, streamId = counterAt isClient j) (hm : n ≤ m) :
    ∃ j < m, streamId = counterAt isClient j := by
  obtain ⟨j, hj, rfl⟩ := h
  exact ⟨j, Nat.lt_of_lt_of_le hj hm, rfl⟩

/-- `open_stream` fetches the next id of the counter, which is new. -/
theorem IdsFresh.fetch (h : u.IdsFresh isClient n) (hc : u.idCounter = counterAt isClient n)
    (hs : u.step .openStream = some v) (ha : v.allocated = u.idCounter :: u.allocated)
    (hn : n + 1 ≤ callLimit isClient) : v.IdsFresh isClient (n + 1) := by
  have hnew : ∀ j < n, u.idCounter ≠ counterAt isClient j := by
    intro j hj he
    have := counterAt_inj (by omega) (by omega) (hc.symm.trans he)
    omega
  refine ⟨(step_isClient hs).trans h.role, ?_, ?_, ?_⟩
  · rintro i (hi | ⟨ho, hv⟩)
    · rw [ha] at hi
      rcases List.mem_cons.mp hi with rfl | hi
      · exact ⟨n, by omega, hc⟩
      · exact fetched_later (h.fetched i (.inl hi)) (by omega)
    · exact fetched_later (h.mapped hs ho hv) (by omega)
  · rw [ha]
    refine List.nodup_cons.mpr ⟨fun hmem => ?_, h.distinct⟩
    obtain ⟨j, hj, he⟩ := h.fetched _ (.inl hmem)
    exact hnew j hj he
  · intro i hi
    rw [ha] at hi
    rcases List.mem_cons.mp hi with rfl | hi
    · refine Classical.not_not.mp fun hv => ?_
      obtain ⟨j, hj, he⟩ := h.mapped hs (hc ▸ own_counterAt isClient n) hv
      exact hnew j hj he
    · exact h.kept hs hi nofun

theorem idsFresh_step (h : u.IdsFresh isClient n) (hc : u.idCounter = counterAt isClient n)
    (hs : u.step act = some v)
    (hn : n + (idResult (u, act)).toList.length ≤ callLimit isClient) :
    v.IdsFresh isClient (n + (idResult (u, act)).toList.length) := by
  have hrole := (step_isClient hs).trans h.role
  have hle : n ≤ n + (idResult (u, act)).toList.length := Nat.le_add_right ..
  rcases step_allocated hs with ⟨ha, hact⟩ | ⟨i, rfl, hi, rfl, ha⟩ | ⟨i, rfl, hi, ha⟩
  · refine ⟨hrole, ?_, ha ▸ h.distinct, ?_⟩
    · rintro i (hi | ⟨ho, hv⟩)
      · exact fetched_later (h.fetched i (.inl (ha ▸ hi))) hle
      · exact fetched_later (h.mapped hs ho hv) hle
    · intro i hi
      exact h.kept hs (ha ▸ hi) (hact i)
  · rw [hi, Option.toList_some, List.length_singleton] at hn ⊢
    exact h.fetch hc hs ha hn
  · refine ⟨hrole, ?_, ha ▸ h.distinct.erase i, ?_⟩
    · rintro k (hk | ⟨ho, hv⟩)
      · exact fetched_later (h.fetched k (.inl (List.mem_of_mem_erase (ha ▸ hk)))) hle
      · exact fetched_later (h.mapped hs ho hv) hle
    · intro k hk
      rw [ha] at hk
      refine h.kept hs (List.mem_of_mem_erase hk) ?_
      rintro ⟨⟩
      exact h.distinct.not_mem_erase hk

theorem idsFresh_run (hr : Run step (new config isClient) tr t)
    (hn : (idResults tr).length ≤ callLimit isClient) :
    t.IdsFresh isClient (idResults tr).length ∧
      ∀ u i, (u, .register i) ∈ tr → u.streams i = none := by
  induction hr with
  | nil => exact ⟨idsFresh_new config isClient, fun u i h => nomatch h⟩
  | @snoc tr u a v hr hs ih =>
    rw [idResults_snoc, List.length_append] at hn ⊢
    obtain ⟨hfresh, hreg⟩ := ih (by omega)
    refine ⟨idsFresh_step hfresh (idResults_run hr).2 hs hn, fun w i hw => ?_⟩
    rcases List.mem_append.mp hw with hw | hw
    · exact hreg w i hw
    · cases List.mem_singleton.mp hw
      simp only [step] at hs
      split at hs
      · exact hfresh.unregistered i ‹_›
      · cases hs

end

-- ---------------------------------------------------------------------------
-- Runs
-- ---------------------------------------------------------------------------

/-- Ids along a run are never reused or invalid. -/
structure IdsSound (isClient : Bool) (tr : List (Session × Act)) : Prop where
  distinct : (okIds tr).Nodup
  nonzero : ∀ i ∈ okIds tr, i ≠ 0
  parity : ∀ i ∈ okIds tr, Own isClient i
  /-- After one overflow error every call fails. -/
  sticky : ∀ (j k : Nat) (e : SmuxError) (r : Result UInt32),
    (idResults tr)[j]? = some (.error e) → j < k → (idResults tr)[k]? = some r → r = .error e
  /-- `open_stream` overwrites no entry of the streams map. -/
  fresh : ∀ u i, (u, .register i) ∈ tr → u.streams i = none

section
variable {config : Config} {isClient : Bool} {t : Session} {tr : List (Session × Act)}

theorem getElem_idResults (hr : Run step (new config isClient) tr t) {r : Result UInt32} :
    (idResults tr)[n]? = some r ↔
      n < (idResults tr).length ∧ idOf (counterAt isClient n) = r := by
  by_cases h : n < (idResults tr).length
  · conv => lhs; rw [(idResults_run hr).1]
    simp [h]
  · simp [h]

theorem eq_of_idOf {i current : UInt32} (h : (idOf current).toOption = some i) : current = i := by
  unfold idOf at h
  split at h <;> cases h
  rfl

theorem okIds_run (hr : Run step (new config isClient) tr t) : okIds tr =
    (List.range (idResults tr).length).filterMap
      (fun n => (idOf (counterAt isClient n)).toOption) := by
  conv => lhs; rw [okIds, (idResults_run hr).1]
  rw [List.filterMap_map]
  rfl

theorem idsSound_of_le (hr : Run step (new config isClient) tr t)
    (hn : (idResults tr).length ≤ callLimit isClient) : IdsSound isClient tr := by
  have hmem : ∀ i ∈ okIds tr, ∃ n < callLimit isClient, i = counterAt isClient n := by
    intro i hi
    rw [okIds_run hr] at hi
    obtain ⟨n, hrange, hid⟩ := List.mem_filterMap.mp hi
    exact ⟨n, by have := List.mem_range.mp hrange; omega, (eq_of_idOf hid).symm⟩
  refine ⟨?_, ?_, ?_, ?_, (idsFresh_run hr hn).2⟩
  · rw [okIds_run hr]
    refine List.pairwise_filterMap.mpr (List.pairwise_iff_getElem.mpr ?_)
    intro j k hj hk hjk i hi i' hi' he
    simp only [List.length_range, List.getElem_range] at hj hk hi hi'
    have := counterAt_inj (by omega) (by omega) ((eq_of_idOf hi).trans (he.trans (eq_of_idOf hi').symm))
    omega
  · intro i hi
    obtain ⟨n, hlt, rfl⟩ := hmem i hi
    exact counterAt_ne_zero hlt
  · intro i hi
    obtain ⟨n, -, rfl⟩ := hmem i hi
    exact own_counterAt isClient n
  · intro j k e r hj hjk hk
    obtain ⟨hj, he⟩ := (getElem_idResults hr).mp hj
    obtain ⟨hk, -⟩ := (getElem_idResults hr).mp hk
    rw [idOf_counterAt (by omega), if_neg (by omega)] at he
    cases he

theorem length_le_of_idsSound (hr : Run step (new config isClient) tr t)
    (h : IdsSound isClient tr) : (idResults tr).length ≤ callLimit isClient := by
  refine Nat.not_lt.mp fun hlong => ?_
  obtain ⟨n, hn⟩ : ∃ n, n + 1 = callLimit isClient := ⟨callLimit isClient - 1, by
    cases isClient <;> rfl⟩
  have hlast := idOf_counterAt (by omega : n < callLimit isClient)
  rw [if_pos hn] at hlast
  have heq := h.sticky n (n + 1) _ _ ((getElem_idResults hr).mpr ⟨by omega, hlast⟩) (by omega)
    ((getElem_idResults hr).mpr ⟨by omega, hn ▸ idOf_counterAt_limit isClient⟩)
  cases heq

/-- Ids are sound along a run exactly if the run makes at most `2 ^ 31` calls
of `next_stream_id` on a client, `2 ^ 31 - 1` on a server. -/
theorem idsSound_iff (hr : Run step (new config isClient) tr t) :
    IdsSound isClient tr ↔ (idResults tr).length ≤ if isClient then 2 ^ 31 else 2 ^ 31 - 1 :=
  ⟨length_le_of_idsSound hr, idsSound_of_le hr⟩

end

theorem exists_run_calls (s : Session) (n : Nat) : ∃ tr t, Run step s tr t ∧
    tr.map Prod.snd = List.replicate n .nextStreamId := by
  induction n with
  | zero => exact ⟨[], s, .nil, rfl⟩
  | succ n ih =>
    obtain ⟨tr, t, hr, hacts⟩ := ih
    exact ⟨_, _, hr.snoc (show step t .nextStreamId = some t.nextStreamId.2 from rfl),
      by simp [hacts, List.replicate_succ']⟩

theorem length_idResults_of_calls {tr : List (Session × Act)}
    (h : tr.map Prod.snd = List.replicate n .nextStreamId) : (idResults tr).length = n := by
  have hlen : tr.length = n := by simpa using congrArg List.length h
  have hall : ∀ p ∈ tr, (idResult p).isSome := by
    intro p hp
    obtain ⟨u, act⟩ := p
    have hmem : act ∈ List.replicate n Act.nextStreamId := h ▸ List.mem_map_of_mem hp
    obtain ⟨-, rfl⟩ := List.mem_replicate.mp hmem
    rfl
  rw [idResults, List.length_filterMap_eq_countP, List.countP_eq_length.mpr hall, hlen]

/-- The call after the overflow error of a client returns id 1 again. -/
theorem not_idsSound_overflow : ∃ tr t, Run step (new .default true) tr t ∧
    tr.map Prod.snd = List.replicate (2 ^ 31 + 1) .nextStreamId ∧ ¬IdsSound true tr := by
  obtain ⟨tr, t, hr, hacts⟩ := exists_run_calls (new .default true) (2 ^ 31 + 1)
  refine ⟨tr, t, hr, hacts, fun h => ?_⟩
  have hle := length_le_of_idsSound hr h
  rw [length_idResults_of_calls hacts] at hle
  exact absurd hle (by decide)

/-- Two streams of a server, opened with their insertions the other way round. -/
theorem idsSound_two_streams : ∃ tr t, Run step (new .default false) tr t ∧
    okIds tr = [2, 4] ∧ IdsSound false tr := by
  obtain ⟨tr, t, -, hr, hids, hlen⟩ := exec_sat step (new .default false)
    [.openStream, .openStream, .register 4, .register 2]
    (fun tr _ => okIds tr = [2, 4] ∧ (idResults tr).length ≤ 2 ^ 31 - 1) (by decide)
  exact ⟨tr, t, hr, hids, (idsSound_iff hr).mpr hlen⟩

end Session

end Smux
