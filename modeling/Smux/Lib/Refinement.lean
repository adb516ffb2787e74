import Smux.Lib.Runs

/-!
# Refinement

A specification is a relation on states of its own, whose labels are what can
be seen of a step. A step of the system that shows nothing leaves the state of
the specification alone. With a `Simulation` between the two, what a run of
the system shows is a trace of the specification.

`Each spec` is a family of specifications, one for each index, that have
nothing to do with each other: its traces are those of its members.
-/

namespace Runs

inductive Trace (spec : τ → ω → τ → Prop) (x : τ) : List ω → τ → Prop
  | nil : Trace spec x [] x
  | snoc : Trace spec x seen y → spec y o z → Trace spec x (seen ++ [o]) z

/-- What a run shows. -/
def shown (observe : σ → α → Option ω) (tr : List (σ × α)) : List ω :=
  tr.filterMap fun p => observe p.1 p.2

structure Simulation (step : σ → α → Option σ) (ok : σ × α → Prop) (observe : σ → α → Option ω)
    (spec : τ → ω → τ → Prop) (R : σ → τ → Prop) : Prop where
  silent : ∀ {s a t x}, R s x → ok (s, a) → step s a = some t → observe s a = none → R t x
  visible : ∀ {s a t x o}, R s x → ok (s, a) → step s a = some t → observe s a = some o →
    ∃ y, spec x o y ∧ R t y

section
variable {step : σ → α → Option σ} {ok : σ × α → Prop} {observe : σ → α → Option ω}
  {spec : τ → ω → τ → Prop} {R : σ → τ → Prop} {s t : σ} {tr : List (σ × α)} {x y : τ}

theorem Simulation.trace (h : Simulation step ok observe spec R) (hr : Run step s tr t)
    (hok : ∀ p ∈ tr, ok p) (h0 : R s x) : ∃ y, Trace spec x (shown observe tr) y ∧ R t y := by
  induction hr with
  | nil => exact ⟨x, .nil, h0⟩
  | @snoc tr t a u _ hs ih =>
    obtain ⟨y, hy, hR⟩ := ih fun p hp => hok p (List.mem_append_left _ hp)
    have ha : ok (t, a) := hok _ (by simp)
    have hsnoc : shown observe (tr ++ [(t, a)]) = shown observe tr ++ (observe t a).toList := by
      cases ho : observe t a <;> simp [shown, ho]
    rw [hsnoc]
    cases ho : observe t a with
    | none => exact ⟨y, by simpa using hy, h.silent hR ha hs ho⟩
    | some o =>
      obtain ⟨z, hz, hR'⟩ := h.visible hR ha hs ho
      exact ⟨z, hy.snoc hz, hR'⟩

theorem Trace.invariant {P : List ω → τ → Prop} (h : Trace spec x seen y) (h0 : P [] x)
    (hstep : ∀ {seen y o z}, P seen y → spec y o z → P (seen ++ [o]) z) : P seen y := by
  induction h with
  | nil => exact h0
  | snoc _ hs ih => exact hstep ih hs

theorem Trace.split {before after : List ω} {o : ω} (h : Trace spec x (before ++ o :: after) z) :
    ∃ y y', Trace spec x before y ∧ spec y o y' := by
  generalize hseen : before ++ o :: after = seen at h
  induction h generalizing after with
  | nil => simp at hseen
  | @snoc seen y o' z hy hs ih =>
    rcases List.eq_nil_or_concat after with rfl | ⟨more, last, rfl⟩
    · obtain ⟨rfl, ho⟩ := List.append_inj' hseen rfl
      cases ho
      exact ⟨y, z, hy, hs⟩
    · rw [List.concat_eq_append, ← List.cons_append, ← List.append_assoc] at hseen
      exact ih (List.append_inj' hseen rfl).1

end

-- ---------------------------------------------------------------------------
-- Independent members
-- ---------------------------------------------------------------------------

def Each (spec : τ → ω → τ → Prop) (x : ι → τ) (o : ι × ω) (y : ι → τ) : Prop :=
  spec (x o.1) o.2 (y o.1) ∧ ∀ i, i ≠ o.1 → y i = x i

/-- What is seen of one member. -/
def seenOf [DecidableEq ι] (i : ι) (seen : List (ι × ω)) : List ω :=
  (seen.filter (·.1 = i)).map Prod.snd

theorem Trace.member [DecidableEq ι] {spec : τ → ω → τ → Prop} {x y : ι → τ}
    (h : Trace (Each spec) x seen y) (i : ι) : Trace spec (x i) (seenOf i seen) (y i) := by
  induction h with
  | nil => exact .nil
  | @snoc seen y o z _ hs ih =>
    obtain ⟨hspec, hkept⟩ := hs
    by_cases hi : o.1 = i
    · subst hi
      have hseen : seenOf o.1 (seen ++ [o]) = seenOf o.1 seen ++ [o.2] := by simp [seenOf]
      rw [hseen]
      exact ih.snoc hspec
    · have hseen : seenOf i (seen ++ [o]) = seenOf i seen := by simp [seenOf, hi]
      rw [hseen, hkept i (Ne.symm hi)]
      exact ih

end Runs
