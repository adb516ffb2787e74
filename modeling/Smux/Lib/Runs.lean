/-!
# Runs of a step function

A system is a partial step function `step : σ → α → Option σ`, where `none`
says that the action is not enabled. `Run step s tr t` is a finite run from
`s` to `t`. Its trace `tr` pairs each action with the state it was taken in,
so that a condition on the steps of a run is a condition on the members of
its trace, and `visited tr t` are the states it goes through.

`Run.invariant` is the induction every safety proof uses: what holds at the
start and is kept by each step that meets the condition holds in every state
visited.
-/

namespace Runs

theorem bind_return {x : Option α} {f : α → β} (h : (do return f (← x)) = some b) :
    ∃ a, x = some a ∧ f a = b := by
  simpa [Option.bind_eq_some_iff] using h

inductive Run (step : σ → α → Option σ) (s : σ) : List (σ × α) → σ → Prop
  | nil : Run step s [] s
  | snoc : Run step s tr t → step t a = some u → Run step s (tr ++ [(t, a)]) u

/-- The states of a run, the last one included. -/
def visited (tr : List (σ × α)) (t : σ) : List σ := tr.map Prod.fst ++ [t]

@[simp] theorem mem_visited {tr : List (σ × α)} :
    u ∈ visited tr t ↔ (∃ a, (u, a) ∈ tr) ∨ u = t := by
  simp [visited]

theorem visited_of_mem {tr : List (σ × α)} (h : (u, a) ∈ tr) : u ∈ visited tr t :=
  mem_visited.mpr (.inl ⟨a, h⟩)

theorem last_visited (tr : List (σ × α)) (t : σ) : t ∈ visited tr t := mem_visited.mpr (.inr rfl)

theorem visited_snoc {tr : List (σ × α)} (h : u ∈ visited tr t) : u ∈ visited (tr ++ [(t, a)]) v := by
  rcases mem_visited.mp h with ⟨b, hb⟩ | rfl
  · exact visited_of_mem (List.mem_append_left _ hb)
  · exact visited_of_mem (List.mem_append_right _ (List.mem_singleton.mpr rfl))

section
variable {step : σ → α → Option σ} {s t : σ} {tr : List (σ × α)}

theorem Run.invariant {Inv : σ → Prop} {ok : σ × α → Prop} (hr : Run step s tr t)
    (hok : ∀ p ∈ tr, ok p) (h0 : Inv s)
    (hstep : ∀ {t a u}, Inv t → ok (t, a) → step t a = some u → Inv u) :
    ∀ u ∈ visited tr t, Inv u := by
  have hlast : Inv t ∧ ∀ p ∈ tr, Inv p.1 := by
    induction hr with
    | nil => exact ⟨h0, by simp⟩
    | @snoc tr t a u _ hs ih =>
      obtain ⟨ht, hall⟩ := ih fun p hp => hok p (List.mem_append_left _ hp)
      refine ⟨hstep ht (hok (t, a) (by simp)) hs, fun p hp => ?_⟩
      rcases List.mem_append.mp hp with hp | hp
      · exact hall p hp
      · rw [List.mem_singleton.mp hp]; exact ht
  intro u hu
  rcases mem_visited.mp hu with ⟨a, ha⟩ | rfl
  · exact hlast.2 _ ha
  · exact hlast.1

theorem Run.always {Inv : σ → Prop} (hr : Run step s tr t) (h0 : Inv s)
    (hstep : ∀ {t a u}, Inv t → step t a = some u → Inv u) : ∀ u ∈ visited tr t, Inv u := by
  exact hr.invariant (fun _ _ => trivial) h0 fun ht (_ : True) hs => hstep ht hs

theorem Run.cons (hs : step s a = some u) (hr : Run step u tr t) :
    Run step s ((s, a) :: tr) t := by
  induction hr with
  | nil => exact Run.nil.snoc hs
  | snoc _ hs' ih => exact ih.snoc hs'

theorem Run.eq_of_nil (hr : Run step s [] t) : t = s := by
  generalize htr : ([] : List (σ × α)) = tr at hr
  cases hr with
  | nil => rfl
  | snoc => simp at htr

theorem Run.start_visited (hr : Run step s tr t) : s ∈ visited tr t := by
  induction hr with
  | nil => exact last_visited ..
  | snoc _ _ ih => exact visited_snoc ih

theorem Run.split (hr : Run step s (tr₁ ++ (u, a) :: tr₂) t) :
    Run step s tr₁ u ∧ ∃ v, step u a = some v ∧ Run step v tr₂ t := by
  generalize htr : tr₁ ++ (u, a) :: tr₂ = tr at hr
  induction hr generalizing tr₂ with
  | nil => simp at htr
  | @snoc tr' t' a' u' hr' hs ih =>
    rcases List.eq_nil_or_concat tr₂ with rfl | ⟨l, p, rfl⟩
    · obtain ⟨rfl, hp⟩ := List.append_inj' htr rfl
      obtain ⟨rfl, rfl⟩ := Prod.mk.inj (List.cons.inj hp).1
      exact ⟨hr', u', hs, .nil⟩
    · rw [List.concat_eq_append, ← List.cons_append, ← List.append_assoc] at htr
      obtain ⟨hl, hp⟩ := List.append_inj' htr rfl
      obtain rfl := (List.cons.inj hp).1
      obtain ⟨h1, v, hv, h2⟩ := ih hl
      exact ⟨h1, v, hv, List.concat_eq_append ▸ h2.snoc hs⟩

theorem Run.next_visited (hr : Run step s tr t) (h : (u, a) ∈ tr) :
    ∃ v ∈ visited tr t, step u a = some v := by
  obtain ⟨l, r, rfl⟩ := List.append_of_mem h
  obtain ⟨-, v, hv, hr⟩ := hr.split
  refine ⟨v, mem_visited.mpr ?_, hv⟩
  cases r with
  | nil => exact .inr hr.eq_of_nil.symm
  | cons p r =>
    obtain ⟨w, b⟩ := p
    have hr : Run step v ([] ++ (w, b) :: r) t := hr
    obtain ⟨hw, -⟩ := hr.split
    exact .inl ⟨b, by simp [hw.eq_of_nil]⟩

/-- Runs compute: the trace and the last state of taking `acts` from `s`. -/
def exec (step : σ → α → Option σ) : σ → List α → Option (List (σ × α) × σ)
  | s, [] => some ([], s)
  | s, a :: acts => do
    let u ← step s a
    let (tr, t) ← exec step u acts
    return ((s, a) :: tr, t)

theorem exec_run {acts : List α} (h : exec step s acts = some (tr, t)) : Run step s tr t := by
  induction acts generalizing s tr with
  | nil =>
    simp only [exec, Option.some.injEq, Prod.mk.injEq] at h
    obtain ⟨rfl, rfl⟩ := h
    exact .nil
  | cons a acts ih =>
    simp only [exec, bind, Option.bind_eq_some_iff, pure, Option.some.injEq, Prod.mk.injEq] at h
    obtain ⟨u, hu, ⟨tr', t'⟩, he, rfl, rfl⟩ := h
    exact .cons hu (ih he)

end

/-- What is decided of the run that `acts` give holds of a run. -/
theorem exec_sat (step : σ → α → Option σ) (s : σ) (acts : List α)
    (Q : List (σ × α) → σ → Prop) [∀ tr t, Decidable (Q tr t)]
    (h : (exec step s acts).any (fun r => decide (Q r.1 r.2)) = true) :
    ∃ tr t, exec step s acts = some (tr, t) ∧ Run step s tr t ∧ Q tr t := by
  obtain ⟨⟨tr, t⟩, he, hq⟩ := (Option.any_eq_true _ _).mp h
  exact ⟨tr, t, he, exec_run he, of_decide_eq_true hq⟩

end Runs
