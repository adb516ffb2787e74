import Smux.Lib.Runs

/-!
# Settling

Some actions of a system wait for nothing outside it: its `moves`. Where each
of them lowers a rank, a run of moves is no longer than the rank it starts
from, and it can go on until the system has settled: no move is enabled.
-/

namespace Runs

variable {step : σ → α → Option σ} {moves : σ → α → Prop} {Inv : σ → Prop} {rank : σ → Nat}
  {s t u : σ} {tr tr' : List (σ × α)}

theorem Run.append (hr : Run step s tr t) (hr' : Run step t tr' u) : Run step s (tr ++ tr') u := by
  induction hr' with
  | nil => rwa [List.append_nil]
  | snoc _ hs ih =>
    rw [← List.append_assoc]
    exact ih.snoc hs

def Settled (step : σ → α → Option σ) (moves : σ → α → Prop) (s : σ) : Prop :=
  ∀ a, moves s a → step s a = none

structure Ranked (step : σ → α → Option σ) (moves : σ → α → Prop) (Inv : σ → Prop)
    (rank : σ → Nat) : Prop where
  keeps : ∀ {s a t}, Inv s → moves s a → step s a = some t → Inv t
  lowers : ∀ {s a t}, Inv s → moves s a → step s a = some t → rank t < rank s

namespace Ranked

variable (h : Ranked step moves Inv rank)
include h

theorem run (hi : Inv s) (hr : Run step s tr t) (hm : ∀ p ∈ tr, moves p.1 p.2) :
    Inv t ∧ tr.length + rank t ≤ rank s := by
  induction hr with
  | nil => exact ⟨hi, Nat.le_of_eq (Nat.zero_add _)⟩
  | @snoc tr t a u _ hs ih =>
    obtain ⟨ht, hle⟩ := ih fun p hp => hm p (List.mem_append_left _ hp)
    have hmove : moves t a := hm (t, a) (by simp)
    have hlt := h.lowers ht hmove hs
    refine ⟨h.keeps ht hmove hs, ?_⟩
    rw [List.length_append, List.length_singleton]
    omega

theorem settles (hi : Inv s) :
    ∃ tr t, Run step s tr t ∧ (∀ p ∈ tr, moves p.1 p.2) ∧ Settled step moves t := by
  generalize hn : rank s = n
  induction n using Nat.strongRecOn generalizing s with
  | ind n ih =>
    by_cases hset : Settled step moves s
    · exact ⟨[], s, .nil, by simp, hset⟩
    · simp only [Settled, Classical.not_forall] at hset
      obtain ⟨a, hmove, hs⟩ := hset
      obtain ⟨u, hs⟩ := Option.ne_none_iff_exists'.mp hs
      obtain ⟨tr, t, hr, hm, ht⟩ := ih (rank u) (hn ▸ h.lowers hi hmove hs) (h.keeps hi hmove hs) rfl
      refine ⟨(s, a) :: tr, t, .cons hs hr, fun p hp => ?_, ht⟩
      rcases List.mem_cons.mp hp with rfl | hp
      · exact hmove
      · exact hm p hp

end Ranked

end Runs
