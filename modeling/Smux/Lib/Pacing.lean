import Mathlib.Data.List.Chain

/-!
# Beats on their way

A sender gives beats, each no later than `gap` after the one before, and they
arrive in order. Only their times matter: `heard` is the beat that arrived
last, and `underWay` are those that have not arrived, the oldest first. A
receiver that gets each beat within `delay` is never without one for longer
than `gap + delay`: `Paced.heard_lately`.
-/

namespace Pacing

def Paced (gap heard : Nat) (underWay : List Nat) : Prop :=
  (heard :: underWay).IsChain fun earlier later => later ≤ earlier + gap

/-- The beat given last. -/
def latest (heard : Nat) (underWay : List Nat) : Nat := underWay.getLast?.getD heard

variable {gap delay heard beat now : Nat} {underWay : List Nat}

@[simp] theorem latest_snoc : latest heard (underWay ++ [beat]) = beat := by simp [latest]

@[simp] theorem latest_cons : latest heard (beat :: underWay) = latest beat underWay := by
  cases h : underWay.getLast? <;> simp [latest, List.getLast?_cons, h]

theorem paced_nil : Paced gap heard [] := List.isChain_singleton _

theorem latest_mem (heard : Nat) (underWay : List Nat) :
    (heard :: underWay).getLast? = some (latest heard underWay) := by
  rw [List.getLast?_cons, latest]

namespace Paced

theorem send (h : Paced gap heard underWay) (hbeat : beat ≤ latest heard underWay + gap) :
    Paced gap heard (underWay ++ [beat]) := by
  unfold Paced at h ⊢
  rw [← List.cons_append, List.isChain_append]
  refine ⟨h, List.isChain_singleton _, fun earlier hearlier later hlater => ?_⟩
  rw [latest_mem] at hearlier
  obtain rfl := Option.some.inj hearlier
  obtain rfl := Option.some.inj hlater
  exact hbeat

theorem arrive (h : Paced gap heard (beat :: underWay)) : Paced gap beat underWay :=
  (List.isChain_cons_cons.mp h).2

theorem heard_lately (h : Paced gap heard underWay) (hnext : now ≤ latest heard underWay + gap)
    (hprompt : ∀ beat ∈ underWay, now ≤ beat + delay) : now ≤ heard + gap + delay := by
  cases underWay with
  | nil => exact Nat.le_add_right_of_le hnext
  | cons beat underWay =>
    have hgap : beat ≤ heard + gap := (List.isChain_cons_cons.mp h).1
    calc now ≤ beat + delay := hprompt beat List.mem_cons_self
      _ ≤ heard + gap + delay := Nat.add_le_add_right hgap delay

end Paced

end Pacing
