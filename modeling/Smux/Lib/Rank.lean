/-!
# The members of a kind in a list

`rank p l k` is the place that the `k`-th member of a list has among those of
the kind `p`. A list that only has its members replaced by others of the same
kind, or new ones put at its end, keeps the ranks it has.
-/

namespace List

def rank (p : α → Bool) (l : List α) (k : Nat) : Nat := (l.take k).countP p

section
variable {p : α → Bool} {f : α → α} {l m : List α} {x : α} {j k : Nat}

theorem rank_cons_succ : rank p (x :: l) (k + 1) = rank p l k + if p x then 1 else 0 := by
  rw [rank, take_succ_cons, countP_cons, rank]

theorem rank_length : rank p l l.length = (l.filter p).length := by
  rw [rank, take_length, countP_eq_length_filter]

theorem rank_append (hk : k ≤ l.length) : rank p (l ++ m) k = rank p l k := by
  rw [rank, take_append_of_le_length hk, rank]

theorem getElem?_rank (h : l[k]? = some x) (hp : p x) : (l.filter p)[rank p l k]? = some x := by
  induction l generalizing k with
  | nil => cases h
  | cons y l ih =>
    cases k with
    | zero =>
      cases h
      rw [filter_cons_of_pos hp]
      rfl
    | succ k =>
      rw [rank_cons_succ]
      by_cases hy : p y
      · rw [filter_cons_of_pos hy, if_pos hy]
        exact ih h
      · rw [filter_cons_of_neg hy, if_neg hy]
        exact ih h

theorem rank_modify (h : l[k]? = some x) (hp : p (f x) = p x) :
    rank p (l.modify k f) j = rank p l j := by
  induction l generalizing j k with
  | nil => cases h
  | cons y l ih =>
    cases j with
    | zero => rfl
    | succ j =>
      cases k with
      | zero =>
        cases h
        rw [modify_zero_cons, rank_cons_succ, rank_cons_succ, hp]
      | succ k => rw [modify_succ_cons, rank_cons_succ, rank_cons_succ, ih h]

theorem filter_modify (h : l[k]? = some x) (hx : p x) (hp : p (f x)) :
    (l.modify k f).filter p = (l.filter p).modify (rank p l k) f := by
  induction l generalizing k with
  | nil => cases h
  | cons y l ih =>
    cases k with
    | zero =>
      cases h
      rw [modify_zero_cons, filter_cons_of_pos hp, filter_cons_of_pos hx]
      rfl
    | succ k =>
      rw [modify_succ_cons, rank_cons_succ]
      by_cases hy : p y
      · rw [filter_cons_of_pos hy, filter_cons_of_pos hy, if_pos hy, ih h, modify_succ_cons]
      · rw [filter_cons_of_neg hy, filter_cons_of_neg hy, if_neg hy, ih h, Nat.add_zero]

theorem filter_modify_of_neg (h : l[k]? = some x) (hx : ¬p x) (hp : ¬p (f x)) :
    (l.modify k f).filter p = l.filter p := by
  induction l generalizing k with
  | nil => cases h
  | cons y l ih =>
    cases k with
    | zero =>
      cases h
      rw [modify_zero_cons, filter_cons_of_neg hp, filter_cons_of_neg hx]
    | succ k =>
      rw [modify_succ_cons, filter_cons, filter_cons, ih h]

theorem map_modify {r : α → β} {g : β → β} (h : l[k]? = some x) (hx : r (f x) = g (r x)) :
    (l.modify k f).map r = (l.map r).modify k g := by
  induction l generalizing k with
  | nil => cases h
  | cons y l ih =>
    cases k with
    | zero =>
      cases h
      rw [modify_zero_cons, map_cons, map_cons, modify_zero_cons, hx]
    | succ k => rw [modify_succ_cons, map_cons, map_cons, modify_succ_cons, ih h]

end

end List
