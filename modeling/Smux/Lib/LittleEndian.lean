import Mathlib.Algebra.Ring.Nat

/-!
# Little-endian numbers

`leBytes k n` writes the low `k` bytes of `n`, least significant first, and
`leValue` reads a byte string back.
-/

namespace LittleEndian

def leBytes : Nat → Nat → List UInt8
  | 0, _ => []
  | k + 1, n => UInt8.ofNat n :: leBytes k (n / 256)

def leValue : List UInt8 → Nat
  | [] => 0
  | b :: bs => b.toNat + 256 * leValue bs

@[simp] theorem length_leBytes (k n : Nat) : (leBytes k n).length = k := by
  induction k generalizing n with
  | zero => rfl
  | succ k ih => simp [leBytes, ih]

theorem leBytes_one (n : Nat) : leBytes 1 n = [UInt8.ofNat n] := rfl

theorem leBytes_two (n : Nat) : leBytes 2 n = [UInt8.ofNat n, UInt8.ofNat (n / 256)] := rfl

@[simp] theorem take_leBytes_append (k n : Nat) (l : List UInt8) :
    (leBytes k n ++ l).take k = leBytes k n := List.take_left' (length_leBytes k n)

@[simp] theorem drop_leBytes_append (k n : Nat) (l : List UInt8) :
    (leBytes k n ++ l).drop k = l := List.drop_left' (length_leBytes k n)

theorem leValue_leBytes (h : n < 256 ^ k) : leValue (leBytes k n) = n := by
  induction k generalizing n with
  | zero => simp only [Nat.pow_zero] at h; simp only [leBytes, leValue]; omega
  | succ k ih =>
    have hlt : n / 256 < 256 ^ k := Nat.div_lt_of_lt_mul (by rw [Nat.pow_succ] at h; omega)
    simp only [leBytes, leValue, ih hlt, UInt8.toNat_ofNat']
    omega

theorem leValue_lt (bs : List UInt8) : leValue bs < 256 ^ bs.length := by
  induction bs with
  | nil => decide
  | cons b bs ih =>
    have hb := b.toNat_lt
    simp only [leValue, List.length_cons, Nat.pow_succ]
    omega

/-- A byte string is what is written of the number it reads as. -/
theorem leBytes_leValue (bs : List UInt8) : leBytes bs.length (leValue bs) = bs := by
  induction bs with
  | nil => rfl
  | cons b bs ih =>
    have hlow : UInt8.ofNat (b.toNat + 256 * leValue bs) = b := by
      apply UInt8.toNat_inj.mp
      have hb := b.toNat_lt
      rw [UInt8.toNat_ofNat']
      omega
    have hhigh : (b.toNat + 256 * leValue bs) / 256 = leValue bs := by
      have hb := b.toNat_lt
      omega
    simp only [List.length_cons, leBytes, leValue, hlow, hhigh, ih]

/-- The `k` bytes at `i` are what is written of the number they read as. -/
theorem leBytes_field {bs : List UInt8} (h : i + k ≤ bs.length) :
    leBytes k (leValue ((bs.drop i).take k)) = (bs.drop i).take k := by
  have hlen : ((bs.drop i).take k).length = k := by
    rw [List.length_take, List.length_drop]
    omega
  have hwrite := leBytes_leValue ((bs.drop i).take k)
  rwa [hlen] at hwrite

theorem leValue_field_lt (bs : List UInt8) (i k : Nat) :
    leValue ((bs.drop i).take k) < 256 ^ k := by
  refine Nat.lt_of_lt_of_le (leValue_lt _) (Nat.pow_le_pow_right (by decide) ?_)
  rw [List.length_take]
  exact Nat.min_le_left ..

end LittleEndian
