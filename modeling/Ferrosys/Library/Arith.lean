import Mathlib.Data.List.Basic
import Mathlib.Order.Basic
import Mathlib.Tactic.Linarith

/-! Quotients rounded up, and numbers counted by their quotient. -/

namespace Arith

/-- `a / b` rounded up. -/
def divCeil (a b : Nat) : Nat := (a + b - 1) / b

/-- A quotient rounded up is at most `n` exactly where `n` divisors cover the dividend. -/
theorem divCeil_le_iff {a b n : Nat} (pos : 0 < b) : divCeil a b ≤ n ↔ a ≤ n * b := by
  rw [divCeil, Nat.div_le_iff_le_mul_add_pred pos, Nat.mul_comm b n]
  omega

theorem lt_divCeil_iff {a b n : Nat} (pos : 0 < b) : n < divCeil a b ↔ n * b < a := by
  rw [← not_le, divCeil_le_iff pos, not_le]

theorem divCeil_mono {a a' b : Nat} (pos : 0 < b) (h : a ≤ a')
    : divCeil a b ≤ divCeil a' b :=
  (divCeil_le_iff pos).mpr (h.trans ((divCeil_le_iff pos).mp le_rfl))

theorem le_divCeil_mul {a b : Nat} (pos : 0 < b) : a ≤ divCeil a b * b :=
  (divCeil_le_iff pos).mp le_rfl

/-- Rounding up to a multiple of `b` adds less than `b`. -/
theorem divCeil_mul_lt {a b : Nat} (pos : 0 < b) : divCeil a b * b < a + b := by
  have floor := Nat.div_mul_le_self (a + b - 1) b
  unfold divCeil
  omega

/-- Dividing two or more by two or more comes out smaller, rounded up or not. -/
theorem divCeil_lt {a b : Nat} (many : 2 ≤ a) (fans : 2 ≤ b) : divCeil a b < a := by
  have half : (a - 1) * 2 ≤ (a - 1) * b := Nat.mul_le_mul_left _ fans
  have most : divCeil a b ≤ a - 1 := (divCeil_le_iff (by omega)).mpr (by omega)
  omega

/-- A multiple divides exactly. -/
theorem divCeil_mul_right {a b : Nat} (pos : 0 < b) : divCeil (a * b) b = a :=
  Nat.le_antisymm ((divCeil_le_iff pos).mpr le_rfl)
    (Nat.le_of_mul_le_mul_right (le_divCeil_mul pos) pos)

/-- Numbers that pass by their quotient come in whole runs of the divisor, by induction on the
quotients.
-/
theorem countP_range_mul (p : Nat → Bool) (n b : Nat)
    : (List.range (n * b)).countP (fun i => p (i / b)) = (List.range n).countP p * b := by
  induction n with
  | zero => simp
  | succ n ih =>
      have quotient : ∀ i ∈ List.range b, (n * b + i) / b = n := by
        intro i member
        exact Nat.div_eq_of_lt_le (Nat.le_add_right _ _)
          (by rw [Nat.succ_mul]; exact Nat.add_lt_add_left (List.mem_range.mp member) _)
      have last : (List.range b).countP (fun i => p ((n * b + i) / b)) = if p n then b else 0 := by
        rw [List.countP_congr (q := fun _ => p n) fun i member => by rw [quotient i member]]
        cases p n <;> simp
      rw [Nat.succ_mul, List.range_add, List.countP_append, ih, List.countP_map,
        List.range_succ, List.countP_append, Nat.add_mul, List.countP_singleton]
      simp only [Function.comp_def, last]
      cases p n <;> simp

end Arith
