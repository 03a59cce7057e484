import Mathlib.Data.Nat.Bitwise
import Mathlib.Data.Nat.Digits.Lemmas
import Mathlib.Logic.Function.Iterate

/-! Division of polynomials over two elements, a bit at a time in a register that holds its lowest
power in its highest bit.
-/

namespace Division

variable {poly width : Nat}

/-- One bit of division. -/
def divide (poly n : Nat) : Nat := if n &&& 1 ≠ 0 then poly ^^^ (n >>> 1) else n >>> 1

/-- A bit divides a sum as it divides each part. -/
theorem divide_xor (a b : Nat) : divide poly (a ^^^ b) = divide poly a ^^^ divide poly b := by
  have parity (n : Nat) : n &&& 1 = 0 ∨ n &&& 1 = 1 := by
    rw [Nat.and_one_is_mod]
    exact Nat.mod_two_eq_zero_or_one n
  unfold divide
  rw [Nat.and_xor_distrib_right, Nat.shiftRight_xor_distrib]
  rcases parity a with even | odd <;> rcases parity b with even' | odd'
  · simp [even, even']
  · simp [even, odd', Nat.xor_left_comm]
  · simp [odd, even', Nat.xor_assoc]
  · simp [odd, odd', Nat.xor_assoc, Nat.xor_left_comm (a >>> 1) poly]

theorem divide_double (n : Nat) : divide poly (2 * n) = n := by
  have even : 2 * n &&& 1 = 0 := by rw [Nat.and_one_is_mod, Nat.mul_mod_right]
  rw [divide, if_neg (not_not_intro even), Nat.shiftRight_eq_div_pow]
  omega

/-- What two numbers have in common goes out of their difference. -/
theorem xor_xor_xor (a b c : Nat) : (a ^^^ c) ^^^ (b ^^^ c) = a ^^^ b := by
  rw [Nat.xor_comm b c, Nat.xor_assoc, ← Nat.xor_assoc c, Nat.xor_self, Nat.zero_xor]

theorem iterate_xor (count a b : Nat)
    : (divide poly)^[count] (a ^^^ b) = (divide poly)^[count] a ^^^ (divide poly)^[count] b := by
  induction count generalizing a b with
  | zero => rfl
  | succ count ih => rw [Function.iterate_succ_apply, divide_xor, ih]; rfl

/-- What stands above the bits a division takes is moved down by it. -/
theorem iterate_shifted (count n : Nat) : (divide poly)^[count] (2 ^ count * n) = n := by
  induction count with
  | zero => exact Nat.one_mul n
  | succ count ih => rw [Function.iterate_succ_apply, pow_succ', Nat.mul_assoc, divide_double, ih]

theorem add_eq_xor {low count : Nat} (small : low < 2 ^ count) (high : Nat)
    : low + 2 ^ count * high = low ^^^ 2 ^ count * high := by
  refine Nat.eq_of_testBit_eq fun i => ?_
  rw [Nat.add_comm, Nat.testBit_two_pow_mul_add _ small, Nat.testBit_xor, Nat.testBit_two_pow_mul]
  by_cases below : i < count
  · simp [below, Nat.not_le_of_lt below]
  · have past : low.testBit i = false :=
      Nat.testBit_lt_two_pow (Nat.lt_of_lt_of_le small (Nat.pow_le_pow_right (by decide)
        (Nat.le_of_not_lt below)))
    simp [below, past, Nat.le_of_not_lt below]

/-- The bits below and above a place are divided apart. -/
theorem iterate_add {low count : Nat} (small : low < 2 ^ count) (rest high : Nat)
    : (divide poly)^[rest + count] (low + 2 ^ count * high)
      = (divide poly)^[rest + count] low ^^^ (divide poly)^[rest] high := by
  rw [add_eq_xor small, iterate_xor, Function.iterate_add_apply _ rest count (2 ^ count * high),
    iterate_shifted]

theorem iterate_low (count rest n : Nat)
    : (divide poly)^[rest + count] n
      = (divide poly)^[rest + count] (n % 2 ^ count) ^^^ (divide poly)^[rest] (n >>> count) := by
  conv_lhs => rw [← Nat.mod_add_div n (2 ^ count)]
  rw [iterate_add (Nat.mod_lt _ (Nat.two_pow_pos count)), Nat.shiftRight_eq_div_pow]

/-- A register that takes its input a symbol at a time divides all of it at once: the symbols are
the digits of a number, the first of them the lowest.
-/
theorem foldl_divide (symbols : List Nat) (small : ∀ symbol ∈ symbols, symbol < 2 ^ width)
    (register : Nat)
    : symbols.foldl (fun n symbol => (divide poly)^[width] (n ^^^ symbol)) register
      = (divide poly)^[width * symbols.length] (register ^^^ Nat.ofDigits (2 ^ width) symbols) := by
  induction symbols generalizing register with
  | nil => rw [List.foldl_nil, List.length_nil, Nat.mul_zero, Nat.ofDigits_nil, Nat.xor_zero]; rfl
  | cons symbol rest ih =>
      obtain ⟨first, small⟩ := List.forall_mem_cons.mp small
      rw [List.foldl_cons, ih small, List.length_cons, Nat.mul_succ, Nat.ofDigits_cons,
        iterate_xor (width * rest.length + width), iterate_add first,
        Function.iterate_add_apply _ _ width, Function.iterate_add_apply _ _ width, iterate_xor,
        iterate_xor width, iterate_xor (width * rest.length), Nat.xor_assoc]

/-- Nothing divides to nothing but nothing itself, in a register the polynomial fills. -/
theorem divide_eq_zero {n : Nat} (fills : 2 ^ width ≤ poly) (inside : n < 2 ^ (width + 1))
    (none_ : divide poly n = 0) : n = 0 := by
  have half : n >>> 1 < 2 ^ width := by
    rw [Nat.shiftRight_eq_div_pow]
    omega
  unfold divide at none_
  split at none_
  next odd => exact absurd (Nat.xor_eq_zero_iff.mp none_) (by omega)
  next even =>
    rw [not_not, Nat.and_one_is_mod] at even
    rw [Nat.shiftRight_eq_div_pow] at none_
    omega

theorem divide_lt {n : Nat} (inside : poly < 2 ^ (width + 1)) (held : n < 2 ^ (width + 1))
    : divide poly n < 2 ^ (width + 1) := by
  have half : n >>> 1 < 2 ^ (width + 1) := Nat.lt_of_le_of_lt (Nat.shiftRight_le _ _) held
  unfold divide
  split
  · exact Nat.xor_lt_two_pow inside half
  · exact half

/-- Registers that differ still do so after any number of bits. -/
theorem eq_of_iterate_eq (fills : 2 ^ width ≤ poly) (inside : poly < 2 ^ (width + 1)) {count : Nat}
    {a b : Nat} (held : a ^^^ b < 2 ^ (width + 1))
    (same : (divide poly)^[count] a = (divide poly)^[count] b) : a = b := by
  have none_ : (divide poly)^[count] (a ^^^ b) = 0 := by
    rw [iterate_xor, same, Nat.xor_self]
  rw [← Nat.xor_eq_zero_iff]
  clear same
  generalize a ^^^ b = n at held none_
  induction count generalizing n with
  | zero => exact none_
  | succ count ih => exact divide_eq_zero fills held (ih _ (divide_lt inside held) none_)

end Division
