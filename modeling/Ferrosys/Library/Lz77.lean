import Mathlib.Data.List.Basic
import Mathlib.Tactic.Linarith

/-! What is repeated from what came before: a list grows by elements a distance back in it, which may
be ones the same copy produced.
-/

namespace Lz77

variable {α : Type}

/-- `out` with so many elements more, each the one `distance` back. A distance that names nothing
adds nothing.
-/
def repeatFrom (out : List α) (distance : Nat) : (count : Nat) → List α
  | 0 => out
  | count + 1 =>
      match out[out.length - distance]? with
      | some a => repeatFrom (out ++ [a]) distance count
      | none => out

@[simp] theorem repeatFrom_zero (out : List α) (distance : Nat)
    : repeatFrom out distance 0 = out := rfl

theorem repeatFrom_succ {out : List α} {distance count : Nat} {a : α}
    (back : out[out.length - distance]? = some a)
    : repeatFrom out distance (count + 1) = repeatFrom (out ++ [a]) distance count := by
  rw [repeatFrom, back]

/-- A distance into the list names an element. -/
theorem exists_back {out : List α} {distance : Nat} (pos : 0 < distance)
    (reaches : distance ≤ out.length)
    : ∃ a, out[out.length - distance]? = some a :=
  ⟨_, List.getElem?_eq_getElem (by omega)⟩

/-- A copy whose distance reaches into the list is as long as asked, by induction on its count. -/
theorem length_repeatFrom {out : List α} {distance count : Nat} (pos : 0 < distance)
    (reaches : distance ≤ out.length)
    : (repeatFrom out distance count).length = out.length + count := by
  induction count generalizing out with
  | zero => rfl
  | succ count ih =>
      obtain ⟨a, back⟩ := exists_back pos reaches
      rw [repeatFrom_succ back, ih (by simp; omega)]
      simp
      omega

/-- A copy leaves what was there, by induction on its count. -/
theorem prefix_repeatFrom (out : List α) (distance count : Nat)
    : out <+: repeatFrom out distance count := by
  induction count generalizing out with
  | zero => exact List.prefix_rfl
  | succ count ih =>
      rw [repeatFrom]
      split
      next a _ => exact (List.prefix_append _ _).trans (ih _)
      next => exact List.prefix_rfl

end Lz77
