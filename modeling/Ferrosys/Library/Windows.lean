import Mathlib.Data.List.Basic
import Mathlib.Tactic.Linarith

/-! A window on a function of the naturals, filled in from the bottom: the positions below a mark
hold the function's value, and the others hold zero.
-/

namespace Windows

/-- The `count` positions from `first` on, those below `mark` holding the value of `f`. -/
def fill (first count : Nat) (f : Nat → Nat) (mark : Nat) : List Nat :=
  (List.range' first count).map fun l => if l < mark then f l else 0

variable {first count mark mark' : Nat} {f : Nat → Nat}

@[simp] theorem length_fill : (fill first count f mark).length = count := by
  simp [fill]

theorem getElem?_fill (k : Nat)
    : (fill first count f mark)[k]?
      = if k < count then some (if first + k < mark then f (first + k) else 0) else none := by
  unfold fill
  rw [List.getElem?_map]
  split
  next inside => simp [List.getElem?_range' inside]
  next outside => rw [List.getElem?_eq_none (by simpa using outside)]; rfl

/-- Nothing is filled in below the window's first position. -/
theorem replicate_eq_fill (below : mark ≤ first) : List.replicate count 0
    = fill first count f mark := by
  apply List.ext_getElem?
  intro k
  rw [getElem?_fill, List.getElem?_replicate]
  split
  · rw [if_neg (by omega)]
  · rfl

/-- Raising the mark over positions the window does not have, or where the function is zero,
changes nothing.
-/
theorem fill_congr (up : mark ≤ mark')
    (silent : ∀ l, first ≤ l → l < first + count → mark ≤ l → l < mark' → f l = 0)
    : fill first count f mark = fill first count f mark' := by
  apply List.ext_getElem?
  intro k
  rw [getElem?_fill, getElem?_fill]
  split
  next inside =>
    by_cases low : first + k < mark
    · rw [if_pos low, if_pos (by omega)]
    · by_cases high : first + k < mark'
      · rw [if_neg low, if_pos high, silent _ (by omega) (by omega) (by omega) high]
      · rw [if_neg low, if_neg high]
  next => rfl

/-- Filling in the position at the mark. -/
theorem set_fill (low : first ≤ mark) (high : mark < first + count)
    : (fill first count f mark).set (mark - first) (f mark) = fill first count f (mark + 1) := by
  apply List.ext_getElem?
  intro k
  rw [List.getElem?_set, getElem?_fill, getElem?_fill, length_fill]
  by_cases here : mark - first = k
  · subst here
    rw [if_pos rfl, if_pos (by omega), if_pos (by omega), if_pos (by omega),
      Nat.add_sub_cancel' low]
  · rw [if_neg here]
    split
    · by_cases below : first + k < mark
      · rw [if_pos below, if_pos (by omega)]
      · rw [if_neg below, if_neg (by omega)]
    · rfl

/-- A mark past the window fills all of it in. -/
theorem fill_eq_map (past : first + count ≤ mark)
    : fill first count f mark = (List.range' first count).map f := by
  apply List.map_congr_left
  intro l member
  rw [List.mem_range'_1] at member
  rw [if_pos (by omega)]

/-- A loop over the first positions a downward closed test holds of. -/
theorem takeWhile_range (p : Nat → Bool) (n : Nat)
    : ∃ k ≤ n, (List.range n).takeWhile p = List.range k ∧ (∀ i < k, p i = true)
      ∧ (k < n → p k = false) := by
  induction n with
  | zero => exact ⟨0, le_rfl, rfl, nofun, nofun⟩
  | succ n ih =>
      obtain ⟨k, within, taken, holds, stops⟩ := ih
      rw [List.range_succ]
      by_cases whole : k = n
      · subst whole
        have all : ∀ i ∈ List.range k, p i = true := fun i member =>
          holds i (List.mem_range.mp member)
        rw [List.takeWhile_append_of_pos all]
        cases last : p k with
        | true =>
            refine ⟨k + 1, le_rfl, ?_, ?_, fun more => absurd more (Nat.lt_irrefl _)⟩
            · rw [List.takeWhile_cons_of_pos last, List.range_succ]
              rfl
            · intro i below
              rcases Nat.lt_succ_iff_lt_or_eq.mp below with earlier | rfl
              · exact holds i earlier
              · exact last
        | false =>
            refine ⟨k, by omega, ?_, holds, fun _ => last⟩
            rw [List.takeWhile_cons_of_neg (by simp [last]), List.append_nil]
      · have short : k < n := by omega
        refine ⟨k, by omega, ?_, holds, fun _ => stops short⟩
        rw [List.takeWhile_append, taken, if_neg (by simp; omega)]

end Windows
