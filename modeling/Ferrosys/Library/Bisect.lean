import Ferrosys.Library.Checked
import Mathlib.Data.List.TakeDrop

/-! A search by halves over entries that can fail to be read. -/

namespace Bisect

variable {ε α : Type}

/-- How many of the entries from `lo` to `hi` are `below`, which asks the middle one of what is
left: at most `turns` times.
-/
def bisect (below : Nat → Except ε Bool) : (turns lo hi : Nat) → Except ε Nat
  | 0, lo, _ => .ok lo
  | turns + 1, lo, hi =>
      if lo < hi then do
        let mid := lo + (hi - lo) / 2
        if ← below mid then bisect below turns (mid + 1) hi else bisect below turns lo mid
      else .ok lo

/-- A search over entries below `cut` alone finds `cut`, by induction on the turns. -/
theorem bisect_eq {below : Nat → Except ε Bool} {cut : Nat} (turns lo hi : Nat)
    (read : ∀ i, lo ≤ i → i < hi → below i = .ok (decide (i < cut)))
    (low : lo ≤ cut) (high : cut ≤ hi) (enough : hi - lo ≤ turns)
    : bisect below turns lo hi = .ok cut := by
  induction turns generalizing lo hi with
  | zero =>
      have : lo = cut := by omega
      rw [bisect, this]
  | succ turns ih =>
      rw [bisect]
      split
      next more =>
        have middle : lo + (hi - lo) / 2 < hi := by omega
        dsimp only
        rw [read _ (Nat.le_add_right _ _) middle, Checked.ok_bind]
        by_cases under : lo + (hi - lo) / 2 < cut
        · rw [if_pos (decide_eq_true under)]
          exact ih _ _ (fun i lower upper => read i (by omega) upper) under high (by omega)
        · rw [if_neg (by simpa using under)]
          exact ih _ _ (fun i lower upper => read i lower (by omega)) low (by omega) (by omega)
      next done =>
        have : lo = cut := by omega
        rw [this]

/-- A search stays within its entries whatever they answer, by induction on the turns. -/
theorem bisect_le {below : Nat → Except ε Bool} {turns lo hi cut : Nat}
    (found : bisect below turns lo hi = .ok cut) (within : lo ≤ hi) : cut ≤ hi := by
  induction turns generalizing lo hi with
  | zero => exact Except.ok.inj found ▸ within
  | succ turns ih =>
      rw [bisect] at found
      split at found
      next more =>
        obtain ⟨under, -, found⟩ := Checked.bind_eq_ok.mp found
        have middle : lo + (hi - lo) / 2 < hi := by omega
        split at found
        next => exact ih found (Nat.succ_le_of_lt middle)
        next => exact Nat.le_trans (ih found (Nat.le_add_right _ _)) (Nat.le_of_lt middle)
      next => exact Except.ok.inj found ▸ within

/-- Where what holds of an entry holds of every earlier one, the entries it holds of are the
leading ones, by induction on the list.
-/
theorem holds_iff_lt_takeWhile {p : α → Bool} {list : List α}
    (leading : list.Pairwise fun a b => p b → p a) (i : Nat) (inside : i < list.length)
    : p list[i] = decide (i < (list.takeWhile p).length) := by
  induction list generalizing i with
  | nil => cases inside
  | cons a rest ih =>
      obtain ⟨first, later⟩ := List.pairwise_cons.mp leading
      cases holds : p a with
      | true =>
          rw [List.takeWhile_cons_of_pos holds]
          cases i with
          | zero => simpa using holds
          | succ i => simpa using ih later i (Nat.lt_of_succ_lt_succ inside)
      | false =>
          rw [List.takeWhile_cons_of_neg (by simp [holds])]
          cases i with
          | zero => simpa using holds
          | succ i =>
              have later : p (rest.get ⟨i, Nat.lt_of_succ_lt_succ inside⟩) ≠ true := fun hold =>
                Bool.false_ne_true (holds.symm.trans (first _ (List.get_mem _ _) hold))
              simpa using later

/-- A search by halves over entries that can all be read counts the leading ones that are
below.
-/
theorem bisect_takeWhile {below : Nat → Except ε Bool} {p : α → Bool} {list : List α}
    (read : ∀ i (inside : i < list.length), below i = .ok (p list[i]))
    (leading : list.Pairwise fun a b => p b → p a)
    : bisect below list.length 0 list.length = .ok (list.takeWhile p).length := by
  apply bisect_eq _ _ _ _ (Nat.zero_le _) (List.takeWhile_prefix p).length_le (Nat.le_refl _)
  intro i _ inside
  rw [read i inside, holds_iff_lt_takeWhile leading i inside]

end Bisect
