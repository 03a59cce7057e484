import Mathlib.Data.Nat.Count
import Mathlib.Data.List.Basic
import Mathlib.Tactic.Linarith

/-! Positions marked in words of 64 bits, and counting them a word at a time. -/

namespace Words

abbrev Word := BitVec 64

/-- Position `n` is marked. -/
def bit (words : List Word) (n : Nat) : Bool := (words[n / 64]?.getD 0).getLsbD (n % 64)

/-- Mark position `n`, where the words reach it. -/
def mark (words : List Word) (n : Nat) : List Word :=
  words.modify (n / 64) (· ||| (1#64 <<< (n % 64)))

@[simp] theorem length_mark (words : List Word) (n : Nat) : (mark words n).length = words.length :=
  List.length_modify _ _ _

theorem bit_replicate (count n : Nat) : bit (List.replicate count 0) n = false := by
  unfold bit
  rw [List.getElem?_replicate]
  split <;> simp

/-- Marking a position marks it and no other. -/
theorem bit_mark {words : List Word} {n : Nat} (covered : n / 64 < words.length) (m : Nat)
    : bit (mark words n) m = (decide (m = n) || bit words m) := by
  have word : (mark words n)[m / 64]?.getD 0
      = if n / 64 = m / 64 then words[m / 64]?.getD 0 ||| (1#64 <<< (n % 64))
        else words[m / 64]?.getD 0 := by
    unfold mark
    by_cases same : n / 64 = m / 64
    · rw [if_pos same, same, List.getElem?_modify_eq, List.getElem?_eq_getElem (by omega)]
      rfl
    · rw [if_neg same, List.getElem?_modify_ne _ _ same]
  unfold bit
  rw [word]
  have small : m % 64 < 64 := Nat.mod_lt _ (by decide)
  split
  next same =>
    rw [BitVec.getLsbD_or, BitVec.getLsbD_shiftLeft, BitVec.getLsbD_one, Bool.or_comm]
    congr 1
    rw [Bool.eq_iff_iff]
    simp only [Bool.and_eq_true, Bool.not_eq_true', decide_eq_true_eq, decide_eq_false_iff_not]
    omega
  next apart =>
    have other : decide (m = n) = false := by
      rw [decide_eq_false_iff_not]
      rintro rfl
      exact apart rfl
    rw [other, Bool.false_or]

/-- Mark every position from `start` up to `stop`. -/
def markRun (words : List Word) (start stop : Nat) : List Word :=
  (List.range' start (stop - start)).foldl mark words

@[simp] theorem length_markRun (words : List Word) (start stop : Nat)
    : (markRun words start stop).length = words.length := by
  unfold markRun
  induction List.range' start (stop - start) generalizing words with
  | nil => rfl
  | cons n rest ih => rw [List.foldl_cons, ih, length_mark]

/-- Marking a list of positions marks those, by induction on it. -/
theorem bit_foldl_mark {words : List Word} {positions : List Nat}
    (covered : ∀ n ∈ positions, n / 64 < words.length) (m : Nat)
    : bit (positions.foldl mark words) m = true ↔ m ∈ positions ∨ bit words m = true := by
  induction positions generalizing words with
  | nil => simp
  | cons n rest ih =>
      have reached := covered n List.mem_cons_self
      rw [List.foldl_cons, ih (by
          rw [length_mark]
          exact fun m member => covered m (List.mem_cons_of_mem _ member)),
        bit_mark reached, List.mem_cons, Bool.or_eq_true, decide_eq_true_eq]
      tauto

theorem bit_markRun {words : List Word} {start stop : Nat} (covered : stop ≤ 64 * words.length)
    (m : Nat)
    : bit (markRun words start stop) m = true ↔ (start ≤ m ∧ m < stop) ∨ bit words m = true := by
  unfold markRun
  rw [bit_foldl_mark]
  · rw [List.mem_range'_1]
    refine or_congr_left ⟨fun inside => ⟨inside.1, by omega⟩, fun inside => ⟨inside.1, by omega⟩⟩
  · intro n member
    have inside := List.mem_range'_1.mp member
    omega

/-- The bits of a word that are set. -/
def ones (word : Word) : Nat := Nat.count (word.getLsbD · = true) 64

/-- The lowest bit of a word that is set. -/
def lowest (word : Word) : Option Nat := (List.range 64).find? (word.getLsbD ·)

/-- Words counted one at a time count the positions marked in them, by induction on how many. -/
theorem sum_ones (words : Nat → Word) (count : Nat)
    : ((List.range count).map fun i => ones (words i)).sum
      = Nat.count (fun n => (words (n / 64)).getLsbD (n % 64) = true) (64 * count) := by
  induction count with
  | zero => rfl
  | succ count ih =>
      rw [List.range_succ, List.map_append, List.sum_append, ih, List.map_singleton,
        List.sum_singleton, Nat.mul_succ, Nat.count_add]
      congr 1
      refine Nat.le_antisymm (Nat.count_mono_left fun k below => ?_)
        (Nat.count_mono_left fun k below => ?_)
      all_goals
        rw [show (64 * count + k) / 64 = count by omega, show (64 * count + k) % 64 = k by omega]
        exact id

end Words
