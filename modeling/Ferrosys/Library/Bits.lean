import Mathlib.Data.Nat.Count
import Mathlib.Data.List.Basic
import Mathlib.Tactic.Linarith

/-! A set of positions packed into bytes, least significant bit first: reading and setting
one position, counting the set ones of a prefix, and scanning for the next of a kind.
-/

namespace Bits

abbrev Byte := BitVec 8

/-- Position `i` within a byte, as a mask. -/
def mask (i : Nat) : Byte := 1#8 <<< (i % 8)

/-- Position `i` is set. Positions past the last byte are not. -/
def isSet (bytes : List Byte) (i : Nat) : Bool :=
  ((bytes[i / 8]?).getD 0 &&& mask i) != 0

/-- Set position `i`. A position past the last byte is left alone. -/
def setBit (bytes : List Byte) (i : Nat) : List Byte :=
  bytes.modify (i / 8) (· ||| mask i)

@[simp] theorem length_setBit (bytes : List Byte) (i : Nat)
    : (setBit bytes i).length = bytes.length :=
  List.length_modify ..

/-- Masking a byte reads its bit. -/
theorem and_mask_ne_zero (byte : Byte) (i : Nat)
    : ((byte &&& mask i) != 0) = byte.getLsbD (i % 8) := by
  have small : i % 8 < 8 := Nat.mod_lt _ (by decide)
  have single : mask i = BitVec.twoPow 8 (i % 8) := rfl
  rw [single, BitVec.and_twoPow]
  cases bit : byte.getLsbD (i % 8) with
  | false => simp
  | true =>
      simp only [if_true, bne_iff_ne, ne_eq]
      intro zero
      have := congrArg (BitVec.getLsbD · (i % 8)) zero
      simp [small] at this

theorem isSet_eq_getLsbD (bytes : List Byte) (i : Nat)
    : isSet bytes i = ((bytes[i / 8]?).getD 0).getLsbD (i % 8) :=
  and_mask_ne_zero _ _

/-- Setting a position the bytes cover sets that one and no other. -/
theorem isSet_setBit {bytes : List Byte} {i : Nat} (covered : i / 8 < bytes.length) (j : Nat)
    : isSet (setBit bytes i) j = (isSet bytes j || decide (i = j)) := by
  have small : i % 8 < 8 := Nat.mod_lt _ (by decide)
  have single : mask i = BitVec.twoPow 8 (i % 8) := rfl
  rw [isSet_eq_getLsbD, isSet_eq_getLsbD, setBit, List.getElem?_modify]
  by_cases same : i / 8 = j / 8
  · rw [← same, List.getElem?_eq_getElem covered]
    have position : i % 8 = j % 8 ↔ i = j := by omega
    simp [single, small, position]
  · have other : i ≠ j := fun equal => same (congrArg (· / 8) equal)
    simp [same, other]

/-- The set bits of one byte. -/
def countOnes (byte : Byte) : Nat := Nat.count (byte.getLsbD · = true) 8

/-- The set positions among the first `n`, whole bytes first and a partial byte masked. -/
def usedInPrefix (bytes : List Byte) (n : Nat) : Nat :=
  let whole := n / 8
  let used := ((bytes.take whole).map countOnes).sum
  let rem := n % 8
  if rem != 0 then
    used + countOnes ((bytes[whole]?).getD 0 &&& (1#8 <<< rem - 1))
  else
    used

/-- A mask of the low bits keeps just those bits. -/
theorem countOnes_and_low (byte : Byte) {rem : Nat} (small : rem < 8)
    : countOnes (byte &&& (1#8 <<< rem - 1)) = Nat.count (byte.getLsbD · = true) rem := by
  have low : ∀ k < 8, (1#8 <<< rem - 1).getLsbD k = decide (k < rem) := by
    revert small rem
    decide
  have parts := Nat.count_add ((byte &&& (1#8 <<< rem - 1)).getLsbD · = true) rem (8 - rem)
  rw [Nat.add_sub_cancel' small.le] at parts
  have front : Nat.count ((byte &&& (1#8 <<< rem - 1)).getLsbD · = true) rem
      = Nat.count (byte.getLsbD · = true) rem := by
    refine Nat.le_antisymm (Nat.count_mono_left fun k below => ?_)
      (Nat.count_mono_left fun k below => ?_)
    all_goals
      rw [BitVec.getLsbD_and, low k (by omega)]
      simp [below]
  have back : Nat.count (fun k => (byte &&& (1#8 <<< rem - 1)).getLsbD (rem + k) = true)
      (8 - rem) = 0 := by
    refine Nat.count_iff_forall_not.mpr fun k below => ?_
    rw [BitVec.getLsbD_and, low _ (by omega)]
    simp
  rw [countOnes, parts, front, back, Nat.add_zero]

/-- The prefix count counts the set positions, by induction over the bytes. -/
theorem usedInPrefix_eq_count {bytes : List Byte} {n : Nat} (covered : n ≤ 8 * bytes.length)
    : usedInPrefix bytes n = Nat.count (isSet bytes · = true) n := by
  induction bytes generalizing n with
  | nil =>
      obtain rfl : n = 0 := by simpa using covered
      rfl
  | cons byte rest ih =>
      have here : ∀ k < 8, isSet (byte :: rest) k = byte.getLsbD k := by
        intro k below
        rw [isSet_eq_getLsbD, Nat.div_eq_of_lt below, Nat.mod_eq_of_lt below]
        rfl
      have count_here : ∀ m ≤ 8, Nat.count (isSet (byte :: rest) · = true) m
          = Nat.count (byte.getLsbD · = true) m := by
        intro m most
        refine Nat.le_antisymm (Nat.count_mono_left fun k below => ?_)
          (Nat.count_mono_left fun k below => ?_)
        all_goals
          rw [here k (by omega)]
          exact id
      by_cases small : n < 8
      · rw [count_here n small.le, ← countOnes_and_low byte small]
        simp only [usedInPrefix, Nat.div_eq_of_lt small, Nat.mod_eq_of_lt small,
          List.take_zero, List.map_nil, List.sum_nil]
        by_cases none_ : n = 0
        · subst none_
          simp [countOnes]
        · simp [none_]
      · obtain ⟨m, rfl⟩ : ∃ m, n = 8 + m := ⟨n - 8, by omega⟩
        rw [Nat.count_add, count_here 8 le_rfl]
        have later : (fun k => isSet (byte :: rest) (8 + k) = true)
            = (isSet rest · = true) := by
          funext k
          rw [isSet_eq_getLsbD, isSet_eq_getLsbD, Nat.add_div_left _ (by decide),
            Nat.add_mod_left]
          rfl
        simp only [later]
        rw [← ih (by simp only [List.length_cons] at covered; omega)]
        simp only [usedInPrefix, Nat.add_div_left _ (show 0 < 8 by decide), Nat.add_mod_left,
          List.take_succ_cons, List.map_cons, List.sum_cons, List.getElem?_cons_succ]
        split
        · simp only [countOnes]
          omega
        · rfl

/-- Move forward while `p` holds, over `room` positions at most. -/
def scanWhile (p : Nat → Bool) : (room at_ : Nat) → Nat
  | 0, at_ => at_
  | room + 1, at_ => if p at_ then scanWhile p room (at_ + 1) else at_

/-- What a scan passes over satisfies `p`, and what stops it short does not, by induction on
the room it has.
-/
theorem scanWhile_spec (p : Nat → Bool) (room at_ : Nat)
    : at_ ≤ scanWhile p room at_
      ∧ scanWhile p room at_ ≤ at_ + room
      ∧ (∀ k, at_ ≤ k → k < scanWhile p room at_ → p k = true)
      ∧ (scanWhile p room at_ < at_ + room → p (scanWhile p room at_) = false) := by
  induction room generalizing at_ with
  | zero => exact ⟨le_rfl, le_rfl, fun k least most => absurd most (by simpa [scanWhile]), by
      simp [scanWhile]⟩
  | succ room ih =>
      rw [scanWhile]
      split
      next holds =>
        obtain ⟨least, most, passed, stopped⟩ := ih (at_ + 1)
        refine ⟨by omega, by omega, ?_, fun short => stopped (by omega)⟩
        intro k lower upper
        rcases Nat.eq_or_lt_of_le lower with rfl | after
        · exact holds
        · exact passed k after upper
      next fails =>
        exact ⟨le_rfl, by omega, fun k least most => by omega, fun _ => by simpa using fails⟩

/-- A scan that has room and finds `p` at its start moves. -/
theorem lt_scanWhile {p : Nat → Bool} {room at_ : Nat} (some_ : 0 < room)
    (holds : p at_ = true)
    : at_ < scanWhile p room at_ := by
  cases room with
  | zero => cases some_
  | succ room =>
      rw [scanWhile, if_pos holds]
      exact (scanWhile_spec p room (at_ + 1)).1

/-- Positions of the other kind leave a count as it is. -/
theorem count_eq_of_forall_not {p : Nat → Prop} [DecidablePred p] {i j : Nat} (le : i ≤ j)
    (none_ : ∀ k, i ≤ k → k < j → ¬ p k)
    : Nat.count p j = Nat.count p i := by
  obtain ⟨n, rfl⟩ := Nat.exists_eq_add_of_le le
  have rest : Nat.count (fun k => p (i + k)) n = 0 :=
    Nat.count_iff_forall_not.mpr fun k below => none_ (i + k) (by omega) (by omega)
  rw [Nat.count_add, rest, Nat.add_zero]

/-- Positions of one kind all add to a count. -/
theorem count_eq_add_of_forall {p : Nat → Prop} [DecidablePred p] {i j : Nat} (le : i ≤ j)
    (all : ∀ k, i ≤ k → k < j → p k)
    : Nat.count p j = Nat.count p i + (j - i) := by
  obtain ⟨n, rfl⟩ := Nat.exists_eq_add_of_le le
  have rest : Nat.count (fun k => p (i + k)) n = n :=
    Nat.count_iff_forall.mpr fun k below => all (i + k) (by omega) (by omega)
  rw [Nat.count_add, rest, Nat.add_sub_cancel_left]

/-- Two kinds that complement each other count every position, by induction on the number of
positions.
-/
theorem count_add_count_of_not {p q : Nat → Prop} [DecidablePred p] [DecidablePred q] {n : Nat}
    (other : ∀ k < n, (q k ↔ ¬ p k))
    : Nat.count p n + Nat.count q n = n := by
  induction n with
  | zero => rfl
  | succ n ih =>
      have before := ih fun k below => other k (by omega)
      have here := other n (Nat.lt_succ_self n)
      rw [Nat.count_succ, Nat.count_succ]
      by_cases holds : p n
      · simp only [holds, not_true, iff_false] at here
        rw [if_pos holds, if_neg here]
        omega
      · rw [if_neg holds, if_pos (here.mpr holds)]
        omega

end Bits
