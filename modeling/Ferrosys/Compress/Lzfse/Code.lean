import Ferrosys.Compress.Lzfse.Tables
import Mathlib.Algebra.Order.BigOperators.Group.List

/-! A table of states is a sound code: each symbol's states are consecutive, and their intervals of
next states tile the table. A symbol of `f` states in a table of `2 ^ n` splits them at a point that
brings the two widths of interval out even.
-/

namespace Ferrosys.Compress.Lzfse

open Checked Machine

/-! A symbol's states. The first `early f` of them read `wide n f` bits, the rest one bit less. -/

/-- The bits a symbol's early states read. -/
def wide (n f : Nat) : Nat := n - Nat.log2 f

/-- How many of a symbol's states are early. -/
def early (f : Nat) : Nat := 2 ^ (Nat.log2 f + 1) - f

/-- A symbol's state `j`. -/
def leaving (n symbol f j : Nat) : State :=
  if j < early f then ⟨symbol, wide n f, (f + j) * 2 ^ wide n f - 2 ^ n⟩
  else ⟨symbol, wide n f - 1, (j - early f) * 2 ^ (wide n f - 1)⟩

/-- The state of a symbol that leads to `next`, and the bits read there. -/
def entering (n f next : Nat) : Nat × Nat :=
  if (f - 2 ^ Nat.log2 f) * 2 ^ wide n f ≤ next then
    (next / 2 ^ wide n f - (f - 2 ^ Nat.log2 f), next % 2 ^ wide n f)
  else (early f + next / 2 ^ (wide n f - 1), next % 2 ^ (wide n f - 1))

theorem leaving_symbol (n symbol f j : Nat) : (leaving n symbol f j).symbol = symbol := by
  unfold leaving
  split <;> rfl

theorem log2_le {n f : Nat} (pos : f ≠ 0) (most : f ≤ 2 ^ n) : Nat.log2 f ≤ n := by
  by_contra past
  have least : 2 ^ Nat.log2 f ≤ f := Nat.log2_self_le pos
  have larger : 2 ^ n < 2 ^ Nat.log2 f := Nat.pow_lt_pow_right (by decide) (by omega)
  omega

/-- The states of a symbol split in two at a power of two, its early states those between. -/
theorem early_spec {f : Nat} (pos : f ≠ 0)
    : 2 ^ Nat.log2 f ≤ f ∧ f < 2 * 2 ^ Nat.log2 f ∧ early f = 2 * 2 ^ Nat.log2 f - f := by
  have less : f < 2 ^ (Nat.log2 f + 1) := Nat.lt_log2_self
  rw [Nat.pow_succ'] at less
  exact ⟨Nat.log2_self_le pos, less, by rw [early, Nat.pow_succ']⟩

/-- A word is a high part and a low one in one way. -/
theorem split_iff {width high low word : Nat} (fits : low < 2 ^ width)
    : high * 2 ^ width + low = word ↔ high = word / 2 ^ width ∧ low = word % 2 ^ width := by
  constructor
  · rintro rfl
    rw [Nat.mul_comm, Nat.mul_add_div (Nat.two_pow_pos width), Nat.div_eq_of_lt fits,
      Nat.mul_add_mod, Nat.mod_eq_of_lt fits]
    exact ⟨rfl, rfl⟩
  · rintro ⟨rfl, rfl⟩
    exact Nat.div_add_mod' word _

/-- What a symbol's early states read is twice what its others do. -/
theorem two_pow_wide {n f : Nat} (some_ : 1 ≤ wide n f) : 2 ^ wide n f = 2 * 2 ^ (wide n f - 1) := by
  rw [← Nat.pow_succ', Nat.succ_eq_add_one, Nat.sub_add_cancel some_]

section

variable {n symbol f : Nat} (pos : f ≠ 0) (most : f ≤ 2 ^ n)
include pos most

/-- The state count is its highest symbol bit shifted by what its early states read. -/
theorem two_pow_eq : 2 ^ n = 2 ^ Nat.log2 f * 2 ^ wide n f := by
  have log := log2_le pos most
  rw [← Nat.pow_add, wide, Nat.add_sub_cancel' log]

/-- An early state's interval starts past what the others cover. -/
theorem base_early (j : Nat)
    : (f + j) * 2 ^ wide n f - 2 ^ n = (f - 2 ^ Nat.log2 f + j) * 2 ^ wide n f := by
  obtain ⟨least, -, -⟩ := early_spec pos
  rw [two_pow_eq pos most, ← Nat.sub_mul, show f + j - 2 ^ Nat.log2 f = f - 2 ^ Nat.log2 f + j by
    omega]

/-- A symbol of every state has early ones only, so one with others reads a bit to spare. -/
theorem wide_pos {j : Nat} (below : j < f) (late : early f ≤ j) : 1 ≤ wide n f := by
  obtain ⟨least, -, split⟩ := early_spec pos
  by_contra none_
  rw [two_pow_eq pos most, show wide n f = 0 by omega, Nat.pow_zero, Nat.mul_one] at most
  omega

/-- A symbol's state leads to `next` on what is read exactly where it is the one entered by. -/
theorem leaving_iff {next j read : Nat} (inside : next < 2 ^ n)
    : (j < f ∧ read < 2 ^ (leaving n symbol f j).bits ∧ (leaving n symbol f j).base + read = next)
      ↔ (j, read) = entering n f next := by
  obtain ⟨least, less, split⟩ := early_spec pos
  have count := two_pow_eq pos most
  have room := Nat.two_pow_pos (wide n f)
  have quotient : next / 2 ^ wide n f < 2 ^ Nat.log2 f := by
    rwa [Nat.div_lt_iff_lt_mul room, ← count]
  unfold leaving entering
  by_cases behind : (f - 2 ^ Nat.log2 f) * 2 ^ wide n f ≤ next
  · have high : f - 2 ^ Nat.log2 f ≤ next / 2 ^ wide n f := (Nat.le_div_iff_mul_le room).mpr behind
    rw [if_pos behind, Prod.mk.injEq]
    constructor
    · rintro ⟨below, fits, leads⟩
      by_cases soon : j < early f
      · rw [if_pos soon] at fits leads
        change read < 2 ^ wide n f at fits
        change (f + j) * 2 ^ wide n f - 2 ^ n + read = next at leads
        rw [base_early pos most, split_iff fits] at leads
        exact ⟨by omega, leads.2⟩
      · -- A late state leads only before where the early ones start.
        rw [if_neg soon] at fits leads
        change read < 2 ^ (wide n f - 1) at fits
        change (j - early f) * 2 ^ (wide n f - 1) + read = next at leads
        have double := two_pow_wide (wide_pos pos most below (by omega))
        have last : (j - early f + 1) * 2 ^ (wide n f - 1)
            ≤ 2 * (f - 2 ^ Nat.log2 f) * 2 ^ (wide n f - 1) :=
          Nat.mul_le_mul_right _ (by omega)
        rw [Nat.add_mul, Nat.one_mul] at last
        rw [double, ← Nat.mul_assoc, Nat.mul_comm _ 2] at behind
        omega
    · rintro ⟨rfl, rfl⟩
      have soon : next / 2 ^ wide n f - (f - 2 ^ Nat.log2 f) < early f := by omega
      have fits := Nat.mod_lt next room
      rw [if_pos soon]
      refine ⟨by omega, fits, ?_⟩
      change (f + (next / 2 ^ wide n f - (f - 2 ^ Nat.log2 f))) * 2 ^ wide n f - 2 ^ n + _ = next
      rw [base_early pos most, split_iff fits]
      exact ⟨by omega, rfl⟩
  · rw [if_neg behind, Prod.mk.injEq]
    constructor
    · rintro ⟨below, fits, leads⟩
      by_cases soon : j < early f
      · -- An early state leads only past where the late ones end.
        rw [if_pos soon] at fits leads
        change (f + j) * 2 ^ wide n f - 2 ^ n + read = next at leads
        rw [base_early pos most, Nat.add_mul] at leads
        omega
      · rw [if_neg soon] at fits leads
        change read < 2 ^ (wide n f - 1) at fits
        change (j - early f) * 2 ^ (wide n f - 1) + read = next at leads
        rw [split_iff fits] at leads
        exact ⟨by omega, leads.2⟩
    · rintro ⟨rfl, rfl⟩
      have some_ : 1 ≤ wide n f := by
        refine wide_pos pos most (j := early f) ?_ le_rfl
        have above : 0 < f - 2 ^ Nat.log2 f := by
          by_contra even
          rw [show f - 2 ^ Nat.log2 f = 0 by omega, Nat.zero_mul] at behind
          exact behind (Nat.zero_le _)
        omega
      have double := two_pow_wide some_
      have narrow := Nat.two_pow_pos (wide n f - 1)
      have few : next / 2 ^ (wide n f - 1) < 2 * (f - 2 ^ Nat.log2 f) := by
        rw [double, ← Nat.mul_assoc, Nat.mul_comm _ 2] at behind
        rw [Nat.div_lt_iff_lt_mul narrow]
        omega
      have fits := Nat.mod_lt next narrow
      rw [if_neg (Nat.not_lt.mpr (Nat.le_add_right _ _))]
      refine ⟨by omega, fits, ?_⟩
      change (early f + next / 2 ^ (wide n f - 1) - early f) * 2 ^ (wide n f - 1) + _ = next
      rw [split_iff fits, Nat.add_sub_cancel_left]
      exact ⟨rfl, rfl⟩

/-- A symbol's states lead to states of the table alone. -/
theorem leaving_le {j : Nat} (below : j < f)
    : (leaving n symbol f j).base + 2 ^ (leaving n symbol f j).bits ≤ 2 ^ n := by
  obtain ⟨least, less, split⟩ := early_spec pos
  have count := two_pow_eq pos most
  unfold leaving
  by_cases soon : j < early f
  · rw [if_pos soon]
    change (f + j) * 2 ^ wide n f - 2 ^ n + 2 ^ wide n f ≤ 2 ^ n
    rw [base_early pos most, count, ← Nat.succ_mul]
    exact Nat.mul_le_mul_right _ (by omega)
  · rw [if_neg soon]
    change (j - early f) * 2 ^ (wide n f - 1) + 2 ^ (wide n f - 1) ≤ 2 ^ n
    have double := two_pow_wide (wide_pos pos most below (by omega))
    rw [count, double, ← Nat.succ_mul, ← Nat.mul_assoc, Nat.mul_comm _ 2]
    exact Nat.mul_le_mul_right _ (by omega)

/-- A table of fewer than `2 ^ 31` states works a symbol's states out without a wrap. -/
theorem stateOf_eq (few : n ≤ 30) {j : Nat} (below : j < f)
    : stateOf (2 ^ n) symbol f (wide n f) (early f) j = .ok (leaving n symbol f j) := by
  obtain ⟨least, less, split⟩ := early_spec pos
  have count := two_pow_eq pos most
  have bound : 2 ^ n ≤ 2 ^ 30 := Nat.pow_le_pow_right (by decide) few
  have narrow : wide n f < 32 := by
    unfold wide
    omega
  unfold stateOf leaving
  by_cases soon : j < early f
  · have high : (f + j) * 2 ^ wide n f < 2 * 2 ^ n := by
      rw [count, ← Nat.mul_assoc]
      exact Nat.mul_lt_mul_of_pos_right (by omega) (Nat.two_pow_pos _)
    have low : 2 ^ n ≤ (f + j) * 2 ^ wide n f := by
      rw [count]
      exact Nat.mul_le_mul_right _ (by omega)
    rw [if_pos soon, if_pos soon, plus32, if_pos (by omega), ok_bind, shiftLeft32, if_pos narrow,
      Nat.mod_eq_of_lt (by omega), ok_bind, asWord_of_lt (by omega), minus_of_le low]
    rfl
  · have some_ := wide_pos pos most below (by omega)
    have double := two_pow_wide some_
    have high : (j - early f) * 2 ^ (wide n f - 1) < 2 ^ n := by
      rw [count, double, ← Nat.mul_assoc, Nat.mul_comm _ 2]
      exact Nat.mul_lt_mul_of_pos_right (by omega) (Nat.two_pow_pos _)
    rw [if_neg soon, if_neg soon, minus_of_le some_, ok_bind, minus_of_le (by omega), ok_bind,
      shiftLeft32, if_pos (by omega), Nat.mod_eq_of_lt (by omega)]
    rfl

end

/-! The table: the symbols' states, and none past them. -/

/-- A symbol's states, in order. -/
def symbolStates (n symbol f : Nat) : List (Option State) :=
  (List.range f).map fun j => some (leaving n symbol f j)

/-- The states of the symbols from `symbol` on. -/
def allStates (n : Nat) : (freq : List Nat) → (symbol : Nat) → List (Option State)
  | [], _ => []
  | f :: freq, symbol => symbolStates n symbol f ++ allStates n freq (symbol + 1)

theorem length_symbolStates (n symbol f : Nat) : (symbolStates n symbol f).length = f := by
  rw [symbolStates, List.length_map, List.length_range]

theorem length_allStates (n : Nat) (freq : List Nat) (symbol : Nat)
    : (allStates n freq symbol).length = freq.sum := by
  induction freq generalizing symbol with
  | nil => rfl
  | cons f freq ih => rw [allStates, List.length_append, length_symbolStates, ih, List.sum_cons]

/-- The states of a symbol written over none, by induction on how many there are. -/
theorem place_eq {n symbol f count j : Nat} {done rest : List (Option State)} (few : n ≤ 30)
    (pos : f ≠ 0) (most : f ≤ 2 ^ n) (last : j + count = f)
    : place (2 ^ n) symbol f (wide n f) (early f) count j done.length
        (done ++ (List.replicate count none ++ rest))
      = .ok (done ++ ((List.range' j count).map (fun j => some (leaving n symbol f j)) ++ rest)) := by
  induction count generalizing j done with
  | zero => rfl
  | succ count ih =>
      have next := @ih (j + 1) (done ++ [some (leaving n symbol f j)]) (by omega)
      rw [List.length_append, List.append_assoc, List.append_assoc] at next
      rw [place, stateOf_eq pos most few (by omega), ok_bind, if_pos, List.set_append_right _ _ le_rfl,
        Nat.sub_self, List.replicate_succ, List.cons_append, List.set_cons_zero, List.range'_succ,
        List.map_cons, List.cons_append]
      · exact next
      · rw [List.length_append, List.replicate_succ, List.cons_append, List.length_cons]
        omega

/-- The states of the symbols written over none, by induction on the symbols. -/
theorem assign_eq {n symbol : Nat} {freq : List Nat} {done rest : List (Option State)}
    (few : n ≤ 30) (fits : freq.sum ≤ 2 ^ n)
    : assign (2 ^ n) freq symbol done.length (done ++ (List.replicate freq.sum none ++ rest))
      = .ok (done ++ (allStates n freq symbol ++ rest)) := by
  induction freq generalizing symbol done with
  | nil => rfl
  | cons f freq ih =>
      rw [List.sum_cons] at fits ⊢
      have next := @ih (symbol + 1) (done ++ symbolStates n symbol f) (by omega)
      rw [List.length_append, List.append_assoc, List.append_assoc, length_symbolStates] at next
      rw [List.replicate_add, assign, allStates]
      by_cases none_ : f = 0
      · subst none_
        rw [if_pos rfl]
        exact next
      · have most : f ≤ 2 ^ n := by omega
        have log := log2_le none_ most
        have bound : 2 ^ n ≤ 2 ^ 30 := Nat.pow_le_pow_right (by decide) few
        have powers : ∀ m ≤ 30, trailingZeros (2 ^ m) = m := by decide
        have double : 2 * 2 ^ n / 2 ^ (n - Nat.log2 f) = 2 ^ (Nat.log2 f + 1) := by
          rw [← Nat.pow_succ', Nat.pow_div (by omega) Nat.two_pos]
          exact congrArg _ (by omega)
        have less : f < 2 ^ (Nat.log2 f + 1) := Nat.lt_log2_self
        have placed := @place_eq n symbol f f 0 done (List.replicate freq.sum none ++ rest) few none_
          most (Nat.zero_add f)
        rw [← List.range_eq_range'] at placed
        rw [if_neg none_, powers n few, show leadingZeros f = 31 - Nat.log2 f from if_neg none_,
          minus_of_le (by omega), ok_bind, show 31 - (31 - Nat.log2 f) = Nat.log2 f by omega,
          minus_of_le log, ok_bind, asWord_of_lt (by omega), times32, if_pos (by omega), ok_bind,
          shiftRight, if_pos (by omega), ok_bind, double, minus_of_le less.le, ok_bind,
          List.append_assoc, List.append_assoc]
        exact bind_eq_ok.mpr ⟨_, placed, next⟩

/-- A table of fewer than `2 ^ 31` states is its symbols' states and none past them. -/
theorem transitions_eq {n : Nat} {freq : List Nat} (few : n ≤ 30) (fits : freq.sum ≤ 2 ^ n)
    : transitions (2 ^ n) freq
      = .ok (allStates n freq 0 ++ List.replicate (2 ^ n - freq.sum) none) := by
  have wrote := @assign_eq n 0 freq [] (List.replicate (2 ^ n - freq.sum) none) few fits
  rw [← List.replicate_add, Nat.add_sub_cancel' fits] at wrote
  rw [transitions, if_neg (by omega)]
  exact wrote

/-- What is written at a place of a symbol's states. -/
theorem getElem?_symbolStates {n symbol f position : Nat} {entry : State}
    : (symbolStates n symbol f)[position]? = some (some entry)
      ↔ position < f ∧ leaving n symbol f position = entry := by
  rw [symbolStates, List.getElem?_map]
  by_cases below : position < f
  · rw [List.getElem?_range below, Option.map_some, Option.some.injEq, Option.some.injEq]
    exact ⟨fun same => ⟨below, same⟩, And.right⟩
  · rw [List.getElem?_eq_none (by rw [List.length_range]; omega)]
    exact ⟨nofun, fun here => absurd here.1 below⟩

/-- What is written at a place of the symbols' states, by induction on the symbols. -/
theorem getElem?_allStates {n first position : Nat} {freq : List Nat} {entry : State}
    : (allStates n freq first)[position]? = some (some entry)
      ↔ ∃ symbol f j, freq[symbol]? = some f ∧ j < f ∧ (freq.take symbol).sum + j = position ∧
        leaving n (first + symbol) f j = entry := by
  induction freq generalizing first position with
  | nil => exact ⟨nofun, fun ⟨_, _, _, here, _⟩ => nomatch here⟩
  | cons f freq ih =>
      rw [allStates]
      by_cases before : position < f
      · rw [List.getElem?_append_left (by rwa [length_symbolStates]), getElem?_symbolStates]
        constructor
        · rintro ⟨below, same⟩
          exact ⟨0, f, position, rfl, below, Nat.zero_add _, same⟩
        · rintro ⟨symbol, g, j, here, below, at_, same⟩
          cases symbol with
          | zero =>
              obtain rfl := Option.some.inj here
              obtain rfl : j = position := by
                rw [← at_]
                exact (Nat.zero_add j).symm
              exact ⟨below, same⟩
          | succ symbol =>
              rw [List.take_succ_cons, List.sum_cons] at at_
              omega
      · rw [List.getElem?_append_right (by rw [length_symbolStates]; omega), length_symbolStates, ih]
        constructor
        · rintro ⟨symbol, g, j, here, below, at_, same⟩
          refine ⟨symbol + 1, g, j, here, below, ?_, ?_⟩
          · rw [List.take_succ_cons, List.sum_cons]
            omega
          · rwa [Nat.add_right_comm, Nat.add_assoc] at same
        · rintro ⟨symbol, g, j, here, below, at_, same⟩
          cases symbol with
          | zero =>
              obtain rfl := Option.some.inj here
              rw [List.take_zero, List.sum_nil] at at_
              omega
          | succ symbol =>
              rw [List.take_succ_cons, List.sum_cons] at at_
              refine ⟨symbol, g, j, here, below, by omega, ?_⟩
              rwa [Nat.add_right_comm, Nat.add_assoc]

/-- What is written at a place of a table. -/
theorem getElem?_table {n rest position : Nat} {freq : List Nat} {entry : State}
    : (allStates n freq 0 ++ List.replicate rest none)[position]? = some (some entry)
      ↔ ∃ symbol f j, freq[symbol]? = some f ∧ j < f ∧ (freq.take symbol).sum + j = position ∧
        leaving n symbol f j = entry := by
  have known := @getElem?_allStates n 0 position freq entry
  simp only [Nat.zero_add] at known
  rw [← known]
  by_cases before : position < (allStates n freq 0).length
  · rw [List.getElem?_append_left before]
  · have past : (allStates n freq 0)[position]? = none := List.getElem?_eq_none (by omega)
    rw [List.getElem?_append_right (by omega), past]
    refine ⟨fun here => ?_, nofun⟩
    cases List.eq_of_mem_replicate (List.mem_of_getElem? here)

/-! The code. -/

/-- A state a symbol was given, and what it stands for. -/
def Given (table : List (Option State)) (position : Nat) (entry : State) : Prop :=
  table[position]? = some (some entry)

/-- The states leaving one state after another comes to, on whatever bits are read. -/
inductive Reaches (table : List (Option State)) (first : Nat) : Nat → Prop
  | start : Reaches table first first
  | step {position read : Nat} {entry : State} (before : Reaches table first position)
      (given : Given table position entry) (fits : read < 2 ^ entry.bits)
      : Reaches table first (entry.base + read)

/-- What one step of a decoder comes to: leaving the state it is in on so many bits, to a state the
table has.
-/
def Leaves (states : Nat) (table : List (Option State)) (position next : Nat) : Prop :=
  ∃ entry read, Given table position entry ∧ read < 2 ^ entry.bits ∧
    next = (entry.base + read) % 2 ^ 16 ∧ next < states

/-- A table of states is a sound code: a symbol of `f` states has that many, consecutive and after
the ones of the symbols before; the intervals its states lead to tile the table, so every next state
is come to from one of them on one value; a step leads to a state of the table, whichever decoder
takes it; and where the symbols hold every state, no state come to is one no symbol was given.
-/
structure Code (states : Nat) (freq : List Nat) (table : List (Option State)) : Prop where
  sized : table.length = states
  known : ∀ position entry, Given table position entry → entry.symbol < freq.length
  consecutive : ∀ symbol f, freq[symbol]? = some f → ∀ position,
    (∃ entry, Given table position entry ∧ entry.symbol = symbol)
      ↔ (freq.take symbol).sum ≤ position ∧ position < (freq.take symbol).sum + f
  within : ∀ position entry, Given table position entry → entry.base + 2 ^ entry.bits ≤ states
  tiles : ∀ symbol f, freq[symbol]? = some f → 0 < f → ∀ next < states,
    ∃! from_ : Nat × Nat, ∃ entry, Given table from_.1 entry ∧ entry.symbol = symbol ∧
      from_.2 < 2 ^ entry.bits ∧ entry.base + from_.2 = next
  symbolSteps : ∀ position bits symbol next after, bits.Whole →
    symbolStep table position bits = .ok (symbol, next, after) → Leaves states table position next
  valueSteps : ∀ extra base position bits value next after, bits.Whole →
    ValueTable.step ⟨table, extra, base⟩ position bits = .ok (value, next, after) →
    Leaves states table position next
  full : freq.sum = states → ∀ first < states, ∀ position, Reaches table first position →
    ∃ entry, Given table position entry

/-- The value pulled from a bit stream fits the bits asked for. -/
theorem lt_of_pull {bits after : Bits} {count value : Nat} (whole : bits.Whole)
    (pulled : bits.pull count = .ok (value, after)) : value < 2 ^ count :=
  ((Bits.pull_yields whole).2 _ pulled).1

/-- A table whose intervals end within it is stepped through within it. -/
theorem leaves_of_within {states position next read : Nat} {table : List (Option State)}
    {entry : State} (within : entry.base + 2 ^ entry.bits ≤ states)
    (given : Given table position entry) (fits : read < 2 ^ entry.bits)
    (next_ : next = (entry.base + read) % 2 ^ 16) : Leaves states table position next := by
  refine ⟨entry, read, given, fits, next_, ?_⟩
  have low := Nat.mod_le (entry.base + read) (2 ^ 16)
  omega

theorem plus32_eq_ok {a b c : Nat} (sum : plus32 a b = .ok c) : c = a + b := by
  unfold plus32 at sum
  by_cases fits : a + b < 2 ^ 32
  · rw [if_pos fits] at sum
    exact (Except.ok.inj sum).symm
  · rw [if_neg fits] at sum
    cases sum

theorem shiftRight_eq_ok {width word by_ value : Nat} (done : shiftRight width word by_ = .ok value)
    : value = word / 2 ^ by_ := by
  unfold shiftRight at done
  by_cases fits : by_ < width
  · rw [if_pos fits] at done
    exact (Except.ok.inj done).symm
  · rw [if_neg fits] at done
    cases done

theorem symbolStep_leaves {states position next : Nat} {table : List (Option State)}
    {bits after : Bits} {symbol : UInt8} (small : states < 2 ^ 32)
    (within : ∀ position entry, Given table position entry → entry.base + 2 ^ entry.bits ≤ states)
    (whole : bits.Whole) (stepped : symbolStep table position bits = .ok (symbol, next, after))
    : Leaves states table position next := by
  unfold symbolStep at stepped
  obtain ⟨entry, here, stepped⟩ := bind_eq_ok.mp stepped
  have given : Given table position entry :=
    Option.join_eq_some_iff.mp (okOr_eq_ok.mp here)
  obtain ⟨⟨read, rest⟩, pulled, stepped⟩ := bind_eq_ok.mp stepped
  obtain ⟨sum, added, stepped⟩ := bind_eq_ok.mp stepped
  cases stepped
  have fits := lt_of_pull whole pulled
  have inside := within position entry given
  change plus32 entry.base (read % 2 ^ 32) = _ at added
  rw [Nat.mod_eq_of_lt (by omega)] at added
  rw [plus32_eq_ok added]
  exact leaves_of_within inside given fits rfl

theorem valueStep_leaves {states position value next : Nat} {table : List (Option State)}
    {extra base : List Nat} {bits after : Bits} (small : states < 2 ^ 32)
    (within : ∀ position entry, Given table position entry → entry.base + 2 ^ entry.bits ≤ states)
    (whole : bits.Whole)
    (stepped : ValueTable.step ⟨table, extra, base⟩ position bits = .ok (value, next, after))
    : Leaves states table position next := by
  unfold ValueTable.step at stepped
  obtain ⟨entry, here, stepped⟩ := bind_eq_ok.mp stepped
  have given : Given table position entry :=
    Option.join_eq_some_iff.mp (okOr_eq_ok.mp here)
  obtain ⟨more, _, stepped⟩ := bind_eq_ok.mp stepped
  obtain ⟨count, together, stepped⟩ := bind_eq_ok.mp stepped
  obtain ⟨⟨read, rest⟩, pulled, stepped⟩ := bind_eq_ok.mp stepped
  obtain ⟨high, shifted, stepped⟩ := bind_eq_ok.mp stepped
  obtain ⟨sum, added, stepped⟩ := bind_eq_ok.mp stepped
  obtain ⟨_, _, stepped⟩ := bind_eq_ok.mp stepped
  obtain ⟨_, _, stepped⟩ := bind_eq_ok.mp stepped
  obtain ⟨_, _, stepped⟩ := bind_eq_ok.mp stepped
  cases stepped
  have fits := lt_of_pull whole pulled
  have inside := within position entry given
  change shiftRight 64 read more = _ at shifted
  have above : high < 2 ^ entry.bits := by
    rw [shiftRight_eq_ok shifted]
    rw [plus32_eq_ok together, Nat.add_comm, Nat.pow_add] at fits
    exact Nat.div_lt_of_lt_mul fits
  rw [Nat.mod_eq_of_lt (by omega)] at added
  rw [plus32_eq_ok added]
  exact leaves_of_within inside given above rfl

/-- Every state come to in a table whose intervals end within it is one of it, by induction on the
steps.
-/
theorem Reaches.lt {states first position : Nat} {table : List (Option State)}
    (within : ∀ position entry, Given table position entry → entry.base + 2 ^ entry.bits ≤ states)
    (below : first < states) (reaches : Reaches table first position) : position < states := by
  cases reaches with
  | start => exact below
  | step _ given fits =>
      have inside := within _ _ given
      omega

/-- A place of the table within the first symbols' states is one of them, by induction on the
symbols.
-/
theorem exists_symbol {position : Nat} {freq : List Nat} (below : position < freq.sum)
    : ∃ symbol f j, freq[symbol]? = some f ∧ j < f ∧ (freq.take symbol).sum + j = position := by
  induction freq generalizing position with
  | nil => exact absurd below (Nat.not_lt_zero _)
  | cons f freq ih =>
      rw [List.sum_cons] at below
      by_cases first : position < f
      · exact ⟨0, f, position, rfl, first, Nat.zero_add _⟩
      · obtain ⟨symbol, g, j, here, within, at_⟩ := @ih (position - f) (by omega)
        refine ⟨symbol + 1, g, j, here, within, ?_⟩
        rw [List.take_succ_cons, List.sum_cons]
        omega

theorem le_sum_of_getElem? {freq : List Nat} {symbol f : Nat} (here : freq[symbol]? = some f)
    : f ≤ freq.sum :=
  List.single_le_sum (fun _ _ => Nat.zero_le _) f (List.mem_of_getElem? here)

/-- A table of every power of two of states below `2 ^ 31`, whose symbols hold no more than it has,
is a sound code.
-/
theorem transitions_code {n : Nat} {freq : List Nat} (few : n ≤ 30) (fits : freq.sum ≤ 2 ^ n)
    : ∃ table, transitions (2 ^ n) freq = .ok table ∧ Code (2 ^ n) freq table := by
  have bound : 2 ^ n ≤ 2 ^ 30 := Nat.pow_le_pow_right (by decide) few
  refine ⟨_, transitions_eq few fits, ?_⟩
  have within : ∀ position entry,
      Given (allStates n freq 0 ++ List.replicate (2 ^ n - freq.sum) none) position entry →
      entry.base + 2 ^ entry.bits ≤ 2 ^ n := by
    intro position entry given
    obtain ⟨symbol, f, j, here, below, -, rfl⟩ := getElem?_table.mp given
    exact leaving_le (by omega) ((le_sum_of_getElem? here).trans fits) below
  refine ⟨?_, ?_, ?_, within, ?_, ?_, ?_, ?_⟩
  · rw [List.length_append, length_allStates, List.length_replicate]
    omega
  · intro position entry given
    obtain ⟨symbol, f, j, here, -, -, rfl⟩ := getElem?_table.mp given
    rw [leaving_symbol]
    exact (List.getElem?_eq_some_iff.mp here).1
  · intro symbol f here position
    constructor
    · rintro ⟨entry, given, of⟩
      obtain ⟨other, g, j, there, below, at_, rfl⟩ := getElem?_table.mp given
      obtain rfl : other = symbol := (leaving_symbol n other g j).symm.trans of
      obtain rfl := Option.some.inj (there.symm.trans here)
      omega
    · rintro ⟨low, high⟩
      refine ⟨leaving n symbol f (position - (freq.take symbol).sum), ?_, leaving_symbol ..⟩
      exact getElem?_table.mpr ⟨symbol, f, _, here, by omega, by omega, rfl⟩
  · intro symbol f here some_ next inside
    have most := (le_sum_of_getElem? here).trans fits
    have pos := some_.ne'
    have enters := @leaving_iff n symbol f pos most next (entering n f next).1
      (entering n f next).2 inside
    obtain ⟨fewer, narrow, leads⟩ := enters.mpr rfl
    refine ⟨((freq.take symbol).sum + (entering n f next).1, (entering n f next).2),
      ⟨_, getElem?_table.mpr ⟨symbol, f, _, here, fewer, rfl, rfl⟩, leaving_symbol .., narrow,
        leads⟩, ?_⟩
    rintro ⟨position, read⟩ ⟨entry, given, of, low, last⟩
    obtain ⟨other, g, j, there, below, at_, rfl⟩ := getElem?_table.mp given
    obtain rfl : other = symbol := (leaving_symbol n other g j).symm.trans of
    obtain rfl := Option.some.inj (there.symm.trans here)
    have same := (leaving_iff pos most inside).mp ⟨below, low, last⟩
    rw [← same]
    exact Prod.ext at_.symm rfl
  · intro position bits symbol next after whole stepped
    exact symbolStep_leaves (by omega) within whole stepped
  · intro extra base position bits value next after whole stepped
    exact valueStep_leaves (by omega) within whole stepped
  · intro all first below position reaches
    have inside := reaches.lt within below
    obtain ⟨symbol, f, j, here, within, at_⟩ := @exists_symbol position freq (by omega)
    exact ⟨_, getElem?_table.mpr ⟨symbol, f, j, here, within, at_, rfl⟩⟩

/-- Four states that one symbol holds three of and another one are a sound code. -/
theorem transitions_code_four
    : ∃ table, transitions (2 ^ 2) [3, 1] = .ok table ∧ Code (2 ^ 2) [3, 1] table :=
  transitions_code (by decide) (by decide)

/-- A table of `2 ^ 31` states, where the state count twice is past a word, is not made. -/
theorem transitions_panics
    : ¬ ∀ n freq, freq.sum ≤ 2 ^ n →
        ∃ table, transitions (2 ^ n) freq = .ok table ∧ Code (2 ^ n) freq table := by
  intro claimed
  obtain ⟨table, made, -⟩ := claimed 31 [3] (by decide)
  unfold transitions at made
  rw [if_neg (by decide)] at made
  unfold assign at made
  rw [if_neg (by decide), show trailingZeros (2 ^ 31) = 31 by decide,
    show leadingZeros 3 = 30 by decide, minus_of_le (by decide), ok_bind, minus_of_le (by decide),
    ok_bind, show times32 2 (asWord (2 ^ 31)) = .error .panicked by decide] at made
  cases made

end Ferrosys.Compress.Lzfse
