import Mathlib.Data.List.Induction
import Mathlib.Data.List.Sort
import Mathlib.Tactic.Linarith

/-! Runs of positions that may nest, repeat and be empty, met in the order they begin: which of them
share a position with one met before, told by the furthest any before it reaches.
-/

namespace Sweep

/-- The positions from `start` up to `stop`, and what they are for. -/
structure Run (β : Type) where
  start : Nat
  stop : Nat
  by_ : β
deriving DecidableEq

namespace Run

variable {β γ : Type}

def Has (self : Run β) (n : Nat) : Prop := self.start ≤ n ∧ n < self.stop

instance (self : Run β) (n : Nat) : Decidable (self.Has n) := inferInstanceAs (Decidable (_ ∧ _))

/-- Two runs share a position. -/
def Meets (a : Run β) (b : Run γ) : Prop := ∃ n, a.Has n ∧ b.Has n

theorem meets_iff {a : Run β} {b : Run γ}
    : a.Meets b ↔ max a.start b.start < min a.stop b.stop := by
  constructor
  · rintro ⟨n, ⟨beginsA, endsA⟩, beginsB, endsB⟩
    omega
  · intro inside
    exact ⟨max a.start b.start, ⟨by omega, by omega⟩, by omega, by omega⟩

instance (a : Run β) (b : Run γ) : Decidable (a.Meets b) := decidable_of_iff' _ meets_iff

/-- One run comes before another: it begins earlier, or ends no later where both begin. -/
def Before (a b : Run β) : Prop := a.start < b.start ∨ a.start = b.start ∧ a.stop ≤ b.stop

instance : DecidableRel (Before (β := β)) := fun _ _ => inferInstanceAs (Decidable (_ ∨ _ ∧ _))

instance : Std.Total (Before (β := β)) := ⟨fun a b => by unfold Before; omega⟩

instance : IsTrans (Run β) Before := ⟨fun a b c => by unfold Before; omega⟩

theorem Before.start_le {a b : Run β} (before : a.Before b) : a.start ≤ b.start := by
  unfold Before at before
  omega

end Run

variable {β : Type}

/-- The furthest any of the runs reaches. -/
def furthest (runs : List (Run β)) : Nat := runs.foldl (fun far run => max far run.stop) 0

/-- Runs one more than before reach as far as those and it do. -/
theorem furthest_append (runs : List (Run β)) (run : Run β)
    : furthest (runs ++ [run]) = max (furthest runs) run.stop := by
  rw [furthest, List.foldl_append]
  rfl

/-- A position is short of the furthest exactly where it is short of one, by induction on the runs
from the last.
-/
theorem lt_furthest_iff {runs : List (Run β)} {n : Nat}
    : n < furthest runs ↔ ∃ run ∈ runs, n < run.stop := by
  induction runs using List.reverseRecOn with
  | nil => simp [furthest]
  | append_singleton runs run ih =>
      rw [furthest_append, lt_max_iff, ih]
      constructor
      · rintro (⟨other, member, short⟩ | short)
        · exact ⟨other, List.mem_append_left _ member, short⟩
        · exact ⟨run, List.mem_append_right _ List.mem_cons_self, short⟩
      · rintro ⟨other, member, short⟩
        rcases List.mem_append.mp member with before | here
        · exact .inl ⟨other, before, short⟩
        · obtain rfl := List.mem_singleton.mp here
          exact .inr short

/-- A run that is not empty meets one that began no later exactly where it begins short of the
furthest they reach.
-/
theorem exists_meets_iff {before : List (Run β)} {run : Run β}
    (sorted : ∀ earlier ∈ before, earlier.start ≤ run.start) (some_ : run.start < run.stop)
    : (∃ earlier ∈ before, earlier.Meets run) ↔ run.start < furthest before := by
  rw [lt_furthest_iff]
  constructor
  · rintro ⟨earlier, member, n, hasEarlier, hasRun⟩
    exact ⟨earlier, member, Nat.lt_of_le_of_lt hasRun.1 hasEarlier.2⟩
  · rintro ⟨earlier, member, short⟩
    exact ⟨earlier, member, run.start, ⟨sorted earlier member, short⟩, Nat.le_refl _, some_⟩

/-- The runs that share a position with one met before them. -/
def clashes (before : List (Run β)) : List (Run β) → List (Run β)
  | [] => []
  | run :: rest =>
      (if ∃ earlier ∈ before, earlier.Meets run then [run] else [])
        ++ clashes (before ++ [run]) rest

/-- What is met later adds to the runs that clash, by induction on what is met first. -/
theorem clashes_append (before first second : List (Run β))
    : clashes before (first ++ second)
      = clashes before first ++ clashes (before ++ first) second := by
  induction first generalizing before with
  | nil => rw [List.nil_append, List.append_nil]; rfl
  | cons run rest ih =>
      rw [List.cons_append, clashes, clashes, ih, List.append_assoc, List.append_assoc]
      rfl

/-- Nothing clashes exactly where no run shares a position with another, by induction on the runs.
-/
theorem clashes_eq_nil {before runs : List (Run β)}
    : clashes before runs = [] ↔ (∀ run ∈ runs, ∀ earlier ∈ before, ¬earlier.Meets run)
      ∧ runs.Pairwise fun a b => ¬a.Meets b := by
  induction runs generalizing before with
  | nil => simp [clashes]
  | cons run rest ih =>
      rw [clashes, List.append_eq_nil_iff, ih, List.pairwise_cons]
      have here : (if ∃ earlier ∈ before, earlier.Meets run then [run] else []) = []
          ↔ ∀ earlier ∈ before, ¬earlier.Meets run := by
        split
        next some_ =>
          refine iff_of_false nofun fun none_ => ?_
          obtain ⟨earlier, member, meets⟩ := some_
          exact none_ earlier member meets
        next none_ =>
          exact iff_of_true rfl fun earlier member meets => none_ ⟨earlier, member, meets⟩
      rw [here]
      simp only [List.forall_mem_cons, List.forall_mem_append, List.not_mem_nil, false_implies,
        implies_true, and_true, forall_and]
      tauto

end Sweep
