import Mathlib.Data.List.SplitBy
import Mathlib.Data.List.Pairwise

/-! A list in the order of a number of its members, cut where the number changes: what holds between
the members of each part is what holds between those of one number.
-/

namespace Groups

variable {α : Type} {number : α → Nat}

/-- The parts of a list, each the neighbours of one number. -/
def groups (number : α → Nat) (list : List α) : List (List α) :=
  list.splitBy fun a b => number a == number b

theorem flatten_groups (list : List α) : (groups number list).flatten = list :=
  List.flatten_splitBy _ _

/-- The members of a part have one number. -/
theorem number_eq_of_mem_groups {list part : List α} (member : part ∈ groups number list)
    : part.Pairwise fun a b => number a = number b := by
  have chain : part.IsChain fun a b => number a = number b :=
    (List.isChain_of_mem_splitBy member).imp fun a b same => beq_iff_eq.mp same
  have : IsTrans α fun a b => number a = number b := ⟨fun _ _ _ => Eq.trans⟩
  exact List.isChain_iff_pairwise.mp chain

/-- Parts of one number each go up where they are in order and neighbours differ, by induction on
them.
-/
theorem pairwise_lt {parts : List (List α)} (full : ∀ part ∈ parts, part ≠ [])
    (same : ∀ part ∈ parts, ∀ a ∈ part, ∀ b ∈ part, number a = number b)
    (sorted : parts.flatten.Pairwise fun a b => number a ≤ number b)
    (differ : parts.IsChain fun a b => ∃ someA someB,
      (number (a.getLast someA) == number (b.head someB)) = false)
    : parts.Pairwise fun first second => ∀ a ∈ first, ∀ b ∈ second, number a < number b := by
  induction parts with
  | nil => exact .nil
  | cons part rest ih =>
      obtain ⟨-, later, between⟩ := List.pairwise_append.mp (List.flatten_cons ▸ sorted)
      have goesUp := ih (fun other member => full other (List.mem_cons_of_mem _ member))
        (fun other member => same other (List.mem_cons_of_mem _ member)) later differ.tail
      refine .cons (fun other member a inPart b inOther => ?_) goesUp
      cases rest with
      | nil => exact absurd member List.not_mem_nil
      | cons next rest =>
          obtain ⟨someA, someB, apart⟩ := (List.isChain_cons_cons.mp differ).1
          have inNext := List.head_mem someB
          have least : number a < number (next.head someB) := by
            have upto := between a inPart _ (List.mem_flatten_of_mem List.mem_cons_self inNext)
            rw [same part List.mem_cons_self a inPart _ (List.getLast_mem someA)] at upto ⊢
            exact Nat.lt_of_le_of_ne upto (beq_eq_false_iff_ne.mp apart)
          rcases List.mem_cons.mp member with rfl | later
          · exact same other (List.mem_cons_of_mem _ List.mem_cons_self) _ inNext b inOther ▸ least
          · exact least.trans ((List.pairwise_cons.mp goesUp).1 other later _ inNext b inOther)

/-- What holds between the members of each part of a list in order is what holds between its
members of one number.
-/
theorem forall_groups_iff {list : List α} {holds : α → α → Prop}
    (sorted : list.Pairwise fun a b => number a ≤ number b)
    : (∀ part ∈ groups number list, part.Pairwise holds)
      ↔ list.Pairwise fun a b => number a = number b → holds a b := by
  have goesUp : (groups number list).Pairwise
      fun first second => ∀ a ∈ first, ∀ b ∈ second, number a < number b := by
    refine pairwise_lt (fun part member => List.ne_nil_of_mem_splitBy member)
      (fun part member a inA b inB => ?_) ((flatten_groups list).symm ▸ sorted)
      (List.isChain_getLast_head_splitBy (fun a b => number a == number b) list)
    have : Std.Symm fun a b : α => number a = number b := ⟨fun _ _ => Eq.symm⟩
    exact List.Pairwise.forall_of_forall (R := fun a b => number a = number b) (fun _ _ => rfl)
      (number_eq_of_mem_groups member) inA inB
  conv_rhs => rw [← @flatten_groups _ number list, List.pairwise_flatten]
  constructor
  · intro within
    refine ⟨fun part member => (within part member).imp ?_, ?_⟩
    · exact fun held _ => held
    · exact goesUp.imp fun below a inFirst b inSecond same =>
        absurd same (Nat.ne_of_lt (below a inFirst b inSecond))
  · rintro ⟨within, -⟩ part member
    exact ((number_eq_of_mem_groups member).and (within part member)).imp fun both => both.2 both.1

end Groups
