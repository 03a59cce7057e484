import Mathlib.Data.List.Chain
import Mathlib.Data.List.Sort

/-! Sequences whose members carry a mark, zero for one that stands: every run of marked members is
put in the order of its marks, what stands staying where it is and members of one mark keeping
theirs.
-/

namespace CanonicalOrder

variable {α : Type} (mark : α → Nat)

/-- One member may stand before another in a run. -/
def Upto (a b : α) : Prop := mark a ≤ mark b

instance : DecidableRel (Upto mark) := fun a b => Nat.decLe (mark a) (mark b)

/-- The members with their runs in order, `run` being the marked ones met since the last that
stands.
-/
def reorderFrom (run : List α) : List α → List α
  | [] => run.insertionSort (Upto mark)
  | x :: rest =>
      if mark x = 0 then run.insertionSort (Upto mark) ++ x :: reorderFrom [] rest
      else reorderFrom (run ++ [x]) rest

def reorder (members : List α) : List α := reorderFrom mark [] members

/-- No marked member comes right behind one of a greater mark. -/
def Ordered (members : List α) : Prop := members.IsChain fun a b => mark b = 0 ∨ mark a ≤ mark b

instance (members : List α) : Decidable (Ordered mark members) :=
  inferInstanceAs (Decidable (List.IsChain _ _))

/-- A member goes in front of a sequence, past the marked ones of less mark. -/
def place (x : α) : List α → List α
  | [] => [x]
  | y :: rest => if 0 < mark y ∧ mark y < mark x then y :: place x rest else x :: y :: rest

variable {mark}

theorem place_past {x y : α} (past : 0 < mark y ∧ mark y < mark x) (rest : List α)
    : place mark x (y :: rest) = y :: place mark x rest := if_pos past

theorem place_here {x y : α} (here : ¬(0 < mark y ∧ mark y < mark x)) (rest : List α)
    : place mark x (y :: rest) = x :: y :: rest := if_neg here

theorem mem_place {x y : α} {members : List α}
    : y ∈ place mark x members ↔ y = x ∨ y ∈ members := by
  induction members with
  | nil => simp [place]
  | cons z rest ih =>
      rw [place]
      split
      · rw [List.mem_cons, ih, List.mem_cons]
        tauto
      · exact List.mem_cons

theorem place_of_stands {x : α} (stands : mark x = 0) (members : List α)
    : place mark x members = x :: members := by
  cases members with
  | nil => rfl
  | cons y rest => rw [place, if_neg fun past => Nat.not_lt_zero _ (stands ▸ past.2)]

/-- Placing a member in front of a run and what stands behind it sorts it into the run. -/
theorem place_append {x s : α} {run rest : List α} (marked : ∀ y ∈ run, mark y ≠ 0)
    (stands : mark s = 0)
    : place mark x (run ++ s :: rest) = run.orderedInsert (Upto mark) x ++ s :: rest := by
  induction run with
  | nil =>
      rw [List.nil_append, place, if_neg fun past => Nat.ne_of_gt past.1 stands]
      rfl
  | cons y run ih =>
      have positive := Nat.pos_of_ne_zero (marked y List.mem_cons_self)
      by_cases below : mark y < mark x
      · rw [List.cons_append, place_past ⟨positive, below⟩,
          ih fun z member => marked z (List.mem_cons_of_mem _ member),
          List.orderedInsert_of_not_le (Upto mark) run (Nat.not_le.mpr below), List.cons_append]
      · rw [List.cons_append, place_here fun past => below past.2,
          List.orderedInsert_cons_of_le (Upto mark) run (Nat.not_lt.mp below)]
        rfl

theorem place_eq_orderedInsert {x : α} {run : List α} (marked : ∀ y ∈ run, mark y ≠ 0)
    : place mark x run = run.orderedInsert (Upto mark) x := by
  induction run with
  | nil => rfl
  | cons y run ih =>
      have positive := Nat.pos_of_ne_zero (marked y List.mem_cons_self)
      by_cases below : mark y < mark x
      · rw [place_past ⟨positive, below⟩,
          ih fun z member => marked z (List.mem_cons_of_mem _ member),
          List.orderedInsert_of_not_le (Upto mark) run (Nat.not_le.mpr below)]
      · rw [place_here fun past => below past.2,
          List.orderedInsert_cons_of_le (Upto mark) run (Nat.not_lt.mp below)]

theorem foldr_place_append {s : α} {run rest : List α} (marked : ∀ y ∈ run, mark y ≠ 0)
    (stands : mark s = 0)
    : run.foldr (place mark) (s :: rest) = run.insertionSort (Upto mark) ++ s :: rest := by
  induction run with
  | nil => rfl
  | cons x run ih =>
      have marks : ∀ y ∈ run, mark y ≠ 0 := fun y member => marked y (List.mem_cons_of_mem _ member)
      rw [List.foldr_cons, ih marks, List.insertionSort_cons,
        place_append (fun y member => marks y (List.mem_insertionSort _ |>.mp member)) stands]

theorem foldr_place_eq {run : List α} (marked : ∀ y ∈ run, mark y ≠ 0)
    : run.foldr (place mark) [] = run.insertionSort (Upto mark) := by
  induction run with
  | nil => rfl
  | cons x run ih =>
      have marks : ∀ y ∈ run, mark y ≠ 0 := fun y member => marked y (List.mem_cons_of_mem _ member)
      rw [List.foldr_cons, ih marks, List.insertionSort_cons,
        place_eq_orderedInsert fun y member => marks y (List.mem_insertionSort _ |>.mp member)]

/-- Sorting each run where it ends puts every member where placing them from the last on does, by
induction on what is left.
-/
theorem reorderFrom_eq {run : List α} (marked : ∀ y ∈ run, mark y ≠ 0) (members : List α)
    : reorderFrom mark run members
      = run.foldr (place mark) (members.foldr (place mark) []) := by
  induction members generalizing run with
  | nil => rw [reorderFrom, List.foldr_nil, foldr_place_eq marked]
  | cons x rest ih =>
      rw [reorderFrom, List.foldr_cons]
      split
      next stands =>
        rw [place_of_stands stands, foldr_place_append marked stands, ih (by simp)]
        rfl
      next isMark =>
        rw [ih (fun y member => ?_), List.foldr_append]
        · rfl
        · rcases List.mem_append.mp member with before | last
          · exact marked y before
          · exact List.mem_singleton.mp last ▸ isMark

theorem reorder_eq (members : List α) : reorder mark members = members.foldr (place mark) [] :=
  reorderFrom_eq (by simp) members

theorem mem_reorder {x : α} {members : List α} : x ∈ reorder mark members ↔ x ∈ members := by
  rw [reorder_eq]
  induction members with
  | nil => rfl
  | cons y rest ih => rw [List.foldr_cons, mem_place, ih, List.mem_cons]

/-- A sequence in order stays in order with a member placed, by induction on it. -/
theorem Ordered.place {x : α} {members : List α} (ordered : Ordered mark members)
    : Ordered mark (place mark x members) := by
  induction members with
  | nil => exact List.isChain_singleton _
  | cons y rest ih =>
      rw [CanonicalOrder.place]
      split
      next past =>
        cases rest with
        | nil => exact List.isChain_pair.mpr (.inr (Nat.le_of_lt past.2))
        | cons z rest =>
            obtain ⟨near, tail⟩ := List.isChain_cons_cons.mp ordered
            have placed := ih tail
            by_cases further : 0 < mark z ∧ mark z < mark x
            · rw [place_past further] at placed ⊢
              exact .cons_cons near placed
            · rw [place_here further] at placed ⊢
              exact .cons_cons (.inr (Nat.le_of_lt past.2)) placed
      next here => exact List.isChain_cons_cons.mpr ⟨by omega, ordered⟩

theorem reorder_ordered (members : List α) : Ordered mark (reorder mark members) := by
  rw [reorder_eq]
  induction members with
  | nil => exact List.isChain_nil
  | cons x rest ih => exact ih.place

/-- What is in order is left as it is. -/
theorem Ordered.reorder_eq_self {members : List α} (ordered : Ordered mark members)
    : reorder mark members = members := by
  rw [reorder_eq]
  induction members with
  | nil => rfl
  | cons x rest ih =>
      rw [List.foldr_cons, ih ordered.tail]
      cases rest with
      | nil => rfl
      | cons y rest =>
          have near := (List.isChain_cons_cons.mp ordered).1
          rw [CanonicalOrder.place, if_neg (by omega)]

/-- Marked members of different marks are placed in either order, by induction on the sequence. -/
theorem place_comm {a b : α} (markA : mark a ≠ 0) (markB : mark b ≠ 0) (differ : mark a ≠ mark b)
    (members : List α)
    : place mark a (place mark b members) = place mark b (place mark a members) := by
  induction members with
  | nil =>
      simp only [place]
      split <;> split <;> first | rfl | omega
  | cons c rest ih =>
      by_cases pastA : 0 < mark c ∧ mark c < mark a
      · by_cases pastB : 0 < mark c ∧ mark c < mark b
        · rw [place_past pastB, place_past pastA, place_past pastA, place_past pastB, ih]
        · rw [place_here pastB, place_past (by omega), place_past pastA, place_here pastB]
      · by_cases pastB : 0 < mark c ∧ mark c < mark b
        · rw [place_past pastB, place_here pastA, place_here pastA, place_past (by omega),
            place_past pastB]
        · rw [place_here pastB, place_here pastA]
          rcases Nat.lt_or_gt_of_ne differ with less | more
          · rw [place_here (by omega), place_past (by omega), place_here pastB]
          · rw [place_past (by omega), place_here pastA, place_here (by omega)]

theorem place_foldr_comm {a : α} {others : List α} (markA : mark a ≠ 0)
    (marked : ∀ b ∈ others, mark b ≠ 0 ∧ mark a ≠ mark b) (members : List α)
    : place mark a (others.foldr (place mark) members)
      = others.foldr (place mark) (place mark a members) := by
  induction others with
  | nil => rfl
  | cons b others ih =>
      obtain ⟨markB, differ⟩ := marked b List.mem_cons_self
      rw [List.foldr_cons, place_comm markA markB differ,
        ih fun c member => marked c (List.mem_cons_of_mem _ member), List.foldr_cons]

theorem foldr_place_comm {first second : List α}
    (marked : ∀ a ∈ first, mark a ≠ 0 ∧ ∀ b ∈ second, mark b ≠ 0 ∧ mark a ≠ mark b)
    (members : List α)
    : first.foldr (place mark) (second.foldr (place mark) members)
      = second.foldr (place mark) (first.foldr (place mark) members) := by
  induction first with
  | nil => rfl
  | cons a first ih =>
      obtain ⟨markA, others⟩ := marked a List.mem_cons_self
      rw [List.foldr_cons, ih fun c member => marked c (List.mem_cons_of_mem _ member),
        place_foldr_comm markA others, List.foldr_cons]

/-- Neighbouring stretches of marked members, no mark in both, may change places. -/
theorem reorder_comm {first second : List α}
    (marked : ∀ a ∈ first, mark a ≠ 0 ∧ ∀ b ∈ second, mark b ≠ 0 ∧ mark a ≠ mark b)
    (before after : List α)
    : reorder mark (before ++ first ++ second ++ after)
      = reorder mark (before ++ second ++ first ++ after) := by
  simp only [reorder_eq, List.foldr_append, foldr_place_comm marked]

end CanonicalOrder
