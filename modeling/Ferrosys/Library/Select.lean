import Mathlib.Data.List.Destutter
import Mathlib.Data.List.Sort

/-! The first of a stably sorted list that will do: the best of those that will, and of the best
the one that stood first.
-/

namespace Select

variable {α : Type} {r : α → α → Prop} [DecidableRel r] {s : α → α → Prop}

/-- `a` comes no later than `b`: by the order sorted by, and where that holds both ways by where the
two stood.
-/
def NoLater (r s : α → α → Prop) (a b : α) : Prop := r a b ∧ (r b a → s a b)

/-- An entry that stood before every one of a list in place goes into its own place among them, by
induction on the list.
-/
theorem pairwise_orderedInsert [Std.Total r] [IsTrans α r] {a : α} {list : List α}
    (first : ∀ b ∈ list, s a b) (placed : list.Pairwise (NoLater r s))
    : (list.orderedInsert r a).Pairwise (NoLater r s) := by
  induction list with
  | nil => exact List.pairwise_singleton _ _
  | cons b rest ih =>
      obtain ⟨leads, others⟩ := List.pairwise_cons.mp placed
      rw [List.orderedInsert_cons]
      split
      next before =>
        refine List.pairwise_cons.mpr ⟨fun c member => ?_, placed⟩
        rcases List.mem_cons.mp member with rfl | later
        · exact ⟨before, fun _ => first _ List.mem_cons_self⟩
        · exact ⟨trans_of r before (leads c later).1,
            fun _ => first c (List.mem_cons_of_mem _ later)⟩
      next after =>
        refine List.pairwise_cons.mpr
          ⟨fun c member => ?_, ih (fun c member => first c (List.mem_cons_of_mem _ member)) others⟩
        rcases (List.mem_orderedInsert r).mp member with rfl | later
        · exact ⟨(total_of r b c).resolve_right after, fun back => absurd back after⟩
        · exact leads c later

/-- A sorted list has each entry in place before every later one, by induction on the list. -/
theorem pairwise_insertionSort [Std.Total r] [IsTrans α r] {list : List α}
    (stood : list.Pairwise s) : (list.insertionSort r).Pairwise (NoLater r s) := by
  induction list with
  | nil => exact List.Pairwise.nil
  | cons a rest ih =>
      obtain ⟨first, others⟩ := List.pairwise_cons.mp stood
      refine pairwise_orderedInsert (fun b member => first b ?_) (ih others)
      exact (List.mem_insertionSort r).mp member

/-- The first of a sorted list that will do is no later than any other that will. -/
theorem noLater_of_find? [Std.Total r] [IsTrans α r] {list : List α} {p : α → Bool} {best : α}
    (stood : list.Pairwise s) (found : (list.insertionSort r).find? p = some best)
    : best ∈ list ∧ p best ∧ ∀ other ∈ list, p other → other = best ∨ NoLater r s best other := by
  obtain ⟨will, passed, rest, split, not⟩ := List.find?_eq_some_iff_append.mp found
  have placed := pairwise_insertionSort (r := r) stood
  rw [split] at placed
  refine ⟨(List.mem_insertionSort r).mp (split ▸ by simp), will, fun other member does => ?_⟩
  have member := (List.mem_insertionSort r).mpr member
  rw [split] at member
  rcases List.mem_append.mp member with earlier | later
  · have := not other earlier
    rw [does] at this
    cases this
  · rcases List.mem_cons.mp later with same | later
    · exact .inl same
    · exact .inr ((List.pairwise_cons.mp (List.pairwise_append.mp placed).2.1).1 other later)

/-- A sorted list has one that will do where the list does. -/
theorem find?_isSome {list : List α} {p : α → Bool} {other : α} (member : other ∈ list)
    (does : p other) : ((list.insertionSort r).find? p).isSome :=
  List.find?_isSome.mpr ⟨other, (List.mem_insertionSort r).mpr member, does⟩

/-- A list sorted and rid of repeats is the ascending one of its elements. -/
theorem sort_destutter_eq {α : Type} [LinearOrder α] {list ascending : List α}
    (sorted : ascending.Pairwise (· < ·)) (same : ∀ a, a ∈ list ↔ a ∈ ascending)
    : (list.insertionSort (· ≤ ·)).destutter (· ≠ ·) = ascending := by
  have ordered := List.pairwise_insertionSort (· ≤ ·) list
  rw [ordered.destutter_eq_dedup]
  have strict : (list.insertionSort (· ≤ ·)).dedup.Pairwise (· < ·) :=
    ((ordered.sublist (List.dedup_sublist _)).and (List.nodup_dedup _)).imp
      fun pair => lt_of_le_of_ne pair.1 pair.2
  refine strict.eq_of_mem_iff sorted fun a => ?_
  rw [List.mem_dedup, List.mem_insertionSort, same]

end Select
