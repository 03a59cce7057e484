import Mathlib.Data.List.Nodup
import Mathlib.Data.List.Perm.Basic
import Mathlib.Data.List.Range

/-! Numbers drawn from one counter, and lists made from the members of a list of which one changes.
-/

namespace Counter

/-- Each number from `first` up to `next` has been drawn, once. -/
def Drawn (first next : Nat) (drawn : List Nat) : Prop :=
  ∃ count, next = first + count ∧ drawn.Perm (List.range' first count)

namespace Drawn

variable {first next : Nat} {drawn : List Nat}

theorem perm (held : Drawn first next drawn) {drawn' : List Nat} (same : drawn'.Perm drawn)
    : Drawn first next drawn' := by
  obtain ⟨count, rfl, all⟩ := held
  exact ⟨count, rfl, same.trans all⟩

/-- Draw the next number. -/
theorem take (held : Drawn first next drawn) : Drawn first (next + 1) (next :: drawn) := by
  obtain ⟨count, rfl, all⟩ := held
  refine ⟨count + 1, rfl, ?_⟩
  rw [List.range'_1_concat]
  exact (all.cons _).trans (List.perm_append_singleton _ _).symm

/-- Draw the next few numbers, by induction on how many. -/
theorem takeMany (held : Drawn first next drawn) (count : Nat)
    : Drawn first (next + count) (List.range' next count ++ drawn) := by
  induction count with
  | zero => exact held
  | succ count ih =>
      refine ih.take.perm ?_
      rw [List.range'_1_concat, List.append_assoc]
      exact List.perm_middle

theorem nodup (held : Drawn first next drawn) : drawn.Nodup := by
  obtain ⟨count, rfl, all⟩ := held
  exact all.nodup_iff.mpr List.nodup_range'

theorem mem_iff (held : Drawn first next drawn) {id : Nat}
    : id ∈ drawn ↔ first ≤ id ∧ id < next := by
  obtain ⟨count, rfl, all⟩ := held
  rw [all.mem_iff, List.mem_range'_1]

theorem le (held : Drawn first next drawn) : first ≤ next := by
  obtain ⟨count, rfl, -⟩ := held
  exact Nat.le_add_right _ _

end Drawn

variable {α β : Type}

/-- A list made from the members of another changes only in what one member is made into where that
member alone changes, by induction on the list.
-/
theorem exists_flatMap_modify {list : List α} {place : Nat} {a : α}
    (found : list[place]? = some a) (change : α → α) (made : α → List β)
    : ∃ rest, (list.flatMap made).Perm (made a ++ rest)
      ∧ ((list.modify place change).flatMap made).Perm (made (change a) ++ rest) := by
  induction list generalizing place with
  | nil => cases found
  | cons b list ih =>
      cases place with
      | zero =>
          obtain rfl := Option.some.inj found
          exact ⟨list.flatMap made, .refl _, .refl _⟩
      | succ place =>
          obtain ⟨rest, before, after⟩ := ih (found : list[place]? = some a)
          have swap (part : List β) : (made b ++ (part ++ rest)).Perm (part ++ (made b ++ rest)) :=
            List.perm_append_comm_assoc _ _ _
          exact ⟨made b ++ rest, (before.append_left _).trans (swap _),
            (after.append_left _).trans (swap _)⟩

/-- A list made from the members of another stays where what changes is made into the same. -/
theorem flatMap_modify_perm {list : List α} {place : Nat} {change : α → α} {made : α → List β}
    (same : ∀ a, list[place]? = some a → (made (change a)).Perm (made a))
    : ((list.modify place change).flatMap made).Perm (list.flatMap made) := by
  cases found : list[place]? with
  | none =>
      rw [List.modify_eq_self (List.getElem?_eq_none_iff.mp found)]
  | some a =>
      obtain ⟨rest, before, after⟩ := exists_flatMap_modify found change made
      exact after.trans ((same a found).append_right rest |>.trans before.symm)

/-- What does not change of each member does not change of the list. -/
theorem map_modify {list : List α} {place : Nat} {change : α → α} {value : α → β}
    (same : ∀ a, value (change a) = value a)
    : (list.modify place change).map value = list.map value := by
  apply List.ext_getElem?
  intro i
  rw [List.getElem?_map, List.getElem?_modify, List.getElem?_map]
  cases list[i]? with
  | none => rfl
  | some a =>
      by_cases here : place = i
      · simp only [here, ↓reduceIte, Option.map_eq_map, Option.map_some, same]
      · simp only [here, ↓reduceIte, Option.map_eq_map, Option.map_some]

end Counter
