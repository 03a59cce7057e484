import Mathlib.Data.List.Basic

/-! A list that is linked through what comes after each of its elements, read by following it. -/

namespace Linked

variable {α : Type} (after : α → Option α)

/-- Following from `start` takes this path, and nothing comes after it. -/
inductive Follows : Option α → List α → Prop
  | stop : Follows none []
  | go {a : α} {rest : List α} (on : Follows (after a) rest) : Follows (some a) (a :: rest)

/-- The path from `start`, given up after so many turns. -/
def follow : (turns : Nat) → (start : Option α) → List α
  | 0, _ => []
  | _ + 1, none => []
  | turns + 1, some a => a :: follow turns (after a)

variable {after}

/-- A path is followed to its end, by induction on it. -/
theorem follow_eq {start : Option α} {path : List α} (follows : Follows after start path)
    {turns : Nat} (enough : path.length ≤ turns) : follow after turns start = path := by
  induction follows generalizing turns with
  | stop => cases turns <;> rfl
  | go on ih =>
      obtain ⟨turns, rfl⟩ := Nat.exists_eq_add_of_le' (Nat.le_trans (Nat.succ_pos _) enough)
      rw [follow, ih (Nat.le_of_succ_le_succ enough)]

/-- What was followed in fewer turns than were given is the whole path, by induction on the turns. -/
theorem follows_of_length_lt {turns : Nat} {start : Option α}
    (short : (follow after turns start).length < turns)
    : Follows after start (follow after turns start) := by
  induction turns generalizing start with
  | zero => exact absurd short (Nat.not_lt_zero _)
  | succ turns ih =>
      cases start with
      | none => exact .stop
      | some a => exact .go (ih (Nat.lt_of_succ_lt_succ short))

theorem length_follow_le (after : α → Option α) (turns : Nat) (start : Option α)
    : (follow after turns start).length ≤ turns := by
  fun_induction follow after turns start with
  | case1 => exact Nat.zero_le _
  | case2 => exact Nat.zero_le _
  | case3 turns a ih => exact Nat.succ_le_succ ih

end Linked
