import Mathlib.Order.Basic
import Mathlib.Data.List.Basic
import Mathlib.Tactic.Linarith

/-! A checked computation read as a conjunction of its steps. -/

namespace Checked

variable {ε ε' α β γ : Type}

/-- Refuse with `error` where `bad` holds. -/
def refuseIf (bad : Bool) (error : ε) : Except ε Unit :=
  if bad then .error error else .ok ()

@[simp] theorem refuseIf_eq_ok {bad : Bool} {error : ε} {u : Unit}
    : refuseIf bad error = .ok u ↔ bad = false := by
  cases bad <;> simp [refuseIf]

/-- The value of an option, or `error` where it has none. -/
def okOr (value : Option α) (error : ε) : Except ε α := value.elim (.error error) .ok

@[simp] theorem okOr_eq_ok {value : Option α} {error : ε} {a : α}
    : okOr value error = .ok a ↔ value = some a := by
  cases value <;> simp [okOr]

/-- A step that succeeded handed its value on. -/
theorem bind_eq_ok {first : Except ε α} {rest : α → Except ε β} {b : β}
    : (first >>= rest) = .ok b ↔ ∃ a, first = .ok a ∧ rest a = .ok b := by
  cases first <;> simp [bind, Except.bind]

/-- A step that succeeded goes on with its value. -/
theorem ok_bind (a : α) (rest : α → Except ε β) : (Except.ok a >>= rest) = rest a := rfl

theorem mapError_eq_ok {first : Except ε α} {f : ε → ε'} {a : α}
    : first.mapError f = .ok a ↔ first = .ok a := by
  cases first <;> simp [Except.mapError]

@[simp] theorem refuseIf_eq_error {bad : Bool} {error error' : ε}
    : refuseIf bad error = .error error' ↔ bad = true ∧ error = error' := by
  cases bad <;> simp [refuseIf]

/-- Steps in a row fail at the first, or at the second on what the first handed on. -/
theorem bind_eq_error {first : Except ε α} {rest : α → Except ε β} {error : ε}
    : (first >>= rest) = .error error
      ↔ first = .error error ∨ ∃ a, first = .ok a ∧ rest a = .error error := by
  cases first <;> simp [bind, Except.bind]

theorem mapError_eq_error {first : Except ε α} {f : ε → ε'} {error : ε'}
    : first.mapError f = .error error ↔ ∃ cause, first = .error cause ∧ f cause = error := by
  cases first <;> simp [Except.mapError]

/-- A loop that checks each element and then folds in what it answered checks them all first and
folds afterwards, by induction on the list.
-/
theorem foldlM_eq_mapM_foldl (check : α → Except ε β) (fold : γ → β → γ) (list : List α)
    (start : γ)
    : list.foldlM (fun acc a => do return fold acc (← check a)) start
      = (list.mapM check).map (List.foldl fold start) := by
  induction list generalizing start with
  | nil => rfl
  | cons a rest ih =>
      rw [List.foldlM_cons, List.mapM_cons]
      cases answered : check a with
      | error error => rfl
      | ok b =>
          have later := ih (fold start b)
          simp only [bind, Except.bind, pure, Except.pure] at later ⊢
          rw [later]
          cases rest.mapM check <;> rfl

/-- Checks that all succeed answer each its own value, by induction on the list. -/
theorem mapM_eq_ok {check : α → Except ε β} {value : α → β} {list : List α}
    (each : ∀ a ∈ list, check a = .ok (value a)) : list.mapM check = .ok (list.map value) := by
  induction list with
  | nil => rfl
  | cons a rest ih =>
      rw [List.mapM_cons, each a List.mem_cons_self,
        ih fun b member => each b (List.mem_cons_of_mem _ member)]
      rfl

/-- Checks that all succeeded answered once each, by induction on the list. -/
theorem length_of_mapM_eq_ok {check : α → Except ε β} {list : List α} {values : List β}
    (checked : list.mapM check = .ok values) : values.length = list.length := by
  induction list generalizing values with
  | nil => exact Except.ok.inj checked ▸ rfl
  | cons a rest ih =>
      rw [List.mapM_cons] at checked
      obtain ⟨b, -, later⟩ := bind_eq_ok.mp checked
      obtain ⟨bs, others, same⟩ := bind_eq_ok.mp later
      obtain rfl := Except.ok.inj same
      rw [List.length_cons, List.length_cons, ih others]

/-- Checks that all succeeded answered each in its own place, by induction on the list. -/
theorem getElem?_of_mapM_eq_ok {check : α → Except ε β} {list : List α} {values : List β}
    (checked : list.mapM check = .ok values) {index : Nat} {a : α} (at_ : list[index]? = some a)
    : ∃ b, values[index]? = some b ∧ check a = .ok b := by
  induction list generalizing values index with
  | nil => cases at_
  | cons first rest ih =>
      rw [List.mapM_cons] at checked
      obtain ⟨b, answered, later⟩ := bind_eq_ok.mp checked
      obtain ⟨bs, others, same⟩ := bind_eq_ok.mp later
      obtain rfl := Except.ok.inj same
      cases index with
      | zero =>
          obtain rfl := Option.some.inj at_
          exact ⟨b, rfl, answered⟩
      | succ index => exact ih others at_

/-- Checks that each succeed all do, by induction on the list. -/
theorem exists_mapM_eq_ok {check : α → Except ε β} {list : List α}
    (each : ∀ a ∈ list, ∃ b, check a = .ok b) : ∃ values, list.mapM check = .ok values := by
  induction list with
  | nil => exact ⟨[], rfl⟩
  | cons a rest ih =>
      obtain ⟨b, first⟩ := each a List.mem_cons_self
      obtain ⟨bs, others⟩ := ih fun c member => each c (List.mem_cons_of_mem _ member)
      exact ⟨b :: bs, by rw [List.mapM_cons, first, others]; rfl⟩

/-- Checks that answer nothing all succeed where each does, by induction on the list. -/
theorem forM_eq_ok {check : α → Except ε Unit} {list : List α}
    : list.forM check = .ok () ↔ ∀ a ∈ list, check a = .ok () := by
  induction list with
  | nil => exact ⟨fun _ => nofun, fun _ => rfl⟩
  | cons a rest ih =>
      change (check a >>= fun _ => rest.forM check) = .ok () ↔ _
      refine ⟨fun checked b member => ?_, fun each => ?_⟩
      · obtain ⟨⟨⟩, first, others⟩ := bind_eq_ok.mp checked
        rcases List.mem_cons.mp member with rfl | later
        · exact first
        · exact ih.mp others b later
      · exact bind_eq_ok.mpr ⟨(), each a List.mem_cons_self,
          ih.mpr fun b later => each b (List.mem_cons_of_mem _ later)⟩

/-- Checks that all succeeded each did, by induction on the list. -/
theorem ok_of_mapM_eq_ok {check : α → Except ε β} {list : List α} {values : List β}
    (checked : list.mapM check = .ok values) : ∀ a ∈ list, ∃ b, check a = .ok b := by
  induction list generalizing values with
  | nil => exact nofun
  | cons a rest ih =>
      rw [List.mapM_cons] at checked
      obtain ⟨b, first, later⟩ := bind_eq_ok.mp checked
      obtain ⟨bs, others, -⟩ := bind_eq_ok.mp later
      intro c member
      rcases List.mem_cons.mp member with rfl | after
      · exact ⟨b, first⟩
      · exact ih others c after

/-- What checks that all succeeded answered is what one of them answered, by induction on the
list.
-/
theorem exists_of_mem_mapM {check : α → Except ε β} {list : List α} {values : List β}
    (checked : list.mapM check = .ok values) : ∀ b ∈ values, ∃ a ∈ list, check a = .ok b := by
  induction list generalizing values with
  | nil =>
      cases checked
      exact nofun
  | cons a rest ih =>
      rw [List.mapM_cons] at checked
      obtain ⟨b, first, later⟩ := bind_eq_ok.mp checked
      obtain ⟨bs, others, all⟩ := bind_eq_ok.mp later
      cases all
      intro c member
      rcases List.mem_cons.mp member with rfl | after
      · exact ⟨a, List.mem_cons_self, first⟩
      · obtain ⟨source, isSource, answered⟩ := ih others c after
        exact ⟨source, List.mem_cons_of_mem _ isSource, answered⟩

/-- A loop over consecutive numbers whose every turn moves it from one value to the next. -/
theorem foldlM_range'_eq_ok {step : γ → Nat → Except ε γ} {at_ : Nat → γ} {first count : Nat}
    (each : ∀ i, first ≤ i → i < first + count → step (at_ i) i = .ok (at_ (i + 1)))
    : (List.range' first count).foldlM step (at_ first) = .ok (at_ (first + count)) := by
  induction count generalizing first with
  | zero => rfl
  | succ count ih =>
      rw [List.range'_succ, List.foldlM_cons, each first le_rfl (by omega)]
      have rest := @ih (first + 1) fun i low high => each i (by omega) (by omega)
      rw [show first + (count + 1) = first + 1 + count by omega]
      exact rest

/-- A loop over a list that succeeded keeps what each turn keeps, by induction on the list. -/
theorem foldlM_invariant {step : γ → α → Except ε γ} {inv : γ → Prop} {list : List α}
    (each : ∀ before a after, inv before → step before a = .ok after → inv after)
    {start last : γ} (holds : inv start) (ran : list.foldlM step start = .ok last)
    : inv last := by
  induction list generalizing start with
  | nil =>
      cases ran
      exact holds
  | cons a rest ih =>
      rw [List.foldlM_cons] at ran
      obtain ⟨next, turn, ran⟩ := bind_eq_ok.mp ran
      exact ih (each _ _ _ holds turn) ran

/-- A loop over consecutive numbers that succeeded keeps what each turn keeps, by induction on how
many there are.
-/
theorem foldlM_range'_invariant {step : γ → Nat → Except ε γ} {inv : Nat → γ → Prop}
    {first count : Nat}
    (each : ∀ i, first ≤ i → i < first + count → ∀ before after, inv i before →
      step before i = .ok after → inv (i + 1) after)
    {start last : γ} (holds : inv first start)
    (ran : (List.range' first count).foldlM step start = .ok last) : inv (first + count) last := by
  induction count generalizing first start with
  | zero =>
      cases ran
      exact holds
  | succ count ih =>
      rw [List.range'_succ, List.foldlM_cons] at ran
      obtain ⟨next, turn, ran⟩ := bind_eq_ok.mp ran
      have kept := each first le_rfl (by omega) start next holds turn
      have rest := @ih (first + 1) (fun i low high => each i (by omega) (by omega)) next kept ran
      rwa [show first + (count + 1) = first + 1 + count by omega]

/-- A loop over the numbers below `n` that succeeded keeps what each turn keeps. -/
theorem foldlM_range_invariant {step : γ → Nat → Except ε γ} {inv : Nat → γ → Prop} {n : Nat}
    (each : ∀ i < n, ∀ before after, inv i before → step before i = .ok after →
      inv (i + 1) after)
    {start last : γ} (holds : inv 0 start) (ran : (List.range n).foldlM step start = .ok last)
    : inv n last := by
  rw [List.range_eq_range'] at ran
  have kept := @foldlM_range'_invariant _ _ step inv 0 n
    (fun i _ below => each i (by omega)) start last holds ran
  rwa [Nat.zero_add] at kept

/-- Checks of part of a list answer for that part, where what is answered says which part it is
of, by induction on the list.
-/
theorem mapM_filter {check : α → Except ε β} {p : α → Bool} {q : β → Bool}
    (same : ∀ a b, check a = .ok b → q b = p a) {list : List α} {values : List β}
    (checked : list.mapM check = .ok values)
    : (list.filter p).mapM check = .ok (values.filter q) := by
  induction list generalizing values with
  | nil =>
      cases checked
      rfl
  | cons a rest ih =>
      rw [List.mapM_cons] at checked
      obtain ⟨b, first, later⟩ := bind_eq_ok.mp checked
      obtain ⟨bs, others, all⟩ := bind_eq_ok.mp later
      cases all
      have rest := ih others
      rw [List.filter_cons, List.filter_cons, same a b first]
      split
      · rw [List.mapM_cons, first, rest]
        rfl
      · exact rest

end Checked
