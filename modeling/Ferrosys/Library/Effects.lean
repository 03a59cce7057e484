import Mathlib.Logic.Basic

/-! What a computation that keeps its state when it fails ends in: a postcondition of the answer it
gives, and one of the error it stops with.
-/

namespace Effects

variable {ε σ α β ι : Type}

/-- From `s`, a computation answers with what `ok` holds of or fails with what `bad` does. -/
def Ends (m : EStateM ε σ α) (s : σ) (ok : α → σ → Prop) (bad : ε → σ → Prop) : Prop :=
  match m s with
  | .ok a s' => ok a s'
  | .error e s' => bad e s'

section

variable {s : σ} {ok : α → σ → Prop} {bad : ε → σ → Prop}

@[simp]
theorem ends_pure {a : α} : Ends (pure a : EStateM ε σ α) s ok bad ↔ ok a s := Iff.rfl

@[simp]
theorem ends_throw {e : ε} : Ends (throw e : EStateM ε σ α) s ok bad ↔ bad e s := Iff.rfl

@[simp]
theorem ends_get {ok : σ → σ → Prop} : Ends (get : EStateM ε σ σ) s ok bad ↔ ok s s := Iff.rfl

@[simp]
theorem ends_set {s' : σ} {ok : PUnit → σ → Prop}
    : Ends (set s' : EStateM ε σ PUnit) s ok bad ↔ ok ⟨⟩ s' :=
  Iff.rfl

@[simp]
theorem ends_modify {f : σ → σ} {ok : PUnit → σ → Prop}
    : Ends (modify f : EStateM ε σ PUnit) s ok bad ↔ ok ⟨⟩ (f s) :=
  Iff.rfl

/-- A result that is there already. -/
theorem ends_ofExcept {result : Except ε α}
    : Ends (MonadExcept.ofExcept result : EStateM ε σ α) s ok bad
      ↔ match result with
        | .ok a => ok a s
        | .error e => bad e s := by
  cases result <;> exact Iff.rfl

/-- Computations in a row: the second ends as it should from wherever the first answers. -/
@[simp]
theorem ends_bind {m : EStateM ε σ β} {rest : β → EStateM ε σ α}
    : Ends (m >>= rest) s ok bad ↔ Ends m s (fun b s' => Ends (rest b) s' ok bad) bad := by
  simp only [Ends, bind, EStateM.bind]
  cases m s with
  | ok b s' => exact Iff.rfl
  | error e s' => exact Iff.rfl

/-- What is promised of an end may be weakened. -/
theorem Ends.mono {m : EStateM ε σ α} {ok' : α → σ → Prop} {bad' : ε → σ → Prop}
    (ends : Ends m s ok bad) (answers : ∀ a s', ok a s' → ok' a s')
    (fails : ∀ e s', bad e s' → bad' e s') : Ends m s ok' bad' := by
  simp only [Ends] at ends ⊢
  cases ran : m s with
  | ok a s' =>
      rw [ran] at ends
      exact answers a s' ends
  | error e s' =>
      rw [ran] at ends
      exact fails e s' ends

/-- A computation followed by another, through what holds between them. -/
theorem Ends.then {m : EStateM ε σ β} {rest : β → EStateM ε σ α} {middle : β → σ → Prop}
    (first : Ends m s middle bad) (later : ∀ b s', middle b s' → Ends (rest b) s' ok bad)
    : Ends (m >>= rest) s ok bad :=
  ends_bind.mpr (first.mono later fun _ _ failed => failed)

theorem ends_ite {c : Prop} [Decidable c] {yes no : EStateM ε σ α} (first : c → Ends yes s ok bad)
    (second : ¬ c → Ends no s ok bad) : Ends (if c then yes else no) s ok bad := by
  by_cases holds : c
  · rw [if_pos holds]
    exact first holds
  · rw [if_neg holds]
    exact second holds

/-- A run that answered did so with what is promised of its answers. -/
theorem Ends.ok_of {m : EStateM ε σ α} {a : α} {s' : σ} (ends : Ends m s ok bad)
    (ran : m s = .ok a s') : ok a s' := by
  rw [Ends, ran] at ends
  exact ends

end

/-- What is made for two lists in a row is made for the one and then for the other. -/
theorem forM_append {each : ι → EStateM ε σ PUnit} (first second : List ι)
    : (first ++ second).forM each = (first.forM each >>= fun _ => second.forM each) := by
  simp only [List.forM_eq_forM, List.forM_append]

/-- A computation made for each element of a list in turn keeps what each one keeps, by induction
on the list.
-/
theorem ends_forM {each : ι → EStateM ε σ PUnit} {inv : σ → Prop} {bad : ε → σ → Prop}
    {list : List ι} {s : σ}
    (step : ∀ i ∈ list, ∀ s, inv s → Ends (each i) s (fun _ => inv) bad) (holds : inv s)
    : Ends (list.forM each) s (fun _ => inv) bad := by
  induction list generalizing s with
  | nil => exact holds
  | cons i rest ih =>
      exact (step i List.mem_cons_self s holds).then fun _ _ kept =>
        ih (fun j member => step j (List.mem_cons_of_mem _ member)) kept

/-- Computations in a row answer where both of them do. -/
theorem bind_eq_ok {m : EStateM ε σ β} {rest : β → EStateM ε σ α} {s s' : σ} {a : α}
    : (m >>= rest) s = .ok a s' ↔ ∃ b middle, m s = .ok b middle ∧ rest b middle = .ok a s' := by
  simp only [bind, EStateM.bind]
  cases m s with
  | ok b middle =>
      refine ⟨fun ran => ⟨b, middle, rfl, ran⟩, ?_⟩
      rintro ⟨_, _, ⟨⟩, ran⟩
      exact ran
  | error e middle =>
      refine ⟨fun ran => (by cases ran), ?_⟩
      rintro ⟨_, _, ran, _⟩
      cases ran

end Effects
