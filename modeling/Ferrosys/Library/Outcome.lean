import Ferrosys.Library.Loop
import Ferrosys.Library.Machine

/-! What a computation that may panic comes to: it does not panic, and what it answers with, where
it answers, is held to a postcondition.
-/

namespace Machine

open Checked

variable {ε α β σ : Type}

/-- A computation does not panic, and answers with what `post` holds of. -/
def Yields (step : Except (Fault ε) α) (post : α → Prop) : Prop :=
  step ≠ .error .panicked ∧ ∀ a, step = .ok a → post a

theorem yields_ok {a : α} {post : α → Prop} (holds : post a) : Yields (ε := ε) (.ok a) post :=
  ⟨nofun, fun _ same => Except.ok.inj same ▸ holds⟩

theorem yields_refused {error : ε} {post : α → Prop}
    : Yields (α := α) (.error (.refused error)) post :=
  ⟨nofun, nofun⟩

theorem Yields.mono {step : Except (Fault ε) α} {post post' : α → Prop} (yields : Yields step post)
    (weaker : ∀ a, post a → post' a) : Yields step post' :=
  ⟨yields.1, fun a done => weaker a (yields.2 a done)⟩

/-- Computations in a row, the second from what the first answers with. -/
theorem Yields.bind {first : Except (Fault ε) α} {rest : α → Except (Fault ε) β}
    {middle : α → Prop} {post : β → Prop} (yields : Yields first middle)
    (later : ∀ a, middle a → Yields (rest a) post) : Yields (first >>= rest) post := by
  cases here : first with
  | ok a => exact later a (yields.2 a here)
  | error fault =>
      refine ⟨?_, nofun⟩
      rintro ⟨⟩
      exact yields.1 here

theorem yields_ite {c : Prop} [Decidable c] {yes no : Except (Fault ε) α} {post : α → Prop}
    (first : c → Yields yes post) (second : ¬ c → Yields no post)
    : Yields (if c then yes else no) post := by
  by_cases holds : c
  · rw [if_pos holds]
    exact first holds
  · rw [if_neg holds]
    exact second holds

/-- The value of an option, or an error of its own. -/
theorem yields_okOr {value : Option α} {error : ε} {post : α → Prop}
    (holds : ∀ a, value = some a → post a) : Yields (okOr value (.refused error)) post := by
  cases value with
  | none => exact yields_refused
  | some a => exact yields_ok (holds a rfl)

/-- A step whose errors are all its own. -/
theorem yields_mapError {step : Except ε α} {post : α → Prop} (holds : ∀ a, step = .ok a → post a)
    : Yields (step.mapError .refused) post := by
  cases step with
  | error error => exact yields_refused
  | ok a => exact yields_ok (holds a rfl)

/-- A loop over a list, each turn of which keeps an invariant, by induction on the list. -/
theorem yields_foldlM {step : σ → α → Except (Fault ε) σ} {inv : σ → Prop} {list : List α}
    {start : σ} (each : ∀ a ∈ list, ∀ state, inv state → Yields (step state a) inv)
    (holds : inv start) : Yields (list.foldlM step start) inv := by
  induction list generalizing start with
  | nil => exact yields_ok holds
  | cons a rest ih =>
      rw [List.foldlM_cons]
      exact (each a List.mem_cons_self start holds).bind fun next kept =>
        ih (fun b member => each b (List.mem_cons_of_mem _ member)) kept

theorem yields_add {a b : Nat} {post : Nat → Prop} (fits : a + b < 2 ^ 64) (holds : post (a + b))
    : Yields (ε := ε) (add .checked a b) post := by
  rw [add_of_lt fits]
  exact yields_ok holds

theorem yields_sub {a b : Nat} {post : Nat → Prop} (within : b ≤ a) (holds : post (a - b))
    : Yields (ε := ε) (sub .checked a b) post := by
  rw [sub_of_le within]
  exact yields_ok holds

/-- What a turn leaves: a state `go` holds of, or an answer that does not panic. -/
def Turns (next : Loop.Next σ (Except (Fault ε) β)) (go : σ → Prop) (post : β → Prop) : Prop :=
  match next with
  | .go state => go state
  | .stop result => Yields result post

theorem turns_orStop {body : Except (Fault ε) (Loop.Next σ (Except (Fault ε) β))}
    {go : σ → Prop} {post : β → Prop} (yields : Yields body (Turns · go post))
    : Turns (Loop.orStop body) go post := by
  cases here : body with
  | ok next => exact yields.2 next here
  | error fault =>
      refine ⟨?_, nofun⟩
      rintro ⟨⟩
      exact yields.1 here

/-- A loop whose turns keep an invariant and lower a measure answers within it, by induction on the
turns it is given.
-/
theorem yields_run (holds : σ → Prop) (measure : σ → Nat)
    {turn : σ → Loop.Next σ (Except (Fault ε) β)} {post : β → Prop}
    (each : ∀ state, holds state →
      Turns (turn state) (fun next => holds next ∧ measure next < measure state) post)
    {turns : Nat} {state : σ} (begun : holds state) (enough : measure state < turns)
    : Yields ((Loop.run turn turns state).getD (.error .panicked)) post := by
  induction turns generalizing state with
  | zero => exact absurd enough (Nat.not_lt_zero _)
  | succ turns ih =>
      have here := each state begun
      rw [Loop.run]
      cases taken : turn state with
      | stop result =>
          rw [taken] at here
          exact here
      | go next =>
          rw [taken] at here
          exact ih here.1 (by have := here.2; omega)

end Machine
