import Ferrosys.Library.Checked
import Ferrosys.Library.Loop

/-! Two computations side by side: they fail alike, or answer with what a relation holds of. -/

namespace Relate

open Checked Loop

variable {ε α β α' β' σ τ ρ ρ' : Type}

/-- Two computations fail with the same error, or answer with what is related. -/
inductive Same (related : α → β → Prop) : Except ε α → Except ε β → Prop
  | ok {a : α} {b : β} (rel : related a b) : Same related (.ok a) (.ok b)
  | error (error : ε) : Same related (.error error) (.error error)

/-- Computations in a row, the second of each from what its first answers with. -/
theorem Same.bind {first : Except ε α} {first' : Except ε β} {middle : α → β → Prop}
    {rest : α → Except ε α'} {rest' : β → Except ε β'} {related : α' → β' → Prop}
    (same : Same middle first first') (later : ∀ a b, middle a b → Same related (rest a) (rest' b))
    : Same related (first >>= rest) (first' >>= rest') := by
  cases same with
  | error error => exact .error error
  | ok rel => exact later _ _ rel

/-- A computation both begin with, whatever it answers with. -/
theorem Same.after {first : Except ε α} {rest : α → Except ε α'} {rest' : α → Except ε β'}
    {related : α' → β' → Prop}
    (later : ∀ a, first = .ok a → Same related (rest a) (rest' a))
    : Same related (first >>= rest) (first >>= rest') := by
  cases first with
  | error error => exact .error error
  | ok a => exact later a rfl

/-- Two turns both go on, from states that are related, or both answer, with answers that are. -/
inductive Turns (related : σ → τ → Prop) (answers : ρ → ρ' → Prop) : Next σ ρ → Next τ ρ' → Prop
  | go {state : σ} {state' : τ} (rel : related state state')
      : Turns related answers (.go state) (.go state')
  | stop {result : ρ} {result' : ρ'} (rel : answers result result')
      : Turns related answers (.stop result) (.stop result')

/-- Turns that a failure ends. -/
theorem turns_orStop {related : σ → τ → Prop} {answers : α → β → Prop}
    {next : Except ε (Next σ (Except ε α))} {next' : Except ε (Next τ (Except ε β))}
    (same : Same (Turns related (Same answers)) next next')
    : Turns related (Same answers) (orStop next) (orStop next') := by
  cases same with
  | error error => exact .stop (.error error)
  | ok rel => exact rel

/-- Loops whose turns go side by side answer alike, by induction on what is left of the first. -/
theorem total_related {step : σ → Next σ ρ} {step' : τ → Next τ ρ'} {measure : σ → Nat}
    {measure' : τ → Nat} {related : σ → τ → Prop} {answers : ρ → ρ' → Prop}
    (each : ∀ state state', related state state'
      → Turns related answers (step state) (step' state'))
    (lowers : Lowers step measure) (lowers' : Lowers step' measure') {state : σ} {state' : τ}
    (begun : related state state')
    : answers (total step measure lowers state) (total step' measure' lowers' state') := by
  induction bound : measure state using Nat.strongRecOn generalizing state state' with
  | _ left ih =>
      have beside := each state state' begun
      cases taken : step state with
      | go next =>
          cases taken' : step' state' with
          | go next' =>
              rw [taken, taken'] at beside
              cases beside with
              | go rel =>
                  rw [total_of_go lowers taken, total_of_go lowers' taken']
                  exact ih _ (bound ▸ lowers state next taken) rel rfl
          | stop result' =>
              rw [taken, taken'] at beside
              cases beside
      | stop result =>
          cases taken' : step' state' with
          | go next' =>
              rw [taken, taken'] at beside
              cases beside
          | stop result' =>
              rw [taken, taken'] at beside
              cases beside with
              | stop rel =>
                  rw [total_of_stop lowers taken, total_of_stop lowers' taken']
                  exact rel

section

variable {step : σ → Next σ ρ} {step' : τ → Next τ ρ'} {related : σ → τ → Prop}
  {answers : ρ → ρ' → Prop}

/-- Whatever the first of two loops reaches, the second reaches what is related to it, by induction
on the turns.
-/
theorem reached_related
    (each : ∀ state state', related state state'
      → Turns related answers (step state) (step' state'))
    {state next : σ} {state' : τ} (begun : related state state')
    (reached : Relation.ReflTransGen (Turn step) state next)
    : ∃ next', Relation.ReflTransGen (Turn step') state' next' ∧ related next next' := by
  induction reached with
  | refl => exact ⟨state', .refl, begun⟩
  | tail _ taken ih =>
      obtain ⟨middle, along, rel⟩ := ih
      have beside := each _ middle rel
      rw [show step _ = _ from taken] at beside
      cases taken' : step' middle with
      | go next' =>
          rw [taken'] at beside
          cases beside with
          | go rel => exact ⟨next', .tail along taken', rel⟩
      | stop result' =>
          rw [taken'] at beside
          cases beside

/-- Two turns seen from the second. -/
theorem Turns.swap {turn : Next σ ρ} {turn' : Next τ ρ'} (beside : Turns related answers turn turn')
    : Turns (fun state' state => related state state')
        (fun result' result => answers result result') turn' turn := by
  cases beside with
  | go rel => exact .go rel
  | stop rel => exact .stop rel

end

end Relate
