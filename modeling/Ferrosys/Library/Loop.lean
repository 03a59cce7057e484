import Mathlib.Logic.Relation
import Mathlib.Data.List.Basic

/-! A loop as its step: what one turn does, why the turns end, and what the loop answers. -/

namespace Loop

variable {σ ρ α β : Type}

/-- What one turn leaves: a state to go on from, or the answer. -/
inductive Next (σ ρ : Type) where
  | go (state : σ)
  | stop (result : ρ)
deriving DecidableEq

/-- Go on with what a turn left, unless it answered. -/
def Next.bind (next : Next α ρ) (rest : α → Next β ρ) : Next β ρ :=
  match next with
  | .go state => rest state
  | .stop result => .stop result

theorem Next.bind_assoc {γ : Type} (next : Next α ρ) (first : α → Next β ρ)
    (second : β → Next γ ρ)
    : (next.bind first).bind second = next.bind fun state => (first state).bind second := by
  cases next <;> rfl

/-- A loop's next turn, which a failure ends. -/
def orStop {ε : Type} (next : Except ε (Next σ (Except ε α))) : Next σ (Except ε α) :=
  match next with
  | .ok next => next
  | .error error => .stop (.error error)

theorem orStop_eq_go {ε : Type} {next : Except ε (Next σ (Except ε α))} {state : σ}
    (went : orStop next = .go state) : next = .ok (.go state) := by
  cases next with
  | ok next => exact congrArg _ went
  | error error => cases went

/-- A turn that answered with a value did not fail. -/
theorem orStop_eq_stop {ε : Type} {next : Except ε (Next σ (Except ε α))} {value : α}
    (stopped : orStop next = .stop (.ok value)) : next = .ok (.stop (.ok value)) := by
  cases next with
  | ok next => exact congrArg _ stopped
  | error error => cases stopped

/-- The loop from `state`, given up after so many turns. -/
def run (step : σ → Next σ ρ) : (turns : Nat) → (state : σ) → Option ρ
  | 0, _ => none
  | turns + 1, state =>
      match step state with
      | .go next => run step turns next
      | .stop result => some result

/-- Every turn that goes on lowers `measure`. -/
def Lowers (step : σ → Next σ ρ) (measure : σ → Nat) : Prop :=
  ∀ state next, step state = .go next → measure next < measure state

section

variable {step : σ → Next σ ρ} {measure : σ → Nat}

/-- A loop answers before a measure runs out that every turn lowers from where what holds at first
still does, by induction on the turns it is given.
-/
theorem run_isSome_of_kept {holds : σ → Prop}
    (kept : ∀ state next, holds state → step state = .go next → holds next)
    (lowers : ∀ state next, holds state → step state = .go next → measure next < measure state)
    (turns : Nat) (state : σ) (begun : holds state) (enough : measure state < turns)
    : (run step turns state).isSome := by
  induction turns generalizing state with
  | zero => exact absurd enough (Nat.not_lt_zero _)
  | succ turns ih =>
      cases taken : step state with
      | stop result => simp only [run, taken, Option.isSome_some]
      | go next =>
          simp only [run, taken]
          have lower := lowers state next begun taken
          exact ih next (kept state next begun taken)
            (Nat.lt_of_lt_of_le lower (Nat.le_of_lt_succ enough))

/-- A loop that lowers a measure answers before the measure runs out. -/
theorem run_isSome (lowers : Lowers step measure) (turns : Nat) (state : σ)
    (enough : measure state < turns)
    : (run step turns state).isSome :=
  @run_isSome_of_kept _ _ _ _ (fun _ => True) (fun _ _ _ _ => trivial)
    (fun state next _ taken => lowers state next taken) turns state trivial enough

/-- An answer does not depend on how many further turns the loop was given, by induction on the
turns it took.
-/
theorem run_of_le {turns more : Nat} {state : σ} {result : ρ}
    (answered : run step turns state = some result) (le : turns ≤ more)
    : run step more state = some result := by
  induction turns generalizing state more with
  | zero => cases answered
  | succ turns ih =>
      obtain ⟨more, rfl⟩ := Nat.exists_eq_add_of_le' (Nat.le_trans (Nat.succ_pos turns) le)
      cases taken : step state with
      | stop result => simpa only [run, taken] using answered
      | go next =>
          simp only [run, taken] at answered ⊢
          exact ih answered (Nat.le_of_succ_le_succ le)

/-- A loop that answers does so from a state where what every turn keeps still holds, by
induction on the turns it is given.
-/
theorem stop_of_run {holds : σ → Prop}
    (kept : ∀ state next, step state = .go next → holds state → holds next)
    {turns : Nat} {state : σ} (begun : holds state) {result : ρ}
    (ran : run step turns state = some result)
    : ∃ last, holds last ∧ step last = .stop result := by
  induction turns generalizing state with
  | zero => cases ran
  | succ turns ih =>
      cases taken : step state with
      | go next =>
          simp only [run, taken] at ran
          exact ih (kept _ _ taken begun) ran
      | stop result' =>
          simp only [run, taken, Option.some.injEq] at ran
          exact ⟨state, begun, ran ▸ taken⟩

/-- The answer of a loop whose every turn lowers `measure`. -/
def total (step : σ → Next σ ρ) (measure : σ → Nat) (lowers : Lowers step measure)
    (state : σ) : ρ :=
  (run step (measure state + 1) state).get (run_isSome lowers _ state (Nat.lt_succ_self _))

/-- The loop is over within its measure. -/
theorem run_eq_total (lowers : Lowers step measure) (state : σ)
    : run step (measure state + 1) state = some (total step measure lowers state) :=
  (Option.some_get _).symm

/-- A loop that stops at once answers so. -/
theorem total_of_stop (lowers : Lowers step measure) {state : σ} {result : ρ}
    (taken : step state = .stop result)
    : total step measure lowers state = result := by
  have answered := run_eq_total lowers state
  simpa only [run, taken, Option.some.injEq, eq_comm] using answered

/-- A turn that goes on leaves the answer to the rest of the loop. -/
theorem total_of_go (lowers : Lowers step measure) {state next : σ}
    (taken : step state = .go next)
    : total step measure lowers state = total step measure lowers next := by
  have before := run_eq_total lowers state
  have after := run_eq_total lowers next
  simp only [run, taken] at before
  have same := (run_of_le after (lowers state next taken)).symm.trans before
  exact (Option.some.inj same).symm

/-- The most turns one entry of a node at this level can take, with all that is below it, where no
node holds more than `width` entries and each is a level below what led to it.
-/
def worth (width : Nat) : (level : Nat) → Nat
  | 0 => 1
  | level + 1 => 1 + (width * worth width level + 1)

/-- A whole node takes fewer turns than the one entry above that leads to it. -/
theorem lt_worth {width left : Nat} (few : left ≤ width) (level : Nat)
    : left * worth width level + 1 < worth width (level + 1) := by
  have := Nat.mul_le_mul_right (worth width level) few
  rw [worth]
  omega

/-- One turn of the loop. -/
def Turn (step : σ → Next σ ρ) (state next : σ) : Prop := step state = .go next

/-- What some turns of the loop lead to: a state, or the answer. -/
def Leads (step : σ → Next σ ρ) (state : σ) : Next σ ρ → Prop
  | .go next => Relation.ReflTransGen (Turn step) state next
  | .stop result => ∃ last, Relation.ReflTransGen (Turn step) state last ∧ step last = .stop result

theorem Leads.refl (state : σ) : Leads step state (.go state) :=
  Relation.ReflTransGen.refl

/-- One turn leads to what its step says. -/
theorem Leads.turn (state : σ) : Leads step state (step state) := by
  cases taken : step state with
  | go next => exact .single taken
  | stop result => exact ⟨state, .refl, taken⟩

/-- What leads to a state leads on to whatever follows it. -/
theorem Leads.trans {state middle : σ} {target : Next σ ρ}
    (first : Leads step state (.go middle)) (second : Leads step middle target)
    : Leads step state target := by
  cases target with
  | go next => exact Relation.ReflTransGen.trans first second
  | stop result =>
      obtain ⟨last, reached, stopped⟩ := second
      exact ⟨last, Relation.ReflTransGen.trans first reached, stopped⟩

/-- Leading to each state a part of the work may end in, and from there on, is leading through
both parts.
-/
theorem Leads.bind {state : σ} {part : Next α ρ} {resume : α → σ} {rest : α → Next σ ρ}
    (first : Leads step state (part.bind fun a => .go (resume a)))
    (second : ∀ a, Leads step (resume a) (rest a))
    : Leads step state (part.bind rest) := by
  cases part with
  | go a => exact Leads.trans first (second a)
  | stop result => exact first

/-- Within some turns a loop answers what it leads to, by induction on the turns that lead there. -/
theorem exists_run_of_leads {state : σ} {result : ρ} (leads : Leads step state (.stop result))
    : ∃ turns, run step turns state = some result := by
  obtain ⟨last, reached, stopped⟩ := leads
  induction reached using Relation.ReflTransGen.head_induction_on with
  | refl => exact ⟨1, by simp only [run, stopped]⟩
  | head taken _ ih =>
      obtain ⟨turns, answered⟩ := ih
      exact ⟨turns + 1, by simp only [run, Turn] at taken ⊢; rw [taken]; exact answered⟩

/-- A loop answers what it leads to. -/
theorem total_of_leads (lowers : Lowers step measure) {state : σ} {result : ρ}
    (leads : Leads step state (.stop result))
    : total step measure lowers state = result := by
  obtain ⟨last, reached, stopped⟩ := leads
  induction reached using Relation.ReflTransGen.head_induction_on with
  | refl => exact total_of_stop lowers stopped
  | head taken _ ih => exact (total_of_go lowers taken).trans ih

/-- A loop leads to what it answers, by induction on its measure. -/
theorem leads_total (lowers : Lowers step measure) (state : σ)
    : Leads step state (.stop (total step measure lowers state)) := by
  induction bound : measure state using Nat.strongRecOn generalizing state with
  | _ bound_ ih =>
      cases taken : step state with
      | stop result =>
          rw [total_of_stop lowers taken]
          exact ⟨state, .refl, taken⟩
      | go next =>
          rw [total_of_go lowers taken]
          obtain ⟨last, reached, stopped⟩ := ih _ (bound ▸ lowers state next taken) next rfl
          exact ⟨last, .head taken reached, stopped⟩

/-- Loops of the same turns answer the same. -/
theorem total_congr {step' : σ → Next σ ρ} (same : step = step')
    (lowers : Lowers step measure) (lowers' : Lowers step' measure) (state : σ)
    : total step measure lowers state = total step' measure lowers' state := by
  subst same
  rfl

/-- What holds at first and is kept by every turn holds of every state a loop reaches, by
induction on the turns.
-/
theorem invariant {holds : σ → Prop} {state next : σ}
    (kept : ∀ state next, holds state → step state = .go next → holds next)
    (start : holds state) (reached : Relation.ReflTransGen (Turn step) state next)
    : holds next := by
  induction reached with
  | refl => exact start
  | tail _ taken ih => exact kept _ _ ih taken

end

/-- Hand each of `events` to `handle` in turn, until it stops. -/
def feed (handle : α → β → Next α ρ) : (events : List β) → (acc : α) → Next α ρ
  | [], acc => .go acc
  | event :: rest, acc => (handle acc event).bind (feed handle rest)

/-- Events in two parts are handed over one part after the other, by induction on the first. -/
theorem feed_append (handle : α → β → Next α ρ) (first second : List β) (acc : α)
    : feed handle (first ++ second) acc = (feed handle first acc).bind (feed handle second) := by
  induction first generalizing acc with
  | nil => rfl
  | cons event rest ih =>
      simp only [List.cons_append, feed]
      cases handle acc event with
      | go next => exact ih next
      | stop result => rfl

end Loop
