import Ferrosys.Library.Checked

/-! A checked loop over a list whose every turn succeeds. -/

namespace Checked

variable {ε α γ : Type}

/-- A loop over the numbers below `n`. -/
theorem foldlM_range_ok {step : γ → Nat → Except ε γ} {inv : Nat → γ → Prop} {n : Nat} {start : γ}
    (each : ∀ i < n, ∀ state, inv i state → ∃ after, step state i = .ok after ∧ inv (i + 1) after)
    (holds : inv 0 start)
    : ∃ last, (List.range n).foldlM step start = .ok last ∧ inv n last := by
  induction n with
  | zero => exact ⟨start, rfl, holds⟩
  | succ n ih =>
      obtain ⟨state, ran, kept⟩ := ih fun i below => each i (by omega)
      obtain ⟨after, turn, kept⟩ := each n (by omega) state kept
      refine ⟨after, ?_, kept⟩
      rw [List.range_succ, List.foldlM_append, ran, ok_bind, List.foldlM_cons, turn, ok_bind]
      rfl

end Checked
