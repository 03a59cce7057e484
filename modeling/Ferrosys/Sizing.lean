import Ferrosys.Library.Loop
import Ferrosys.Library.Machine
import Mathlib.Data.UInt

/-! Sizing a filesystem to what goes in it: the bracket every family's fit search shares. A climb
by doubling finds a count that fits or one past the top of what the family accepts, and what is
left between the last count that did not fit and that one is closed by halves.
-/

namespace Ferrosys.Sizing

open Machine

/-- What one candidate size turned out to be. -/
inductive Probe (α ε : Type) where
  | fits (value : α)
  | tight
  | tooSmall (error : ε)
  | exhausted (error : ε)
  | impossible (error : ε)
deriving DecidableEq

/-- Which of its loops the search is in: climbing from a count that did not fit, closing the window
below an upward-closed refusal, or closing the bracket below a count that fits.
-/
inductive Stage (α ε : Type) where
  | climb (lo candidate : Nat)
  | window (lo above : Nat) (refusal : ε)
  | close (lo hi : Nat) (fitted : α)
deriving DecidableEq

/-- What the search answers: a count and what its probe kept, or why there is none. -/
abbrev Answer (α ε : Type) := Except (Option ε) (Nat × α)

section

variable {α ε : Type} (probe : Nat → Probe α ε) (ceiling : Nat)

/-- One probe of the climb. -/
def climbTurn (lo candidate : Nat) : Loop.Next (Stage α ε) (Answer α ε) :=
  match probe candidate with
  | .fits value => .go (.close lo candidate value)
  | .impossible error => .stop (.error (some error))
  | .exhausted error => .go (.window lo candidate error)
  | .tight | .tooSmall _ =>
      if candidate = ceiling then
        match probe ceiling with
        | .tooSmall error => .stop (.error (some error))
        | _ => .stop (.error none)
      else .go (.climb candidate (min (satMul candidate 2) ceiling))

/-- One probe of the window below a refusal, which only a window closed empty returns. -/
def windowTurn (lo above : Nat) (refusal : ε) : Loop.Next (Stage α ε) (Answer α ε) :=
  if above - lo ≤ 1 then .stop (.error (some refusal))
  else
    let mid := lo + (above - lo) / 2
    match probe mid with
    | .fits value => .go (.close lo mid value)
    | .impossible error => .stop (.error (some error))
    | .exhausted error => .go (.window lo mid error)
    | .tight | .tooSmall _ => .go (.window mid above refusal)

/-- One probe of the bracket, where every verdict but a fit moves the floor. -/
def closeTurn (lo hi : Nat) (fitted : α) : Loop.Next (Stage α ε) (Answer α ε) :=
  if 1 < hi - lo then
    let mid := lo + (hi - lo) / 2
    match probe mid with
    | .fits value => .go (.close lo mid value)
    | _ => .go (.close mid hi fitted)
  else .stop (.ok (hi, fitted))

/-- One turn of whichever loop the search is in. -/
def turn : Stage α ε → Loop.Next (Stage α ε) (Answer α ε)
  | .climb lo candidate => climbTurn probe ceiling lo candidate
  | .window lo above refusal => windowTurn probe lo above refusal
  | .close lo hi fitted => closeTurn probe lo hi fitted

/-- The smallest count from `floor` to `ceiling` that fits, with the one below it known not to:
what the search answers within so many turns.
-/
def bracket (floor ceiling : UInt64) (turns : Nat) : Option (Answer α ε) :=
  if ceiling.toNat < floor.toNat then some (.error none)
  else Loop.run (turn probe ceiling.toNat) turns (.climb (floor.toNat - 1) floor.toNat)

end

section

variable {α ε : Type} {probe : Nat → Probe α ε} {floor ceiling : Nat}

/-- A probe answered with a fit. -/
def Probe.Fits (verdict : Probe α ε) : Prop := ∃ value, verdict = .fits value

/-- A count the search has ruled out: it did not fit, or it is the one below the floor. -/
def RuledOut (probe : Nat → Probe α ε) (floor count : Nat) : Prop :=
  count + 1 = floor ∨ floor ≤ count ∧ ¬ (probe count).Fits

/-- What holds of every stage: the lower end is ruled out, the upper end lies above it within the
range, and where the bracket is closing the upper end is what fits.
-/
def Stage.Sound (probe : Nat → Probe α ε) (floor ceiling : Nat) : Stage α ε → Prop
  | .climb lo candidate =>
      RuledOut probe floor lo ∧ lo < candidate ∧ floor ≤ candidate ∧ candidate ≤ ceiling
  | .window lo above _ => RuledOut probe floor lo ∧ lo < above ∧ above ≤ ceiling
  | .close lo hi fitted =>
      RuledOut probe floor lo ∧ lo < hi ∧ hi ≤ ceiling ∧ probe hi = .fits fitted

theorem ruledOut_of_tight {count : Nat} (within : floor ≤ count) (tight : probe count = .tight)
    : RuledOut probe floor count :=
  .inr ⟨within, by rintro ⟨value, fits⟩; cases tight.symm.trans fits⟩

theorem ruledOut_of_tooSmall {count : Nat} {error : ε} (within : floor ≤ count)
    (small : probe count = .tooSmall error) : RuledOut probe floor count :=
  .inr ⟨within, by rintro ⟨value, fits⟩; cases small.symm.trans fits⟩

theorem floor_le_of_ruledOut {lo count : Nat} (out : RuledOut probe floor lo) (above : lo < count)
    : floor ≤ count := by
  rcases out with next | ⟨within, -⟩ <;> omega

/-- The count halfway between two ends that are apart lies strictly between them. -/
theorem mid_between {lo hi : Nat} (apart : 1 < hi - lo)
    : lo < lo + (hi - lo) / 2 ∧ lo + (hi - lo) / 2 < hi := by omega

/-- Doubling a candidate below the ceiling moves it up, and no further than the ceiling. -/
theorem double_between {candidate : Nat} (pos : 1 ≤ candidate) (below : candidate < ceiling)
    (word : ceiling < 2 ^ 64)
    : candidate < min (satMul candidate 2) ceiling ∧ min (satMul candidate 2) ceiling ≤ ceiling := by
  unfold satMul wordMax
  omega

/-- Every turn of the climb leaves a sound stage. -/
theorem climbTurn_sound {lo candidate : Nat} {next : Stage α ε} (word : ceiling < 2 ^ 64)
    (sound : (Stage.climb lo candidate : Stage α ε).Sound probe floor ceiling)
    (taken : climbTurn probe ceiling lo candidate = .go next) : next.Sound probe floor ceiling := by
  obtain ⟨out, below, least, most⟩ := sound
  have further (ruled : RuledOut probe floor candidate) (more : candidate ≠ ceiling)
      : (Stage.climb candidate (min (satMul candidate 2) ceiling) : Stage α ε).Sound
          probe floor ceiling := by
    obtain ⟨up, within⟩ := double_between (by omega) (by omega : candidate < ceiling) word
    exact ⟨ruled, up, by omega, within⟩
  unfold climbTurn at taken
  cases verdict : probe candidate with
  | fits value =>
      rw [verdict] at taken
      cases taken
      exact ⟨out, below, most, verdict⟩
  | impossible error =>
      rw [verdict] at taken
      cases taken
  | exhausted error =>
      rw [verdict] at taken
      cases taken
      exact ⟨out, below, most⟩
  | tight =>
      simp only [verdict] at taken
      split at taken
      · split at taken <;> cases taken
      · cases taken
        exact further (ruledOut_of_tight least verdict) ‹_›
  | tooSmall error =>
      simp only [verdict] at taken
      split at taken
      · split at taken <;> cases taken
      · cases taken
        exact further (ruledOut_of_tooSmall least verdict) ‹_›

/-- Every turn of the window leaves a sound stage. -/
theorem windowTurn_sound {lo above : Nat} {refusal : ε} {next : Stage α ε}
    (sound : (Stage.window lo above refusal : Stage α ε).Sound probe floor ceiling)
    (taken : windowTurn probe lo above refusal = .go next) : next.Sound probe floor ceiling := by
  obtain ⟨out, below, most⟩ := sound
  unfold windowTurn at taken
  split at taken
  next => cases taken
  next apart =>
    obtain ⟨low, high⟩ := mid_between (not_le.mp apart)
    have least := floor_le_of_ruledOut out low
    dsimp only at taken
    cases verdict : probe (lo + (above - lo) / 2) with
    | fits value =>
        rw [verdict] at taken
        cases taken
        exact ⟨out, low, by omega, verdict⟩
    | impossible error =>
        rw [verdict] at taken
        cases taken
    | exhausted error =>
        rw [verdict] at taken
        cases taken
        exact ⟨out, low, by omega⟩
    | tight =>
        rw [verdict] at taken
        cases taken
        exact ⟨ruledOut_of_tight least verdict, high, most⟩
    | tooSmall error =>
        rw [verdict] at taken
        cases taken
        exact ⟨ruledOut_of_tooSmall least verdict, high, most⟩

/-- One turn of the closing bracket: the middle fits and becomes the upper end, or it is ruled out
and becomes the lower.
-/
theorem closeTurn_go {lo hi : Nat} {fitted : α} {next : Stage α ε}
    (taken : closeTurn probe lo hi fitted = .go next)
    : 1 < hi - lo
      ∧ ((∃ value, probe (lo + (hi - lo) / 2) = .fits value
            ∧ next = .close lo (lo + (hi - lo) / 2) value)
          ∨ ¬ (probe (lo + (hi - lo) / 2)).Fits ∧ next = .close (lo + (hi - lo) / 2) hi fitted) := by
  unfold closeTurn at taken
  split at taken
  next apart =>
    refine ⟨apart, ?_⟩
    dsimp only at taken
    split at taken
    next value verdict =>
      cases taken
      exact .inl ⟨value, verdict, rfl⟩
    next other =>
      cases taken
      exact .inr ⟨fun ⟨value, fits⟩ => other value fits, rfl⟩
  next => cases taken

/-- Every turn of the closing bracket leaves a sound stage. -/
theorem closeTurn_sound {lo hi : Nat} {fitted : α} {next : Stage α ε}
    (sound : (Stage.close lo hi fitted : Stage α ε).Sound probe floor ceiling)
    (taken : closeTurn probe lo hi fitted = .go next) : next.Sound probe floor ceiling := by
  obtain ⟨out, below, most, fits⟩ := sound
  obtain ⟨apart, ⟨value, verdict, rfl⟩ | ⟨unfit, rfl⟩⟩ := closeTurn_go taken
  · obtain ⟨low, high⟩ := mid_between apart
    exact ⟨out, low, by omega, verdict⟩
  · obtain ⟨low, high⟩ := mid_between apart
    exact ⟨.inr ⟨floor_le_of_ruledOut out low, unfit⟩, high, most, fits⟩

/-- Every turn leaves a sound stage, by which loop it is in. -/
theorem turn_sound (word : ceiling < 2 ^ 64) (stage next : Stage α ε)
    (sound : stage.Sound probe floor ceiling) (taken : turn probe ceiling stage = .go next)
    : next.Sound probe floor ceiling := by
  cases stage with
  | climb lo candidate => exact climbTurn_sound word sound taken
  | window lo above refusal => exact windowTurn_sound sound taken
  | close lo hi fitted => exact closeTurn_sound sound taken

/-- The most turns a stage can still take: a climb moves up, and every other turn closes the gap. -/
def Stage.left (ceiling : Nat) : Stage α ε → Nat
  | .climb _ candidate => 2 * (ceiling + 1) + (ceiling - candidate)
  | .window lo above _ => ceiling + 1 + (above - lo)
  | .close lo hi _ => hi - lo

/-- Every turn from a sound stage leaves fewer. -/
theorem turn_lowers (word : ceiling < 2 ^ 64) (stage next : Stage α ε)
    (sound : stage.Sound probe floor ceiling) (taken : turn probe ceiling stage = .go next)
    : next.left ceiling < stage.left ceiling := by
  cases stage with
  | climb lo candidate =>
      obtain ⟨-, below, least, most⟩ := sound
      simp only [turn, climbTurn] at taken
      have further (more : candidate ≠ ceiling)
          : (Stage.climb candidate (min (satMul candidate 2) ceiling) : Stage α ε).left ceiling
            < (Stage.climb lo candidate : Stage α ε).left ceiling := by
        have := double_between (by omega) (by omega : candidate < ceiling) word
        simp only [Stage.left]
        omega
      split at taken
      · cases taken
        simp only [Stage.left]
        omega
      · cases taken
      · cases taken
        simp only [Stage.left]
        omega
      all_goals
        split at taken
        · split at taken <;> cases taken
        · cases taken
          exact further ‹_›
  | window lo above refusal =>
      obtain ⟨-, below, most⟩ := sound
      simp only [turn, windowTurn] at taken
      split at taken
      · cases taken
      · split at taken <;> cases taken <;> simp only [Stage.left] <;> omega
  | close lo hi fitted =>
      obtain ⟨apart, ⟨_, _, rfl⟩ | ⟨_, rfl⟩⟩ := closeTurn_go taken <;> simp only [Stage.left] <;> omega

/-- A search stops with a count only where its bracket has closed on it. -/
theorem turn_stop_ok {stage : Stage α ε} {count : Nat} {value : α}
    (stopped : turn probe ceiling stage = .stop (.ok (count, value)))
    : ∃ lo, stage = .close lo count value ∧ count - lo ≤ 1 := by
  cases stage with
  | climb lo candidate =>
      simp only [turn, climbTurn] at stopped
      split at stopped
      · cases stopped
      · cases stopped
      · cases stopped
      all_goals
        split at stopped
        · split at stopped <;> cases stopped
        · cases stopped
  | window lo above refusal =>
      simp only [turn, windowTurn] at stopped
      split at stopped
      · cases stopped
      · split at stopped <;> cases stopped
  | close lo hi fitted =>
      simp only [turn, closeTurn] at stopped
      split at stopped
      · split at stopped <;> cases stopped
      · cases stopped
        exact ⟨lo, rfl, by omega⟩

/-- A count the search answers is in range, fits, and is the floor or one above a count that does
not fit.
-/
theorem found_of_stop {stage : Stage α ε} {count : Nat} {value : α}
    (sound : stage.Sound probe floor ceiling)
    (stopped : turn probe ceiling stage = .stop (.ok (count, value)))
    : floor ≤ count ∧ count ≤ ceiling ∧ probe count = .fits value
      ∧ (count = floor ∨ ¬ (probe (count - 1)).Fits) := by
  obtain ⟨lo, rfl, closed⟩ := turn_stop_ok stopped
  obtain ⟨out, below, most, fits⟩ := sound
  obtain rfl : count = lo + 1 := by omega
  refine ⟨floor_le_of_ruledOut out below, most, fits, ?_⟩
  rcases out with next | ⟨-, unfit⟩
  · exact .inl next
  · exact .inr unfit

/-- What verdicts a count has where those from `least` to `last` are what fits. -/
def Probe.Places (least last count : Nat) : Probe α ε → Prop
  | .fits _ => least ≤ count ∧ count ≤ last
  | .tight | .tooSmall _ => count < least
  | .exhausted _ => last < count
  | .impossible _ => False

/-- The verdicts over a range are a run of too small, one of fits that is not empty, and one of
exhausted.
-/
structure Windowed (probe : Nat → Probe α ε) (floor ceiling least last : Nat) : Prop where
  first : floor ≤ least
  some_ : least ≤ last
  last_ : last ≤ ceiling
  small : ∀ n, floor ≤ n → n < least → probe n = .tight ∨ ∃ error, probe n = .tooSmall error
  fits : ∀ n, least ≤ n → n ≤ last → (probe n).Fits
  past : ∀ n, last < n → n ≤ ceiling → ∃ error, probe n = .exhausted error

/-- Each verdict says on which side of the window its count is. -/
theorem Windowed.places {least last count : Nat}
    (windowed : Windowed probe floor ceiling least last) (low : floor ≤ count)
    (high : count ≤ ceiling) : (probe count).Places least last count := by
  by_cases small : count < least
  · rcases windowed.small count low small with verdict | ⟨error, verdict⟩ <;> rw [verdict] <;>
      exact small
  · by_cases past : last < count
    · obtain ⟨error, verdict⟩ := windowed.past count past high
      rw [verdict]
      exact past
    · obtain ⟨value, verdict⟩ := windowed.fits count (not_lt.mp small) (not_lt.mp past)
      rw [verdict]
      exact ⟨not_lt.mp small, not_lt.mp past⟩

/-- A stage with the window between its ends. -/
def Stage.Around (least last : Nat) : Stage α ε → Prop
  | .climb lo _ => lo < least
  | .window lo above _ => lo < least ∧ last < above
  | .close lo hi _ => lo < least ∧ least ≤ hi ∧ hi ≤ last

/-- Every turn keeps the window between the ends of the stage. -/
theorem turn_around {least last : Nat} (windowed : Windowed probe floor ceiling least last)
    {stage next : Stage α ε} (sound : stage.Sound probe floor ceiling)
    (around : stage.Around least last) (taken : turn probe ceiling stage = .go next)
    : next.Around least last := by
  have some_ := windowed.some_
  cases stage with
  | climb lo candidate =>
      obtain ⟨out, below, low, high⟩ := sound
      have placed := windowed.places low high
      simp only [turn, climbTurn] at taken
      cases verdict : probe candidate with
      | fits value =>
          rw [verdict] at taken placed
          cases taken
          exact ⟨around, placed⟩
      | impossible error =>
          rw [verdict] at placed
          exact placed.elim
      | exhausted error =>
          rw [verdict] at taken placed
          cases taken
          exact ⟨around, placed⟩
      | tight =>
          simp only [verdict] at taken placed
          split at taken
          · split at taken <;> cases taken
          · cases taken
            exact placed
      | tooSmall error =>
          simp only [verdict] at taken placed
          split at taken
          · split at taken <;> cases taken
          · cases taken
            exact placed
  | window lo above refusal =>
      obtain ⟨out, below, most⟩ := sound
      obtain ⟨before, after⟩ := around
      obtain ⟨low, high⟩ := mid_between (by omega : 1 < above - lo)
      have placed := windowed.places (floor_le_of_ruledOut out low) (by omega)
      simp only [turn, windowTurn, if_neg (by omega : ¬ above - lo ≤ 1)] at taken
      cases verdict : probe (lo + (above - lo) / 2) with
      | fits value =>
          rw [verdict] at taken placed
          cases taken
          exact ⟨before, placed⟩
      | impossible error =>
          rw [verdict] at placed
          exact placed.elim
      | exhausted error =>
          rw [verdict] at taken placed
          cases taken
          exact ⟨before, placed⟩
      | tight =>
          rw [verdict] at taken placed
          cases taken
          exact ⟨placed, after⟩
      | tooSmall error =>
          rw [verdict] at taken placed
          cases taken
          exact ⟨placed, after⟩
  | close lo hi fitted =>
      obtain ⟨out, below, most, fits⟩ := sound
      obtain ⟨before, reaches, within⟩ := around
      obtain ⟨apart, ⟨value, verdict, rfl⟩ | ⟨unfit, rfl⟩⟩ := closeTurn_go taken
      · obtain ⟨low, high⟩ := mid_between apart
        have placed := windowed.places (floor_le_of_ruledOut out low) (by omega)
        rw [verdict] at placed
        exact ⟨before, placed⟩
      · obtain ⟨low, high⟩ := mid_between apart
        refine ⟨?_, reaches, within⟩
        by_contra reached
        exact unfit (windowed.fits _ (not_lt.mp reached) (by omega))

/-- A search around a window stops with the least count of it. -/
theorem stop_of_around {least last : Nat} (windowed : Windowed probe floor ceiling least last)
    {stage : Stage α ε} (sound : stage.Sound probe floor ceiling)
    (around : stage.Around least last) {answer : Answer α ε}
    (stopped : turn probe ceiling stage = .stop answer)
    : ∃ value, answer = .ok (least, value) := by
  have some_ := windowed.some_
  have inside := windowed.last_
  cases stage with
  | climb lo candidate =>
      obtain ⟨out, below, low, high⟩ := sound
      have placed := windowed.places low high
      simp only [turn, climbTurn] at stopped
      -- the ceiling does not come before the window, so a climb never ends there
      have short (small : candidate < least) : candidate ≠ ceiling := by omega
      cases verdict : probe candidate with
      | fits value =>
          rw [verdict] at stopped
          cases stopped
      | impossible error =>
          rw [verdict] at placed
          exact placed.elim
      | exhausted error =>
          rw [verdict] at stopped
          cases stopped
      | tight =>
          rw [verdict] at placed
          simp only [verdict, if_neg (short placed)] at stopped
          cases stopped
      | tooSmall error =>
          rw [verdict] at placed
          simp only [verdict, if_neg (short placed)] at stopped
          cases stopped
  | window lo above refusal =>
      obtain ⟨out, below, most⟩ := sound
      obtain ⟨before, after⟩ := around
      obtain ⟨low, high⟩ := mid_between (by omega : 1 < above - lo)
      have placed := windowed.places (floor_le_of_ruledOut out low) (by omega)
      simp only [turn, windowTurn, if_neg (by omega : ¬ above - lo ≤ 1)] at stopped
      split at stopped
      · cases stopped
      next error verdict =>
        rw [verdict] at placed
        exact placed.elim
      all_goals cases stopped
  | close lo hi fitted =>
      obtain ⟨out, below, most, fits⟩ := sound
      obtain ⟨before, reaches, within⟩ := around
      simp only [turn, closeTurn] at stopped
      split at stopped
      · split at stopped <;> cases stopped
      · cases stopped
        obtain rfl : hi = least := by omega
        exact ⟨fitted, rfl⟩

/-- What the search promises of every probe over a range. -/
structure Brackets (probe : Nat → Probe α ε) (floor ceiling : UInt64) : Prop where
  /-- It answers, within turns that the ceiling bounds. -/
  terminates : (bracket probe floor ceiling (3 * (ceiling.toNat + 1))).isSome
  /-- A count it answers fits, and is the floor or one above a count that does not fit. -/
  tight : ∀ turns count value, bracket probe floor ceiling turns = some (.ok (count, value)) →
    floor.toNat ≤ count ∧ count ≤ ceiling.toNat ∧ probe count = .fits value
      ∧ (count = floor.toNat ∨ ¬ (probe (count - 1)).Fits)
  /-- Where the counts that fit are one window, it answers the least of them. -/
  least : ∀ least last, Windowed probe floor.toNat ceiling.toNat least last →
    ∃ value, bracket probe floor ceiling (3 * (ceiling.toNat + 1)) = some (.ok (least, value))

theorem begins_sound {floor ceiling : Nat} (pos : 1 ≤ floor) (within : floor ≤ ceiling)
    : (Stage.climb (floor - 1) floor : Stage α ε).Sound probe floor ceiling :=
  ⟨.inl (Nat.sub_add_cancel pos), Nat.sub_lt pos Nat.one_pos, le_rfl, within⟩

/-- The search keeps its promise from every floor of one or more. -/
theorem bracket_brackets (probe : Nat → Probe α ε) (floor ceiling : UInt64)
    (pos : 1 ≤ floor.toNat) : Brackets probe floor ceiling := by
  have word : ceiling.toNat < 2 ^ 64 := ceiling.toNat_lt
  have kept := @turn_sound α ε probe floor.toNat ceiling.toNat word
  have ends (within : floor.toNat ≤ ceiling.toNat)
      : (Loop.run (turn probe ceiling.toNat) (3 * (ceiling.toNat + 1))
          (.climb (floor.toNat - 1) floor.toNat)).isSome := by
    refine Loop.run_isSome_of_kept kept (turn_lowers word) _ _ (begins_sound pos within) ?_
    simp only [Stage.left]
    omega
  constructor
  · unfold bracket
    split
    next => rfl
    next within => exact ends (not_lt.mp within)
  · intro turns count value answered
    unfold bracket at answered
    split at answered
    next => cases answered
    next within =>
      obtain ⟨stage, sound, stopped⟩ := Loop.stop_of_run
        (fun stage next taken sound => kept stage next sound taken)
        (begins_sound pos (not_lt.mp within)) answered
      exact found_of_stop sound stopped
  · intro least last windowed
    have within : floor.toNat ≤ ceiling.toNat :=
      windowed.first.trans (windowed.some_.trans windowed.last_)
    obtain ⟨answer, answered⟩ := Option.isSome_iff_exists.mp (ends within)
    have begun : (Stage.climb (floor.toNat - 1) floor.toNat : Stage α ε).Around least last := by
      have := windowed.first
      simp only [Stage.Around]
      omega
    have both (stage next : Stage α ε) (taken : turn probe ceiling.toNat stage = .go next)
        (held : stage.Sound probe floor.toNat ceiling.toNat ∧ stage.Around least last)
        : next.Sound probe floor.toNat ceiling.toNat ∧ next.Around least last :=
      ⟨kept stage next held.1 taken, turn_around windowed held.1 held.2 taken⟩
    obtain ⟨stage, ⟨sound, around⟩, stopped⟩ :=
      Loop.stop_of_run both ⟨begins_sound pos within, begun⟩ answered
    obtain ⟨value, rfl⟩ := stop_of_around windowed sound around stopped
    exact ⟨value, by rw [bracket, if_neg (not_lt.mpr within), answered]⟩

/-- Five and six alone fit, and eight is past them: the climb steps over both. -/
def narrow (n : Nat) : Probe Nat String :=
  if 6 < n then .exhausted "past the top"
  else if 5 ≤ n then .fits n
  else .tooSmall "below the threshold"

/-- The least of that window is found. -/
theorem bracket_brackets_narrow
    : Brackets narrow 1 (2 ^ 30) ∧ bracket narrow 1 (2 ^ 30) 8 = some (.ok (5, 5)) :=
  ⟨bracket_brackets narrow 1 (2 ^ 30) (by decide), by decide +kernel⟩

end

end Ferrosys.Sizing
