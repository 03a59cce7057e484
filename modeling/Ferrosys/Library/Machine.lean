import Ferrosys.Library.Arith
import Ferrosys.Library.Checked

/-! Arithmetic on 64-bit words as the builds of a program do it: a result that does not fit wraps
around in one build and stops the other.
-/

namespace Machine

open Arith Checked

variable {ε : Type} {build : Build} {a b c : Nat}

/-- The largest word. -/
def wordMax : Nat := 2 ^ 64 - 1

/-- How a program is built: with the checks for overflow left out, or with them. -/
inductive Build where
  | release
  | checked
deriving DecidableEq

/-- How a computation ends early: with an error of its own, or by a panic. -/
inductive Fault (ε : Type) where
  | refused (error : ε)
  | panicked
deriving DecidableEq

/-- Refuse with `error` where `bad` holds. -/
def refuseIf (bad : Bool) (error : ε) : Except (Fault ε) Unit :=
  Checked.refuseIf bad (.refused error)

/-- An assertion, which only a build with checks makes. -/
def debugAssert (build : Build) (holds : Bool) : Except (Fault ε) Unit :=
  if build = .checked ∧ holds = false then .error .panicked else .ok ()

/-- What is left of a result in a word. -/
def fit (build : Build) (n : Nat) : Except (Fault ε) Nat :=
  if n < 2 ^ 64 then .ok n
  else
    match build with
    | .release => .ok (n % 2 ^ 64)
    | .checked => .error .panicked

def add (build : Build) (a b : Nat) : Except (Fault ε) Nat := fit build (a + b)

def mul (build : Build) (a b : Nat) : Except (Fault ε) Nat := fit build (a * b)

def sub (build : Build) (a b : Nat) : Except (Fault ε) Nat :=
  if b ≤ a then .ok (a - b)
  else
    match build with
    | .release => .ok (a + 2 ^ 64 - b)
    | .checked => .error .panicked

/-- Division, which panics on zero in every build. -/
def div (a b : Nat) : Except (Fault ε) Nat := if b = 0 then .error .panicked else .ok (a / b)

/-- Division rounded up. -/
def ceilDiv (a b : Nat) : Except (Fault ε) Nat :=
  if b = 0 then .error .panicked else .ok (divCeil a b)

/-- The words added up one after the other. -/
def sum (build : Build) (words : List Nat) : Except (Fault ε) Nat := words.foldlM (add build) 0

def satAdd (a b : Nat) : Nat := min (a + b) wordMax

def satMul (a b : Nat) : Nat := min (a * b) wordMax

def checkedAdd (a b : Nat) : Option Nat := if a + b < 2 ^ 64 then some (a + b) else none

def checkedMul (a b : Nat) : Option Nat := if a * b < 2 ^ 64 then some (a * b) else none

/-! What fits comes out the same in every build. -/

theorem fit_of_lt {n : Nat} (fits : n < 2 ^ 64) : fit (ε := ε) build n = .ok n := if_pos fits

theorem add_of_lt (fits : a + b < 2 ^ 64) : add (ε := ε) build a b = .ok (a + b) := fit_of_lt fits

theorem mul_of_lt (fits : a * b < 2 ^ 64) : mul (ε := ε) build a b = .ok (a * b) := fit_of_lt fits

theorem sub_of_le (within : b ≤ a) : sub (ε := ε) build a b = .ok (a - b) := if_pos within

theorem div_of_pos (pos : 0 < b) : div (ε := ε) a b = .ok (a / b) := if_neg pos.ne'

theorem ceilDiv_of_pos (pos : 0 < b) : ceilDiv (ε := ε) a b = .ok (divCeil a b) := if_neg pos.ne'

/-- Words whose sum fits add up to it, by induction on the words with what was added so far. -/
theorem foldlM_add {words : List Nat} {start : Nat} (fits : start + words.sum < 2 ^ 64)
    : words.foldlM (add (ε := ε) build) start = .ok (start + words.sum) := by
  induction words generalizing start with
  | nil => rfl
  | cons word rest ih =>
      rw [List.sum_cons, ← Nat.add_assoc] at fits
      rw [List.foldlM_cons, add_of_lt (by omega), ok_bind, ih fits, List.sum_cons, Nat.add_assoc]

theorem sum_of_lt {words : List Nat} (fits : words.sum < 2 ^ 64)
    : sum (ε := ε) build words = .ok words.sum := by
  rw [sum, foldlM_add (by rwa [Nat.zero_add]), Nat.zero_add]

/-- A build with checks stops at what does not fit. -/
theorem fit_checked_of_le {n : Nat} (large : 2 ^ 64 ≤ n)
    : fit (ε := ε) .checked n = .error .panicked := if_neg large.not_gt

theorem debugAssert_of_true : debugAssert (ε := ε) build true = .ok () := if_neg nofun

/-! Saturating results fit, and are exact below the largest word. -/

theorem add_le_of_satAdd_le (le : satAdd a b ≤ c) (small : c < wordMax) : a + b ≤ c :=
  (min_le_iff.mp le).resolve_right small.not_ge

theorem mul_le_of_satMul_le (le : satMul a b ≤ c) (small : c < wordMax) : a * b ≤ c :=
  (min_le_iff.mp le).resolve_right small.not_ge

theorem checkedAdd_eq_some : checkedAdd a b = some c ↔ a + b < 2 ^ 64 ∧ a + b = c := by
  simp [checkedAdd]

theorem checkedMul_eq_some : checkedMul a b = some c ↔ a * b < 2 ^ 64 ∧ a * b = c := by
  simp [checkedMul]

end Machine
