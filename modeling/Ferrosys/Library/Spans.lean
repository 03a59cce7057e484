import Mathlib.Data.List.Basic
import Mathlib.Data.List.Flatten
import Mathlib.Data.List.Perm.Basic
import Mathlib.Order.Basic
import Mathlib.Tactic.Linarith

/-! Half-open runs of natural-number positions: when two runs are apart, and when a
list of runs is laid out in order, tiles an interval, or is packed inside one.
-/

namespace Spans

/-- A run of `len` positions from `start` on. -/
structure Span where
  start : Nat
  len : Nat
deriving DecidableEq

/-- One past the last position of a run. -/
def Span.stop (s : Span) : Nat :=
  s.start + s.len

@[simp] theorem Span.stop_mk (start len : Nat) : (Span.mk start len).stop = start + len := rfl

theorem Span.start_le_stop (s : Span) : s.start ≤ s.stop := Nat.le_add_right _ _

/-- A position lies in a run. -/
def Span.Holds (s : Span) (at_ : Nat) : Prop :=
  s.start ≤ at_ ∧ at_ < s.stop

instance (s : Span) (at_ : Nat) : Decidable (s.Holds at_) :=
  inferInstanceAs (Decidable (_ ∧ _))

/-- One of the two runs ends before the other begins. -/
def Span.Apart (a b : Span) : Prop :=
  a.stop ≤ b.start ∨ b.stop ≤ a.start

instance (a b : Span) : Decidable (a.Apart b) :=
  inferInstanceAs (Decidable (_ ∨ _))

theorem Span.Apart.symm {a b : Span} (h : a.Apart b) : b.Apart a := Or.symm h

/-- Runs that are apart share no position, by comparing the position with both ends. -/
theorem Span.Apart.not_holds {a b : Span} (h : a.Apart b) {at_ : Nat} (ha : a.Holds at_)
    : ¬ b.Holds at_ := by
  rintro ⟨lower, upper⟩
  obtain ⟨first, last⟩ := ha
  rcases h with before | after <;> omega

/-- A run lies inside the interval from `lo` to `hi`. -/
def Span.Within (lo hi : Nat) (s : Span) : Prop :=
  lo ≤ s.start ∧ s.stop ≤ hi

instance (lo hi : Nat) (s : Span) : Decidable (s.Within lo hi) :=
  inferInstanceAs (Decidable (_ ∧ _))

/-- The runs follow one another between `lo` and `hi`, gaps allowed. -/
def Chain : Nat → List Span → Nat → Prop
  | lo, [], hi => lo ≤ hi
  | lo, s :: rest, hi => lo ≤ s.start ∧ Chain s.stop rest hi

@[simp] theorem chain_nil (lo hi : Nat) : Chain lo [] hi ↔ lo ≤ hi := Iff.rfl

@[simp] theorem chain_cons (lo hi : Nat) (s : Span) (rest : List Span)
    : Chain lo (s :: rest) hi ↔ lo ≤ s.start ∧ Chain s.stop rest hi := Iff.rfl

/-- A chain spans an interval, by induction over its runs. -/
theorem Chain.le {lo hi : Nat} {runs : List Span} (h : Chain lo runs hi) : lo ≤ hi := by
  induction runs generalizing lo with
  | nil => exact h
  | cons s rest ih => exact h.1.trans (s.start_le_stop.trans (ih h.2))

/-- A chain may be taken to begin earlier and end later. -/
theorem Chain.widen {lo lo' hi hi' : Nat} {runs : List Span} (h : Chain lo runs hi)
    (first : lo' ≤ lo) (last : hi ≤ hi')
    : Chain lo' runs hi' := by
  induction runs generalizing lo lo' with
  | nil => exact first.trans (h.trans last)
  | cons s rest ih => exact ⟨first.trans h.1, ih h.2 le_rfl⟩

/-- Chains compose where one ends before the next begins, by induction on the first. -/
theorem Chain.append {lo mid hi : Nat} {left right : List Span} (hl : Chain lo left mid)
    (hr : Chain mid right hi)
    : Chain lo (left ++ right) hi := by
  induction left generalizing lo with
  | nil => exact hr.widen hl le_rfl
  | cons s rest ih => exact ⟨hl.1, ih hl.2⟩

/-- Every run of a chain lies between its ends. -/
theorem Chain.within {lo hi : Nat} {runs : List Span} (h : Chain lo runs hi)
    : ∀ s ∈ runs, s.Within lo hi := by
  induction runs generalizing lo with
  | nil => simp
  | cons s rest ih =>
      intro run member
      rcases List.mem_cons.mp member with rfl | later
      · exact ⟨h.1, h.2.le⟩
      · obtain ⟨lower, upper⟩ := ih h.2 run later
        exact ⟨h.1.trans (s.start_le_stop.trans lower), upper⟩

/-- The runs of a chain are pairwise apart, each ending before the next begins. -/
theorem Chain.pairwise_apart {lo hi : Nat} {runs : List Span} (h : Chain lo runs hi)
    : runs.Pairwise Span.Apart := by
  induction runs generalizing lo with
  | nil => exact .nil
  | cons s rest ih =>
      refine .cons ?_ (ih h.2)
      intro run member
      exact .inl (h.2.within run member).1

/-- Runs laid out in order inside cells that follow one another are laid out in order, by
induction over the cells.
-/
theorem Chain.flatMap {α : Type} {cells : List α} {cell : α → Span} {inside : α → List Span}
    {lo hi : Nat} (outer : Chain lo (cells.map cell) hi)
    (inner : ∀ c ∈ cells, Chain (cell c).start (inside c) (cell c).stop)
    : Chain lo (cells.flatMap inside) hi := by
  induction cells generalizing lo with
  | nil => exact outer
  | cons c rest ih =>
      have here := (inner c (by simp)).widen outer.1 le_rfl
      exact here.append (ih outer.2 fun d member => inner d (by simp [member]))

/-- The runs are non-empty, follow one another without a gap, and fill `lo` to `hi`. -/
def Tiles : Nat → List Span → Nat → Prop
  | lo, [], hi => lo = hi
  | lo, s :: rest, hi => s.start = lo ∧ 0 < s.len ∧ Tiles s.stop rest hi

@[simp] theorem tiles_nil (lo hi : Nat) : Tiles lo [] hi ↔ lo = hi := Iff.rfl

@[simp] theorem tiles_cons (lo hi : Nat) (s : Span) (rest : List Span)
    : Tiles lo (s :: rest) hi ↔ s.start = lo ∧ 0 < s.len ∧ Tiles s.stop rest hi := Iff.rfl

/-- Runs that tile an interval split where any of them end. -/
theorem tiles_append {lo hi : Nat} {first second : List Span}
    : Tiles lo (first ++ second) hi ↔ ∃ mid, Tiles lo first mid ∧ Tiles mid second hi := by
  induction first generalizing lo with
  | nil => simp
  | cons s rest ih =>
      simp only [List.cons_append, tiles_cons, ih]
      constructor
      · rintro ⟨begins, some_, mid, before, after⟩
        exact ⟨mid, ⟨begins, some_, before⟩, after⟩
      · rintro ⟨mid, ⟨begins, some_, before⟩, after⟩
        exact ⟨begins, some_, mid, before, after⟩

/-- A tiling is a chain without gaps. -/
theorem Tiles.chain {lo hi : Nat} {runs : List Span} (h : Tiles lo runs hi)
    : Chain lo runs hi := by
  induction runs generalizing lo with
  | nil => exact h.le
  | cons s rest ih => exact ⟨h.1.ge, ih h.2.2⟩

/-- A tiling extended by the run that fills the space behind it still tiles. -/
theorem Tiles.concat {lo mid hi : Nat} {runs : List Span} (h : Tiles lo runs mid)
    (room : mid < hi)
    : Tiles lo (runs ++ [⟨mid, hi - mid⟩]) hi := by
  induction runs generalizing lo with
  | nil =>
      obtain rfl : lo = mid := h
      exact ⟨rfl, by simp; omega, by simp; omega⟩
  | cons s rest ih => exact ⟨h.1, h.2.1, ih h.2.2⟩

/-- The runs lie between `lo` and `hi` and no two of them meet. -/
structure Packed (lo hi : Nat) (runs : List Span) : Prop where
  within : ∀ s ∈ runs, s.Within lo hi
  apart : runs.Pairwise Span.Apart

theorem Chain.packed {lo hi : Nat} {runs : List Span} (h : Chain lo runs hi)
    : Packed lo hi runs :=
  ⟨h.within, h.pairwise_apart⟩

/-- The order of packed runs does not matter. -/
theorem Packed.perm {lo hi : Nat} {left right : List Span} (h : Packed lo hi left)
    (same : left.Perm right)
    : Packed lo hi right where
  within s member := h.within s (same.mem_iff.mpr member)
  apart := same.pairwise h.apart Span.Apart.symm

/-- Two packed lists that keep apart from one another pack together. -/
theorem Packed.append {lo hi : Nat} {left right : List Span} (hl : Packed lo hi left)
    (hr : Packed lo hi right) (cross : ∀ a ∈ left, ∀ b ∈ right, a.Apart b)
    : Packed lo hi (left ++ right) where
  within s member := (List.mem_append.mp member).elim (hl.within s) (hr.within s)
  apart := List.pairwise_append.mpr ⟨hl.apart, hr.apart, cross⟩

end Spans
