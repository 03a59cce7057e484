import Mathlib.Data.List.Basic
import Mathlib.Tactic.Linarith
import Ferrosys.Library.Arith

/-! A list cut into pieces of one length, the last of them possibly shorter. -/

namespace Chunks

open Arith

variable {α : Type}

/-- The pieces of a list, `fuel` of them at most. -/
def chunksFrom (n : Nat) : (fuel : Nat) → List α → List (List α)
  | 0, _ => []
  | _ + 1, [] => []
  | fuel + 1, first :: rest =>
      (first :: rest).take n :: chunksFrom n fuel ((first :: rest).drop n)

/-- The list in pieces of `n`. A list has no more pieces than elements. -/
def chunks (n : Nat) (l : List α) : List (List α) := chunksFrom n l.length l

/-- Any fuel that covers the list cuts it all, by induction on the fuel. -/
theorem flatten_chunksFrom {n : Nat} (pos : 0 < n) {fuel : Nat} {l : List α}
    (enough : l.length ≤ fuel)
    : (chunksFrom n fuel l).flatten = l := by
  induction fuel generalizing l with
  | zero => exact (List.eq_nil_of_length_eq_zero (Nat.le_zero.mp enough)).symm ▸ rfl
  | succ fuel ih =>
      cases l with
      | nil => rfl
      | cons first rest =>
          simp only [chunksFrom, List.flatten_cons]
          rw [ih (by simp at enough ⊢; omega), List.take_append_drop]

theorem flatten_chunks {n : Nat} (pos : 0 < n) (l : List α) : (chunks n l).flatten = l :=
  flatten_chunksFrom pos le_rfl

/-- A piece is neither empty nor longer than `n`. -/
theorem mem_chunksFrom {n : Nat} (pos : 0 < n) {fuel : Nat} {l piece : List α}
    (h : piece ∈ chunksFrom n fuel l)
    : piece ≠ [] ∧ piece.length ≤ n := by
  induction fuel generalizing l with
  | zero => cases h
  | succ fuel ih =>
      cases l with
      | nil => cases h
      | cons first rest =>
          rcases List.mem_cons.mp h with rfl | later
          · refine ⟨?_, by simp [List.length_take]⟩
            cases n with
            | zero => cases pos
            | succ n => simp
          · exact ih later

theorem mem_chunks {n : Nat} (pos : 0 < n) {l piece : List α} (h : piece ∈ chunks n l)
    : piece ≠ [] ∧ piece.length ≤ n :=
  mem_chunksFrom pos h

/-- A list has as many pieces as its length divided by `n`, rounded up. -/
theorem length_chunksFrom {n : Nat} (pos : 0 < n) {fuel : Nat} {l : List α}
    (enough : l.length ≤ fuel)
    : (chunksFrom n fuel l).length = divCeil l.length n := by
  induction fuel generalizing l with
  | zero =>
      obtain rfl := List.eq_nil_of_length_eq_zero (Nat.le_zero.mp enough)
      exact (Nat.div_eq_of_lt (by simp; omega)).symm
  | succ fuel ih =>
      cases l with
      | nil => exact (Nat.div_eq_of_lt (by simp; omega)).symm
      | cons first rest =>
          simp only [chunksFrom, List.length_cons] at enough ⊢
          rw [ih (by simp; omega), List.length_drop, List.length_cons]
          unfold divCeil
          by_cases last : rest.length + 1 ≤ n
          · rw [Nat.sub_eq_zero_of_le last, Nat.div_eq_of_lt (show 0 + n - 1 < n by omega),
              Nat.div_eq_of_lt_le (show 1 * n ≤ rest.length + 1 + n - 1 by omega)
                (show rest.length + 1 + n - 1 < (1 + 1) * n by omega)]
          · rw [show rest.length + 1 + n - 1 = rest.length + 1 - n + n - 1 + n by omega,
              Nat.add_div_right _ pos]

theorem length_chunks {n : Nat} (pos : 0 < n) (l : List α)
    : (chunks n l).length = divCeil l.length n :=
  length_chunksFrom pos le_rfl

/-- Cutting up a list and mapping its elements do so in either order. -/
theorem chunksFrom_map {β : Type} (f : α → β) (n fuel : Nat) (l : List α)
    : chunksFrom n fuel (l.map f) = (chunksFrom n fuel l).map (List.map f) := by
  induction fuel generalizing l with
  | zero => rfl
  | succ fuel ih =>
      cases l with
      | nil => rfl
      | cons first rest =>
          simp only [chunksFrom, List.map_cons, List.map_take, ← ih, List.map_drop]

theorem chunks_map {β : Type} (f : α → β) (n : Nat) (l : List α)
    : chunks n (l.map f) = (chunks n l).map (List.map f) := by
  rw [chunks, chunks, List.length_map, chunksFrom_map]

end Chunks
