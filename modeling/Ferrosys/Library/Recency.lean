import Mathlib.Data.List.Nodup

/-! Keys in the order of their last use. -/

namespace Recency

variable {κ : Type} [DecidableEq κ] {keys : List κ} {key : κ}

/-- A key is used, and stands in front of the others. -/
def touch (keys : List κ) (key : κ) : List κ := key :: keys.erase key

/-- The keys of a trace, the one used last in front. -/
def recent (trace : List κ) : List κ := trace.foldl touch []

theorem nodup_touch (distinct : keys.Nodup) : (touch keys key).Nodup :=
  List.nodup_cons.mpr ⟨distinct.not_mem_erase, distinct.erase key⟩

theorem take_erase_of_mem {n : Nat} (member : key ∈ keys.take (n + 1))
    : (keys.erase key).take n = (keys.take (n + 1)).erase key := by
  induction keys generalizing n with
  | nil => cases member
  | cons first rest ih =>
      by_cases same : first = key
      · rw [same, List.take_succ_cons, List.erase_cons_head, List.erase_cons_head]
      · rw [List.take_succ_cons] at member ⊢
        rw [List.erase_cons_tail (by simpa using same), List.erase_cons_tail (by simpa using same)]
        have later := (List.mem_cons.mp member).resolve_left (Ne.symm same)
        cases n with
        | zero => cases later
        | succ n => rw [List.take_succ_cons, ih later]

theorem take_erase_of_not_mem {n : Nat} (absent : key ∉ keys.take n)
    : (keys.erase key).take n = keys.take n := by
  induction keys generalizing n with
  | nil => rfl
  | cons first rest ih =>
      cases n with
      | zero => rfl
      | succ n =>
          rw [List.take_succ_cons, List.mem_cons, not_or] at absent
          rw [List.erase_cons_tail (by simpa using Ne.symm absent.1), List.take_succ_cons,
            List.take_succ_cons, ih absent.2]

end Recency
