import Ferrosys.Apfs.Container
import Ferrosys.Cache.Recency

/-! What a container's reads answer through the objects it holds. -/

namespace Ferrosys.Apfs.Container

open Recency Checked

variable {self : Container}

/-- What a container of `capacity` objects holds after the reads of a run. -/
def heldAfter (self : Container) (capacity : Nat) (reads : List (Nat × Expect))
    : BlockCache Bytes :=
  reads.foldl (fun cache read => (self.fetchObject cache read.1 read.2).2) (.new capacity)

/-- What is expected of an object bears on why it cannot be read, not on what is. -/
theorem readVerified_ok_iff {address : Nat} {kinds kinds' : List Nat} {object : Bytes}
    : self.readVerified address kinds = .ok object
      ↔ self.readVerified address kinds' = .ok object := by
  simp only [readVerified, bind_eq_ok, refuseIf_eq_ok]

/-- A read is an access to the verified objects, held against what is expected. -/
theorem fetchObject_eq (cache : BlockCache Bytes) (address : Nat) (expect : Expect)
    : self.fetchObject cache address expect
      = ((cache.access (self.readVerified · expect.kinds) address).1
          >>= checkObject address expect,
        (cache.access (self.readVerified · expect.kinds) address).2) := by
  unfold fetchObject BlockCache.access
  rcases cache.get address with ⟨_ | object, held⟩
  · dsimp only
    cases self.readVerified address expect.kinds <;> rfl
  · rfl

/-- What is expected of the objects read bears on none of those held. -/
theorem heldAfter_eq (capacity : Nat) (reads : List (Nat × Expect))
    : self.heldAfter capacity reads
      = .after (self.readVerified · []) capacity (reads.map Prod.fst) := by
  rw [heldAfter, BlockCache.after, List.foldl_map]
  refine congrArg (List.foldl · _ reads) (funext fun cache => funext fun read => ?_)
  rw [fetchObject_eq]
  exact cache.access_congr fun _ => readVerified_ok_iff

/-- A container's reads, in any number and order and whichever of them fail, answer as they would
if it held nothing, and it holds the objects read last.
-/
theorem fetchObject_heldAfter (capacity : Nat) (reads : List (Nat × Expect)) (address : Nat)
    (expect : Expect)
    : (self.fetchObject (self.heldAfter capacity reads) address expect).1
        = self.readObject address expect
      ∧ (((self.heldAfter capacity reads).get address).1.isSome
        ↔ address ∈ (recent ((reads.map Prod.fst).filter
          (BlockCache.readable (self.readVerified · [])))).take capacity) := by
  rw [heldAfter_eq]
  refine ⟨?_, BlockCache.held_iff _ capacity _ address⟩
  obtain ⟨-, slots, keeps⟩ :=
    BlockCache.keeps_after (self.readVerified · []) capacity (reads.map Prod.fst)
  have keeps : BlockCache.Keeps (self.readVerified · expect.kinds) _ _ slots :=
    ⟨keeps.distinct, keeps.ranked, keeps.latest,
      fun slot held => readVerified_ok_iff.mp (keeps.read_ slot held)⟩
  rw [fetchObject_eq, (keeps.access address).1]
  rfl

end Ferrosys.Apfs.Container
