import Ferrosys.Ext.Geometry.Auto
import Ferrosys.Ext.Geometry.Packing
import Ferrosys.Sizing

/-! Which way a planning refusal points, for the search that sizes a filesystem to what goes in it:
the refusals a larger filesystem meets again, and the two that it may not.
-/

namespace Ferrosys.Ext

open Arith Checked

/-- Which way a planning refusal points. -/
def classify (e : GeometryError) : Sizing.Probe Layout GeometryError :=
  match e with
  | .tooManyGroups .. | .tooManyInodes .. | .descriptorsExceedGroup .. | .blockCountNeeds64Bit ..
  | .blockCountTooLarge .. | .reservationNeeds32BitBlocks .. | .growTargetTooSmall .. => .exhausted e
  | .feature _ => .impossible e
  | _ => .tooSmall e

/-- The request for a filesystem of `blocks` blocks. -/
def PlanRequest.ofBlocks (request : PlanRequest) (blocks : Nat) : PlanRequest :=
  { request with sizeBytes := blocks * request.feature.blockSize }

-----------------------------------------------------------------------------------------
-- What a refusal says of the sizes refused
-----------------------------------------------------------------------------------------

/-- What a pass refuses for: its groups, its reservation, its descriptors or its inodes. -/
theorem sizingPass_error {request : PlanRequest} {blocks : Nat} {e : GeometryError}
    (refused : sizingPass request blocks = .error e)
    : (∃ groups, e = .tooManyGroups blocks groups (2 ^ 32 - 1)) ∧ 2 ^ 32 - 1 < request.groupsFor blocks
      ∨ request.checkReserved blocks (request.reservedAt blocks) = .error e
      ∨ (∃ groups overhead limit, e = .descriptorsExceedGroup blocks groups overhead limit)
        ∧ 2 ≤ request.groupsFor blocks
        ∧ request.blocksPerGroup < 1 + request.gdtAt blocks + request.reservedAt blocks
      ∨ ∃ share cap, e = .inodesTooDense share cap := by
  simp only [sizingPass, bind_eq_error, refuseIf_eq_error] at refused
  rcases refused with
    ⟨many, rfl⟩ | ⟨_, -, reserve | ⟨_, -, ⟨long, rfl⟩ | ⟨_, -, ⟨-, rfl⟩ | ⟨_, -, settled⟩⟩⟩⟩
  · exact .inl ⟨⟨_, rfl⟩, by simpa using many⟩
  · exact .inr (.inl reserve)
  · rw [Bool.and_eq_true, decide_eq_true_eq, decide_eq_true_eq] at long
    exact .inr (.inr (.inl ⟨⟨_, _, _, rfl⟩, long⟩))
  · exact .inr (.inr (.inr ⟨_, _, rfl⟩))
  · split at settled <;> cases settled

/-- A loop that refuses does so at the size asked for or at what it keeps. -/
theorem sizingLoop_error {request : PlanRequest} {fuel blocks : Nat} {enough : blocks < fuel}
    {e : GeometryError} (refused : sizingLoop request fuel blocks enough = .error e)
    : ∃ size ≤ blocks, sizingPass request size = .error e := by
  induction fuel generalizing blocks with
  | zero => exact absurd enough (Nat.not_lt_zero _)
  | succ fuel ih =>
      rw [sizingLoop] at refused
      cases passed : sizingPass request blocks with
      | error error =>
          rw [passed] at refused
          obtain rfl := Except.error.inj refused
          exact ⟨blocks, le_rfl, passed⟩
      | ok next =>
          rw [passed] at refused
          cases next with
          | done sizing => cases refused
          | again kept smaller =>
              obtain ⟨size, within, refused⟩ := ih refused
              exact ⟨size, within.trans smaller.le, refused⟩

/-- What the planner refuses for. -/
theorem planLayout_error {request : PlanRequest} {e : GeometryError}
    (refused : planLayout request = .error e)
    : (∃ cause, e = .feature cause)
      ∨ (request.feature.validate = .ok ()
          ∧ (checkSize request = .error e
            ∨ (∃ size ≤ request.totalBlocks, sizingPass request size = .error e)
            ∨ ((∃ blocks inodes limit, e = .tooManyInodes blocks inodes limit)
                ∧ 2 ^ 32 - 1 < request.inodesAt (request.keeps request.totalBlocks))
            ∨ (∃ blocks overhead reserved, e = .tooSmall blocks overhead reserved)
            ∨ ∃ blocks overhead, e = .finalGroupTooSmall blocks overhead)) := by
  simp only [planLayout, bind_eq_error, mapError_eq_error, mapError_eq_ok, refuseIf_eq_error] at refused
  rcases refused with ⟨cause, -, rfl⟩ | ⟨⟨⟩, valid, refused⟩
  · exact .inl ⟨cause, rfl⟩
  refine .inr ⟨valid, ?_⟩
  rcases refused with size | ⟨_, -, loop | ⟨sizing, sized, refused⟩⟩
  · exact .inl size
  · exact .inr (.inl (sizingLoop_error loop))
  rcases refused with ⟨many, rfl⟩ | ⟨_, -, ⟨-, rfl⟩ | ⟨_, -, ⟨-, rfl⟩ | ⟨_, -, made⟩⟩⟩
  · obtain ⟨-, -, rfl⟩ := sizingLoop_ok_iff.mp sized
    exact .inr (.inr (.inl ⟨⟨_, _, _, rfl⟩, of_decide_eq_true many⟩))
  · exact .inr (.inr (.inr (.inl ⟨_, _, _, rfl⟩)))
  · exact .inr (.inr (.inr (.inr ⟨_, _, rfl⟩)))
  · cases made

-----------------------------------------------------------------------------------------
-- What grows with the size
-----------------------------------------------------------------------------------------

namespace PlanRequest

variable {request : PlanRequest}

theorem totalBlocks_ofBlocks (sized : request.feature.Sized) (blocks : Nat)
    : (request.ofBlocks blocks).totalBlocks = blocks :=
  Nat.mul_div_cancel _ sized.blockSize_pos

/-- The bounds a size is checked against. -/
theorem checkSize_ok_iff {request : PlanRequest}
    : checkSize request = .ok ()
      ↔ (∀ bytes, request.grow = .upTo bytes →
            request.totalBlocks ≤ bytes / request.feature.blockSize)
        ∧ (request.feature.is64bit = true ∨ request.totalBlocks ≤ max32BitBlocks)
        ∧ request.totalBlocks ≤ maxExtentBlocks := by
  unfold checkSize
  cases grow : request.grow <;>
    simp only [bind_unit_eq_ok, refuseIf_eq_ok, decide_eq_false_iff_not, not_lt, Bool.and_eq_false_iff,
      Bool.not_eq_false', reduceCtorEq, false_implies, implies_true, true_and,
      GrowReservation.upTo.injEq, forall_eq']

/-- A size within every bound is within them with fewer blocks. -/
theorem checkSize_mono (sized : request.feature.Sized) {blocks larger : Nat} (fewer : blocks ≤ larger)
    (size : checkSize (request.ofBlocks larger) = .ok ())
    : checkSize (request.ofBlocks blocks) = .ok () := by
  rw [checkSize_ok_iff, totalBlocks_ofBlocks sized] at size ⊢
  obtain ⟨target, wide, most⟩ := size
  exact ⟨fun bytes grow => fewer.trans (target bytes grow), wide.imp_right fewer.trans,
    fewer.trans most⟩

/-- A size whose descriptors fit a group is followed down by sizes whose descriptors do. -/
theorem descriptors_mono (sized : request.feature.Sized) {blocks larger size : Nat}
    (fewer : size ≤ larger)
    (fits : 1 + request.gdtAt larger + (request.ofBlocks larger).reservedAt larger
      ≤ request.blocksPerGroup)
    : 1 + request.gdtAt size + (request.ofBlocks blocks).reservedAt size
      ≤ request.blocksPerGroup := by
  have table := gdtAt_mono sized fewer
  cases grow : request.grow with
  | none =>
      have none_ : (request.ofBlocks blocks).reservedAt size = 0 := by
        simp only [reservedAt, reservedWanted, ofBlocks, grow]
      omega
  | upTo bytes =>
      have here : (request.ofBlocks blocks).reservedAt size
          = request.upToGdt bytes - request.gdtAt size := by
        simp only [reservedAt, reservedWanted, ofBlocks, grow]
        rfl
      have there : (request.ofBlocks larger).reservedAt larger
          = request.upToGdt bytes - request.gdtAt larger := by
        simp only [reservedAt, reservedWanted, ofBlocks, grow]
        rfl
      omega
  | max =>
      have same : (request.ofBlocks blocks).growMax = request.ofBlocks blocks := by
        rw [growMax, ofBlocks, ← grow]
      have share := (growMax_reservedAt_le (request.ofBlocks blocks) size).2
      rw [same] at share
      change (request.ofBlocks blocks).reservedAt size
        ≤ request.blocksPerGroup - (1 + request.gdtAt size) at share
      omega

/-- More reserved blocks are no less metadata in the final group. -/
theorem requiredInLast_mono (request : PlanRequest) {groups gdt reserved reserved' itb : Nat}
    (fewer : reserved ≤ reserved')
    : request.requiredInLast groups gdt reserved itb
      ≤ request.requiredInLast groups gdt reserved' itb := by
  unfold requiredInLast
  refine Nat.add_le_add_right ?_ _
  split <;> omega

/-- Past 32-bit blocks no larger size reserves more, of the same table. -/
theorem reservedAt_le_of_past {blocks larger : Nat} (sized : request.feature.Sized)
    (past : max32BitBlocks < larger) (same : request.gdtAt blocks = request.gdtAt larger)
    : (request.ofBlocks larger).reservedAt larger ≤ (request.ofBlocks blocks).reservedAt blocks := by
  cases grow : request.grow with
  | none => simp only [reservedAt, reservedWanted, ofBlocks, grow, le_refl]
  | upTo bytes =>
      simp only [reservedAt, reservedWanted, ofBlocks, grow]
      change request.upToGdt bytes - request.gdtAt larger
        ≤ request.upToGdt bytes - request.gdtAt blocks
      rw [same]
  | max =>
      have never : (request.ofBlocks larger).canReserve = false := by
        rw [canReserve, reservationRepresentable, totalBlocks_ofBlocks sized, Bool.and_eq_false_iff]
        exact .inr (decide_eq_false (not_le.mpr past))
      have nothing : (request.ofBlocks larger).reservedAt larger = 0 := by
        have max_ : (request.ofBlocks larger).grow = .max := grow
        rw [reservedAt, reservedWanted, max_]
        simp only [never, Bool.not_false, if_true]
      rw [nothing]
      exact Nat.zero_le _

/-- Under the size-driven ratio a size of more inodes than 32 bits count keeps no more than a larger
one does: where a larger one drops its final group, so does the smaller one in the same group.
-/
theorem keeps_mono_of_auto (sized : request.feature.Sized) (auto : request.inodes = .auto)
    {blocks larger : Nat} (fewer : blocks < larger)
    (many : 2 ^ 32 - 1 < request.inodesAt ((request.ofBlocks blocks).keeps blocks))
    : (request.ofBlocks blocks).keeps blocks ≤ (request.ofBlocks larger).keeps larger := by
  have kept := (request.ofBlocks blocks).keeps_le blocks
  have large := large_of_inodesAt sized auto many
  have largeBlocks : 2 ^ 44 ≤ blocks * request.feature.blockSize :=
    large.trans (Nat.mul_le_mul_right _ kept)
  have first := firstDataBlock_le request
  have room : request.firstDataBlock < blocks := by
    rcases sized.block with block | block | block <;> rw [block] at largeBlocks <;> omega
  have roomLarger : request.firstDataBlock < larger := room.trans fewer
  by_cases drop : (request.ofBlocks larger).Drops larger
  · have after : (request.ofBlocks larger).keeps larger
        = request.firstDataBlock + (request.groupsFor larger - 1) * request.blocksPerGroup :=
      @keeps_of_drops (request.ofBlocks larger) sized larger roomLarger drop
    obtain ⟨low, high⟩ := groupsFor_bounds sized room
    obtain ⟨lowLarger, highLarger⟩ := groupsFor_bounds sized roomLarger
    rw [after]
    rcases lt_or_eq_of_le (groupsFor_mono sized fewer.le) with below | same
    · have step : request.groupsFor blocks * request.blocksPerGroup
          ≤ (request.groupsFor larger - 1) * request.blocksPerGroup :=
        Nat.mul_le_mul_right _ (by omega)
      omega
    · -- the smaller size has fewer blocks in the same final group, and the same metadata to hold
      have past : max32BitBlocks < larger := by
        have groups := groupsFor_mono sized kept
        rw [inodesAt, inodesPerGroupFor_of_large sized auto large, perGroup] at many
        rw [blocksPerGroup] at low
        unfold max32BitBlocks
        rcases sized.block with block | block | block <;> rw [block] at many low <;> omega
      have some_ := Planned.groupsFor_pos request blocks
      have table : request.gdtAt blocks = request.gdtAt larger := by
        rw [gdtAt, gdtAt, same]
      have itb : request.inodeTableAt blocks = request.inodeTableAt larger := by
        rw [inodeTableAt, inodeTableAt, inodesPerGroupFor_of_large sized auto largeBlocks,
          inodesPerGroupFor_of_large sized auto
            (largeBlocks.trans (Nat.mul_le_mul_right _ fewer.le))]
      have ends : request.groupsFor blocks - 1 + 1 = request.groupsFor blocks := by omega
      have remainder := request.remainderAt_eq low.le (by rw [ends, same]; omega)
      rw [same] at remainder low
      have whole : larger ≠ request.firstDataBlock
          + request.groupsFor larger * request.blocksPerGroup := by
        intro exact_
        refine drop.2.1 ?_
        change (larger - request.firstDataBlock) % request.blocksPerGroup = 0
        rw [exact_, Nat.add_sub_cancel_left]
        exact Nat.mul_mod_left _ _
      have remainderLarger := request.remainderAt_eq lowLarger.le (by
        rw [Nat.sub_add_cancel (Planned.groupsFor_pos request larger)]
        omega)
      have less := @requiredInLast_mono request (request.groupsFor larger) (request.gdtAt larger) _ _
        (request.inodeTableAt larger) (reservedAt_le_of_past sized past table)
      have unfit : request.remainderAt larger
          < request.requiredInLast (request.groupsFor larger) (request.gdtAt larger)
            ((request.ofBlocks larger).reservedAt larger) (request.inodeTableAt larger) + 1 :=
        drop.2.2
      have drops : (request.ofBlocks blocks).Drops blocks := by
        refine ⟨?_, ?_, ?_⟩
        · exact le_of_le_of_eq drop.1 same.symm
        · change request.remainderAt blocks ≠ 0
          omega
        · change request.remainderAt blocks
            < request.requiredInLast (request.groupsFor blocks) (request.gdtAt blocks)
              ((request.ofBlocks blocks).reservedAt blocks) (request.inodeTableAt blocks) + 1
          rw [same, table, itb]
          omega
      have before : (request.ofBlocks blocks).keeps blocks
          = request.firstDataBlock + (request.groupsFor blocks - 1) * request.blocksPerGroup :=
        @keeps_of_drops (request.ofBlocks blocks) sized blocks room drops
      rw [before, same]
  · have after : (request.ofBlocks larger).keeps larger = larger := if_neg drop
    rw [after]
    exact kept.trans fewer.le

/-- Under the size-driven ratio a total past 32 bits stays past them. -/
theorem inodesAt_mono_of_auto (sized : request.feature.Sized) (auto : request.inodes = .auto)
    {blocks larger : Nat} (fewer : blocks < larger)
    (many : 2 ^ 32 - 1 < request.inodesAt ((request.ofBlocks blocks).keeps blocks))
    : 2 ^ 32 - 1 < request.inodesAt ((request.ofBlocks larger).keeps larger) := by
  have more := keeps_mono_of_auto sized auto fewer many
  have large := large_of_inodesAt sized auto many
  have groups := groupsFor_mono sized more
  rw [inodesAt, inodesPerGroupFor_of_large sized auto large] at many
  rw [inodesAt, inodesPerGroupFor_of_large sized auto (large.trans (Nat.mul_le_mul_right _ more))]
  exact many.trans_le (Nat.mul_le_mul_left _ groups)

end PlanRequest

-----------------------------------------------------------------------------------------
-- Which refusals a larger filesystem meets again
-----------------------------------------------------------------------------------------

/-- Everything the planner checks, but the inode total. -/
structure PlanRequest.PlansBarInodes (request : PlanRequest) : Prop where
  valid : request.feature.validate = .ok ()
  size : checkSize request = .ok ()
  admits : request.Admits request.totalBlocks
  admitsKept : request.Admits (request.keeps request.totalBlocks)
  group0
    : request.group0At (request.keeps request.totalBlocks) ≤ request.keeps request.totalBlocks
  last
    : request.lastOverheadAt (request.keeps request.totalBlocks) + 1
      ≤ request.lastBlocksAt (request.keeps request.totalBlocks)
  packed
    : request.packedEndAt (request.keeps request.totalBlocks) ≤ request.keeps request.totalBlocks

/-- What a pass checks of a size, but what it reserves. -/
structure PlanRequest.AdmitsBarReservation (request : PlanRequest) (blocks : Nat) : Prop where
  groups : request.groupsFor blocks ≤ 2 ^ 32 - 1
  descriptors
    : 2 ≤ request.groupsFor blocks
      → 1 + request.gdtAt blocks + request.reservedAt blocks ≤ request.blocksPerGroup
  inodes : request.inodeShare blocks (request.groupsFor blocks) ≤ request.inodeCap

/-- Everything the planner checks, but what is reserved. -/
structure PlanRequest.PlansBarReservation (request : PlanRequest) : Prop where
  valid : request.feature.validate = .ok ()
  size : checkSize request = .ok ()
  admits : request.AdmitsBarReservation request.totalBlocks
  admitsKept : request.AdmitsBarReservation (request.keeps request.totalBlocks)
  holds : request.Holds (request.keeps request.totalBlocks)

/-- A refusal a larger filesystem meets again. A total of inodes past 32 bits does under the
size-driven ratio, and under an explicit one where every larger size that passes the other checks has
such a total; a reservation 32 bits do not name does where every larger size that passes the other
checks still reserves. Every other refusal does of itself.
-/
def PlanRequest.Closed (request : PlanRequest) (blocks : Nat) : GeometryError → Prop
  | .tooManyInodes .. =>
      request.inodes = .auto
        ∨ ∀ larger, blocks < larger → (request.ofBlocks larger).PlansBarInodes →
            2 ^ 32 - 1 < request.inodesAt ((request.ofBlocks larger).keeps larger)
  | .reservationNeeds32BitBlocks .. =>
      ∀ larger, blocks < larger → (request.ofBlocks larger).PlansBarReservation →
        0 < (request.ofBlocks larger).reservedAt larger
          ∨ 0 < (request.ofBlocks larger).reservedAt ((request.ofBlocks larger).keeps larger)
  | _ => True

/-- A reservation past 32 bits is refused of an explicit target alone, whatever is reserved. -/
theorem checkReserved_eq_error_iff {request : PlanRequest} {blocks want : Nat} {e : GeometryError}
    (refused : request.checkReserved blocks want = .error e)
    : (∃ bytes, request.grow = .upTo bytes) ∧ 0 < want
      ∧ (e = .growTargetNeedsResizeInode
        ∨ (e = .reservationNeeds32BitBlocks blocks max32BitBlocks
            ∧ max32BitBlocks < request.totalBlocks)
        ∨ e = .growTargetTooLarge want request.reservedLimit) := by
  cases grow : request.grow with
  | none =>
      rw [PlanRequest.checkReserved, grow] at refused
      cases refused
  | max =>
      rw [PlanRequest.checkReserved, grow] at refused
      cases refused
  | upTo bytes =>
      simp only [PlanRequest.checkReserved, grow, bind_eq_error, refuseIf_eq_error, Bool.and_eq_true,
        decide_eq_true_eq, Bool.not_eq_true'] at refused
      rcases refused with ⟨⟨some_, -⟩, rfl⟩ | ⟨_, -, ⟨⟨some_, past⟩, rfl⟩ | ⟨_, -, large, rfl⟩⟩
      · exact ⟨⟨bytes, rfl⟩, some_, .inl rfl⟩
      · refine ⟨⟨bytes, rfl⟩, some_, .inr (.inl ⟨rfl, ?_⟩)⟩
        rw [PlanRequest.reservationRepresentable, decide_eq_false_iff_not, not_le] at past
        exact past
      · exact ⟨⟨bytes, rfl⟩, by omega, .inr (.inr rfl)⟩

/-- Past 32-bit blocks an explicit target is admitted only where it reserves nothing. -/
theorem reservedAt_eq_zero_of_admits {request : PlanRequest} {blocks bytes : Nat}
    (grow : request.grow = .upTo bytes) (past : max32BitBlocks < request.totalBlocks)
    (admits : request.Admits blocks) : request.reservedAt blocks = 0 := by
  have checked := admits.reserved
  simp only [PlanRequest.checkReserved, grow, bind_unit_eq_ok, refuseIf_eq_ok] at checked
  by_contra some_
  simp [Nat.pos_of_ne_zero some_, PlanRequest.reservationRepresentable, not_le.mpr past] at checked

/-- What reserves nothing is admitted where the other checks pass. -/
theorem PlanRequest.AdmitsBarReservation.admits {request : PlanRequest} {blocks : Nat}
    (bar : request.AdmitsBarReservation blocks) (nothing : request.reservedAt blocks = 0)
    : request.Admits blocks := by
  refine ⟨bar.groups, ?_, bar.descriptors, bar.inodes⟩
  rw [nothing]
  cases grow : request.grow <;>
    simp [PlanRequest.checkReserved, grow, refuseIf, bind, Except.bind]

/-- A filesystem to grow to thirty-two tebibytes, of few inodes. -/
def distantRequest : PlanRequest where
  sizeBytes := 0
  feature := .default
  grow := .upTo (2 ^ 33 * 4096)
  inodes := .count 16
  reserved := ReservedRatio.default

/-- A filesystem as large as its target reserves nothing, and plans. -/
theorem distantRequest_plans : (distantRequest.ofBlocks (2 ^ 33)).Plans := by
  have valid : FeatureSet.default.validate = .ok () := by decide
  have sized : (distantRequest.ofBlocks (2 ^ 33)).feature.Sized := FeatureSet.validate_sized valid
  have total : (distantRequest.ofBlocks (2 ^ 33)).totalBlocks = 2 ^ 33 := by decide +kernel
  have kept : (distantRequest.ofBlocks (2 ^ 33)).keeps (2 ^ 33) = 2 ^ 33 := by decide +kernel
  have admits : (distantRequest.ofBlocks (2 ^ 33)).Admits (2 ^ 33) := by
    refine ⟨?_, ?_, ?_, ?_⟩ <;> decide +kernel
  refine ⟨valid, by decide +kernel, by rwa [total], by rwa [total, kept], ?_⟩
  rw [total, kept]
  refine ⟨by decide +kernel, by decide +kernel, by decide +kernel, ?_⟩
  refine PlanRequest.packedEndAt_le sized (by decide +kernel) (by decide) (fun _ => by decide +kernel)
    fun head below heads => ?_
  have groups : (distantRequest.ofBlocks (2 ^ 33)).groupsFor (2 ^ 33) = 2 ^ 18 := by decide +kernel
  have itb : (distantRequest.ofBlocks (2 ^ 33)).inodeTableAt (2 ^ 33) = 1 := by decide +kernel
  have copy : (distantRequest.ofBlocks (2 ^ 33)).copyLenAt (2 ^ 33) = 4097 := by decide +kernel
  rw [PlanRequest.unplacedAt_superOverheadLen below, copy]
  rw [groups] at below
  have span : ((distantRequest.ofBlocks (2 ^ 33)).unplacedAt (2 ^ 33)).flexMetaSpan head ≤ 48 := by
    change 2 * (if min ((distantRequest.ofBlocks (2 ^ 33)).groupsFor (2 ^ 33) - head) 16 = 1 then 16
        else min ((distantRequest.ofBlocks (2 ^ 33)).groupsFor (2 ^ 33) - head) 16)
      + min ((distantRequest.ofBlocks (2 ^ 33)).groupsFor (2 ^ 33) - head) 16
        * (distantRequest.ofBlocks (2 ^ 33)).inodeTableAt (2 ^ 33) ≤ 48
    rw [itb]
    split <;> omega
  change _ ≤ min (0 + head * 32768 + 32768) (2 ^ 33) - (0 + head * 32768)
  split <;> omega

/-- An explicit count rounds to a total past 32 bits at one size, and below it at a larger one. -/
example : 2 ^ 32 - 1 < ({ distantRequest with inodes := .count (2 ^ 32 - 2 ^ 20) }).inodesAt
      (131073 * 32768)
    ∧ ({ distantRequest with inodes := .count (2 ^ 32 - 2 ^ 20) }).inodesAt (131112 * 32768)
      ≤ 2 ^ 32 - 1 := by
  decide +kernel

end Ferrosys.Ext
