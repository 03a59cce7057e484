import Ferrosys.Ext.Geometry.Soundness

/-! How far a planned filesystem may grow: the descriptor table it carries and reserves
describes every size up to the one it reports, and the exact condition under which the
resize inode's 32-bit map can name every block of them.
-/

namespace Ferrosys.Ext

open Arith Checked

namespace Layout

variable (self : Layout)

/-- Groups a filesystem of `blocks` blocks has in this layout's geometry. -/
def groupsOf (blocks : Nat) : Nat :=
  max (divCeil (blocks - self.firstDataBlock) self.blocksPerGroup) 1

/-- Descriptor-table blocks a filesystem of `blocks` blocks needs in this geometry. -/
def descriptorBlocksOf (blocks : Nat) : Nat :=
  gdtBlocksFor (self.groupsOf blocks) self.feature.descSize self.blockSize

end Layout

/-- The table a layout carries and reserves describes every size it may grow to, and where
it reserves anything, the resize inode holds the reservation and names every block.
-/
structure Layout.GrowSafe (layout : Layout) : Prop where
  described
    : ∀ blocks, layout.totalBlocks ≤ blocks → blocks ≤ layout.maxGrowBlocks
      → layout.descriptorBlocksOf blocks ≤ layout.gdtBlocks + layout.reservedGdtBlocks
  reservable : 0 < layout.reservedGdtBlocks → layout.reservedGdtBlocks ≤ layout.blockSize / 4
  addressable : 0 < layout.reservedGdtBlocks → layout.maxGrowBlocks ≤ max32BitBlocks

/-- No grow target past the last 32-bit block makes the plan reserve descriptor blocks. -/
def PlanRequest.TargetAddressable (request : PlanRequest) : Prop :=
  match request.grow with
  | .none | .max => True
  | .upTo bytes =>
      bytes / request.feature.blockSize ≤ max32BitBlocks
        ∨ request.upToGdt bytes ≤ request.gdtAt request.keptBlocks

namespace PlanRequest

variable {request : PlanRequest}

/-- A block holds at least one descriptor under every valid feature set. -/
theorem descriptorsPerBlock_pos (sized : request.feature.Sized)
    : 0 < request.feature.blockSize / request.feature.descSize := by
  rcases sized.block with size | size | size <;>
    rcases request.feature.descSize_cases with desc | desc <;> rw [size, desc] <;> decide

theorem gdtFor_mono (sized : request.feature.Sized) {groups groups' : Nat}
    (fewer : groups ≤ groups')
    : request.gdtFor groups ≤ request.gdtFor groups' :=
  divCeil_mono (descriptorsPerBlock_pos sized) fewer

/-- A table of `gdt` blocks describes exactly as many groups as it has descriptors. -/
theorem gdtFor_le_iff (sized : request.feature.Sized) {groups gdt : Nat}
    : request.gdtFor groups ≤ gdt
      ↔ groups ≤ gdt * (request.feature.blockSize / request.feature.descSize) :=
  divCeil_le_iff (descriptorsPerBlock_pos sized)

/-- Past the first data block there is at least one group's worth of blocks. -/
theorem groupsFor_eq_divCeil (sized : request.feature.Sized) {blocks : Nat}
    (room : request.firstDataBlock < blocks)
    : request.groupsFor blocks
      = divCeil (blocks - request.firstDataBlock) request.blocksPerGroup := by
  have one := (lt_divCeil_iff (a := blocks - request.firstDataBlock) (n := 0)
    (blocksPerGroup_pos sized)).mpr (by omega)
  exact Nat.max_eq_left one

/-- A target's descriptor table describes every size up to the target. -/
theorem gdtAt_le_upToGdt (sized : request.feature.Sized) {blocks bytes : Nat}
    (room : request.firstDataBlock < blocks)
    (below : blocks ≤ bytes / request.feature.blockSize)
    : request.gdtAt blocks ≤ request.upToGdt bytes := by
  rw [gdtAt, groupsFor_eq_divCeil sized room]
  exact gdtFor_mono sized
    (divCeil_mono (blocksPerGroup_pos sized) (Nat.sub_le_sub_right below _))

/-- A table's descriptors reach as many whole groups past the first data block. -/
theorem gdtAt_le_of_describable (sized : request.feature.Sized) {blocks gdt : Nat}
    (room : request.firstDataBlock < blocks)
    (reach : blocks ≤ gdt * (request.feature.blockSize / request.feature.descSize)
        * request.blocksPerGroup + request.firstDataBlock)
    : request.gdtAt blocks ≤ gdt := by
  rw [gdtAt, gdtFor_le_iff sized, groupsFor_eq_divCeil sized room,
    divCeil_le_iff (blocksPerGroup_pos sized)]
  omega

end PlanRequest

namespace Planned

variable {request : PlanRequest} {layout : Layout}

theorem layout_gdtBlocks (plan : Planned request layout)
    : layout.gdtBlocks = request.gdtAt request.keptBlocks := by
  rw [plan.layout_eq_placed]
  rfl

theorem layout_reservedGdtBlocks (plan : Planned request layout)
    : layout.reservedGdtBlocks = request.reservedAt request.keptBlocks := by
  rw [plan.layout_eq_placed]
  rfl

theorem layout_maxGrowBlocks (plan : Planned request layout)
    : layout.maxGrowBlocks = maxGrowBlocks request (request.sizingAt request.keptBlocks) := by
  rw [plan.layout_eq_placed]
  rfl

theorem layout_blockSize (plan : Planned request layout)
    : layout.blockSize = request.feature.blockSize := by
  rw [plan.layout_eq_placed]
  rfl

/-- The layout's geometry is the request's. -/
theorem descriptorBlocksOf_eq (plan : Planned request layout) (blocks : Nat)
    : layout.descriptorBlocksOf blocks = request.gdtAt blocks := by
  rw [plan.layout_eq_placed]
  rfl

/-- The kept size is no larger than the requested one. -/
theorem keptBlocks_le (request : PlanRequest) : request.keptBlocks ≤ request.totalBlocks := by
  unfold PlanRequest.keptBlocks
  split
  · exact Nat.sub_le _ _
  · exact le_rfl

/-- The live and reserved table describe every size up to the reported one, by which
reservation was asked for.
-/
theorem described (plan : Planned request layout) {blocks : Nat}
    (least : request.keptBlocks ≤ blocks)
    (most : blocks ≤ maxGrowBlocks request (request.sizingAt request.keptBlocks))
    : request.gdtAt blocks
      ≤ request.gdtAt request.keptBlocks + request.reservedAt request.keptBlocks := by
  have room : request.firstDataBlock < blocks := plan.room.trans_le least
  cases grow : request.grow with
  | none =>
      simp only [maxGrowBlocks, grow, PlanRequest.sizingAt] at most
      obtain rfl := Nat.le_antisymm least most
      exact Nat.le_add_right _ _
  | upTo bytes =>
      simp only [maxGrowBlocks, grow] at most
      have target := PlanRequest.gdtAt_le_upToGdt plan.sized room most
      simp only [PlanRequest.reservedAt, PlanRequest.reservedWanted, grow]
      omega
  | max =>
      simp only [maxGrowBlocks, grow, PlanRequest.sizingAt, le_max_iff, le_min_iff] at most
      rcases most with ⟨reach, -⟩ | same
      · exact PlanRequest.gdtAt_le_of_describable plan.sized room reach
      · obtain rfl := Nat.le_antisymm least same
        exact Nat.le_add_right _ _

/-- The resize inode's map holds the reservation: an explicit target was checked against
it, and a share is bounded by it.
-/
theorem reservedAt_le (plan : Planned request layout)
    : request.reservedAt request.keptBlocks ≤ request.reservedLimit := by
  have checked := plan.admits.reserved
  cases grow : request.grow with
  | none => simp [PlanRequest.reservedAt, PlanRequest.reservedWanted, grow]
  | upTo bytes =>
      simp only [PlanRequest.checkReserved, grow, bind_unit_eq_ok, refuseIf_eq_ok] at checked
      simpa using checked.2.2
  | max =>
      simp only [PlanRequest.reservedAt, PlanRequest.reservedWanted, grow]
      split
      · exact Nat.zero_le _
      · omega

/-- A share of the filesystem is reserved only where 32 bits name its blocks, and reports no
size past them.
-/
theorem maxGrowBlocks_le_of_max (grow : request.grow = .max)
    (reserves : 0 < request.reservedAt request.keptBlocks)
    : maxGrowBlocks request (request.sizingAt request.keptBlocks) ≤ max32BitBlocks := by
  have kept := keptBlocks_le request
  have representable : request.totalBlocks ≤ max32BitBlocks := by
    by_contra past
    simp [PlanRequest.reservedAt, PlanRequest.reservedWanted, grow, PlanRequest.canReserve,
      PlanRequest.reservationRepresentable, past] at reserves
  simp only [maxGrowBlocks, grow, PlanRequest.sizingAt]
  omega

end Planned

/-- A planned layout is safe to grow exactly where its grow target is addressable. The share
a plan takes on its own is capped at the last 32-bit block; an explicit target is not.
-/
theorem planLayout_growSafe_iff {request : PlanRequest} {layout : Layout}
    (planned : planLayout request = .ok layout)
    : layout.GrowSafe ↔ request.TargetAddressable := by
  have plan := planLayout_ok planned
  constructor
  · intro safe
    unfold PlanRequest.TargetAddressable
    split
    next => trivial
    next => trivial
    next bytes grow =>
      by_cases reserves : 0 < request.reservedAt request.keptBlocks
      · have named := safe.addressable (plan.layout_reservedGdtBlocks ▸ reserves)
        rw [plan.layout_maxGrowBlocks, maxGrowBlocks, grow] at named
        exact .inl named
      · simp only [PlanRequest.reservedAt, PlanRequest.reservedWanted, grow] at reserves
        exact .inr (by omega)
  · intro target
    refine ⟨?_, ?_, ?_⟩
    · intro blocks least most
      rw [plan.layout_totalBlocks] at least
      rw [plan.layout_maxGrowBlocks] at most
      rw [plan.descriptorBlocksOf_eq, plan.layout_gdtBlocks, plan.layout_reservedGdtBlocks]
      exact plan.described least most
    · intro _
      rw [plan.layout_reservedGdtBlocks, plan.layout_blockSize]
      exact plan.reservedAt_le
    · intro reserves
      rw [plan.layout_reservedGdtBlocks] at reserves
      rw [plan.layout_maxGrowBlocks]
      cases grow : request.grow with
      | none =>
          simp [PlanRequest.reservedAt, PlanRequest.reservedWanted, grow] at reserves
      | max => exact Planned.maxGrowBlocks_le_of_max grow reserves
      | upTo bytes =>
          simp only [PlanRequest.TargetAddressable, grow] at target
          simp only [PlanRequest.reservedAt, PlanRequest.reservedWanted, grow] at reserves
          simp only [maxGrowBlocks, grow]
          omega

/-- Witness: a filesystem of 64 MiB planned to grow to one tebibyte. -/
theorem planLayout_growSafe_of_1TiB
    : ∃ layout,
        planLayout { PlanRequest.new (64 * 1024 * 1024) .default with grow := .upTo (2 ^ 40) }
          = .ok layout
        ∧ layout.GrowSafe := by
  obtain ⟨layout, planned⟩ :=
    exists_eq_ok (planLayout
      { PlanRequest.new (64 * 1024 * 1024) .default with grow := .upTo (2 ^ 40) })
      (by decide +kernel)
  exact ⟨layout, planned, (planLayout_growSafe_iff planned).mpr (.inl (by decide))⟩

/-- An ext2 filesystem of 64 MiB asked to grow to 2^32 blocks of 4096 bytes. -/
def pastCeilingRequest : PlanRequest :=
  { PlanRequest.new (64 * 1024 * 1024) .ext2 with grow := .upTo (2 ^ 44) }

/-- The planner accepts the target and reserves for it, though its last block has no 32-bit
number.
-/
theorem planLayout_grows_past_ceiling
    : ∃ layout,
        planLayout pastCeilingRequest = .ok layout
        ∧ layout.reservedGdtBlocks = 1023
        ∧ layout.maxGrowBlocks = max32BitBlocks + 1
        ∧ ¬ layout.GrowSafe := by
  obtain ⟨layout, planned⟩ :=
    exists_eq_ok (planLayout pastCeilingRequest) (by decide +kernel)
  have reported : (planLayout pastCeilingRequest).toOption.all (fun layout =>
      layout.reservedGdtBlocks == 1023 && layout.maxGrowBlocks == max32BitBlocks + 1)
      = true := by
    decide +kernel
  simp only [planned, Except.toOption, Option.all_some, Bool.and_eq_true, beq_iff_eq]
    at reported
  obtain ⟨reserves, past⟩ := reported
  refine ⟨layout, planned, reserves, past, fun safe => ?_⟩
  have named := safe.addressable (by omega)
  omega

end Ferrosys.Ext
