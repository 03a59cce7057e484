import Ferrosys.Ext.Geometry.Verdict

/-! What it costs to reserve as much as the format allows: when a request that plans with nothing
reserved plans with the share, which is taken from the filesystem whether or not there is room.
-/

namespace Ferrosys.Ext

open Arith Checked

namespace PlanRequest

/-- The request with nothing reserved, and with the share. -/
def growNone (request : PlanRequest) : PlanRequest := { request with grow := .none }
def growMax (request : PlanRequest) : PlanRequest := { request with grow := .max }

/-- The room the share needs: where it drops a final group that holds without it, the inodes go in
the groups left; and at the size kept, group 0, the final group and the packing of the tables hold
it beside their metadata.
-/
structure RoomForMax (request : PlanRequest) : Prop where
  kept
    : request.growMax.keeps request.totalBlocks = request.growNone.keeps request.totalBlocks
      ∨ request.inodeShare (request.growMax.keeps request.totalBlocks)
            (request.groupsFor (request.growMax.keeps request.totalBlocks))
          ≤ request.inodeCap
        ∧ request.inodesAt (request.growMax.keeps request.totalBlocks) ≤ 2 ^ 32 - 1
  group0
    : request.growMax.group0At (request.growMax.keeps request.totalBlocks)
      ≤ request.growMax.keeps request.totalBlocks
  last
    : request.growMax.lastOverheadAt (request.growMax.keeps request.totalBlocks) + 1
      ≤ request.lastBlocksAt (request.growMax.keeps request.totalBlocks)
  packed
    : request.growMax.packedEndAt (request.growMax.keeps request.totalBlocks)
      ≤ request.growMax.keeps request.totalBlocks

variable {request : PlanRequest}

/-- More blocks are no fewer groups. -/
theorem groupsFor_mono (sized : request.feature.Sized) {blocks blocks' : Nat}
    (fewer : blocks ≤ blocks') : request.groupsFor blocks ≤ request.groupsFor blocks' :=
  max_le_max_right _ (divCeil_mono (blocksPerGroup_pos sized) (Nat.sub_le_sub_right fewer _))

theorem gdtAt_mono (sized : request.feature.Sized) {blocks blocks' : Nat} (fewer : blocks ≤ blocks')
    : request.gdtAt blocks ≤ request.gdtAt blocks' :=
  gdtFor_mono sized (groupsFor_mono sized fewer)

/-- The share is one in sixty-four of the blocks, and leaves the live table in its group. -/
theorem growMax_reservedAt_le (request : PlanRequest) (blocks : Nat)
    : request.growMax.reservedAt blocks ≤ blocks / growMaxShare
      ∧ request.growMax.reservedAt blocks ≤ request.blocksPerGroup - (1 + request.gdtAt blocks) := by
  change (if !request.growMax.canReserve then 0
    else min (min (min request.reservedLimit (request.ceilingGdt - request.gdtAt blocks))
      (blocks / growMaxShare)) (request.blocksPerGroup - (1 + request.gdtAt blocks))) ≤ _
      ∧ (if !request.growMax.canReserve then 0
    else min (min (min request.reservedLimit (request.ceilingGdt - request.gdtAt blocks))
      (blocks / growMaxShare)) (request.blocksPerGroup - (1 + request.gdtAt blocks))) ≤ _
  split
  · exact ⟨Nat.zero_le _, Nat.zero_le _⟩
  · exact ⟨(min_le_left _ _).trans (min_le_right _ _), min_le_right _ _⟩

/-- A pass that admits a size with nothing reserved admits it with the share, and any smaller size
whose inodes fit its groups.
-/
theorem growMax_admits (sized : request.feature.Sized) {blocks kept : Nat}
    (admits : request.growNone.Admits blocks) (fewer : kept ≤ blocks)
    (inodes : request.inodeShare kept (request.groupsFor kept) ≤ request.inodeCap)
    : request.growMax.Admits kept := by
  have groups := groupsFor_mono sized fewer
  have table := gdtAt_mono sized fewer
  have share := (growMax_reservedAt_le request kept).2
  refine ⟨groups.trans admits.groups, rfl, fun several => ?_, inodes⟩
  have fits : 1 + request.gdtAt blocks + 0 ≤ request.blocksPerGroup :=
    admits.descriptors (le_trans several groups)
  change 1 + request.gdtAt kept + request.growMax.reservedAt kept ≤ request.blocksPerGroup
  omega

/-- What plans with nothing reserved plans with the share exactly where there is room for it. -/
theorem growMax_plans_iff (plans : request.growNone.Plans)
    : request.growMax.Plans ↔ request.RoomForMax := by
  have sized : request.feature.Sized := FeatureSet.validate_sized plans.valid
  constructor
  · intro wider
    exact ⟨.inr ⟨wider.admitsKept.inodes, wider.holds.inodes⟩, wider.holds.group0, wider.holds.last,
      wider.holds.packed⟩
  · intro room
    have fewer := request.growMax.keeps_le request.totalBlocks
    have inodes : request.inodeShare (request.growMax.keeps request.totalBlocks)
          (request.groupsFor (request.growMax.keeps request.totalBlocks)) ≤ request.inodeCap
        ∧ request.inodesAt (request.growMax.keeps request.totalBlocks) ≤ 2 ^ 32 - 1 := by
      rcases room.kept with same | fits
      · rw [same]
        exact ⟨plans.admitsKept.inodes, plans.holds.inodes⟩
      · exact fits
    exact {
      valid := plans.valid
      size := plans.size
      admits := growMax_admits sized plans.admits le_rfl plans.admits.inodes
      admitsKept := growMax_admits sized plans.admits fewer inodes.1
      holds := ⟨inodes.2, room.group0, room.last, room.packed⟩
    }

end PlanRequest

/-- A filesystem of 64 blocks that its metadata and the root's block fill. -/
def filledRequest : PlanRequest where
  sizeBytes := 64 * 4096
  feature := .default
  grow := .none
  inodes := .count 464
  reserved := ReservedRatio.default

end Ferrosys.Ext

/-! Inodes by the size-driven ratio: past sixteen tebibytes the ratio no longer steps, every group
holds the same count, and the total follows the groups.
-/

namespace Ferrosys.Ext

open Arith Checked

namespace PlanRequest

variable {request : PlanRequest}

/-- The inodes of a group at the largest ratio. -/
def perGroup (request : PlanRequest) : Nat :=
  request.feature.blockSize * request.feature.blockSize / 8192

/-- The blocks of so many groups and a final one. -/
theorem groupsFor_bounds (sized : request.feature.Sized) {blocks : Nat}
    (room : request.firstDataBlock < blocks)
    : request.firstDataBlock + (request.groupsFor blocks - 1) * request.blocksPerGroup < blocks
      ∧ blocks ≤ request.firstDataBlock + request.groupsFor blocks * request.blocksPerGroup := by
  have some_ := Planned.groupsFor_pos request blocks
  refine ⟨(lt_groupsFor_iff sized room).mp (by omega), ?_⟩
  by_contra past
  exact absurd ((lt_groupsFor_iff sized room).mpr (not_le.mp past)) (lt_irrefl _)

theorem firstDataBlock_le (request : PlanRequest) : request.firstDataBlock ≤ 1 := by
  unfold firstDataBlock
  split <;> omega

/-- What rounding makes of a share. -/
theorem inodesPerGroupFor_le (request : PlanRequest) (blocks groups : Nat)
    (some_ : 0 < request.feature.inodesPerBlock)
    : request.inodesPerGroupFor blocks groups
      ≤ request.inodeShare blocks groups + request.feature.inodesPerBlock + 8 := by
  have up := divCeil_mul_lt (a := request.inodeShare blocks groups) some_
  have down := Nat.div_mul_le_self
    (divCeil (request.inodeShare blocks groups) request.feature.inodesPerBlock
      * request.feature.inodesPerBlock) 8
  change max _ 8 ≤ _
  omega

/-- A block holds between one and thirty-two inodes. -/
theorem inodesPerBlock_cases (sized : request.feature.Sized)
    : request.feature.inodesPerBlock ∣ 32 ∧ request.feature.inodesPerBlock * 128
        ≤ request.feature.blockSize := by
  obtain ⟨k, least, size, most⟩ := sized.inode
  have some_ : request.feature.inodeSize ≠ 0 := by
    rw [size]
    exact (Nat.two_pow_pos k).ne'
  have bound : k ≤ 12 := by
    by_contra past
    have large : 2 ^ 13 ≤ 2 ^ k := Nat.pow_le_pow_right (by decide) (by omega)
    rcases sized.block with block | block | block <;> omega
  rw [FeatureSet.inodesPerBlock, if_neg some_, size]
  rw [size] at most
  rcases sized.block with block | block | block <;> rw [block] at most ⊢ <;>
    interval_cases k <;> first | decide | omega

/-- A total past 32 bits is of a filesystem past sixteen tebibytes. -/
theorem large_of_inodesAt (sized : request.feature.Sized) (auto : request.inodes = .auto)
    {blocks : Nat} (many : 2 ^ 32 - 1 < request.inodesAt blocks)
    : 2 ^ 44 ≤ blocks * request.feature.blockSize := by
  by_contra small
  obtain ⟨divides, -⟩ := inodesPerBlock_cases sized
  have few : request.feature.inodesPerBlock ≤ 32 := Nat.le_of_dvd (by decide) divides
  have some_ : 0 < request.feature.inodesPerBlock := Nat.pos_of_dvd_of_pos divides (by decide)
  have first := firstDataBlock_le request
  have groups : request.groupsFor blocks ≤ blocks / request.blocksPerGroup + 1 := by
    refine max_le ?_ (Nat.le_add_left 1 _)
    rw [divCeil_le_iff (blocksPerGroup_pos sized), Nat.succ_mul]
    have whole := Nat.div_add_mod' blocks request.blocksPerGroup
    have part := Nat.mod_lt blocks (blocksPerGroup_pos sized)
    omega
  have count : request.inodeCountFor blocks ≤ 2 ^ 29 := by
    unfold inodeCountFor inodeRatio
    rw [auto]
    rcases sized.block with block | block | block <;> rw [block] at small ⊢ <;>
      simp only [] <;> split_ifs <;> omega
  have spread := divCeil_mul_lt (a := request.inodeCountFor blocks)
    (Planned.groupsFor_pos request blocks)
  have rounded := Nat.mul_le_mul_right (request.groupsFor blocks)
    (inodesPerGroupFor_le request blocks (request.groupsFor blocks) some_)
  have most : request.groupsFor blocks ≤ 2 ^ 22 := by
    rcases sized.block with block | block | block <;>
      rw [blocksPerGroup, block] at groups <;> rw [block] at small <;> omega
  have total : request.inodesAt blocks
      ≤ (request.inodeShare blocks (request.groupsFor blocks) + 40) * request.groupsFor blocks :=
    rounded.trans (Nat.mul_le_mul_right _ (by omega))
  rw [Nat.add_mul] at total
  change divCeil _ _ * _ < _ at spread
  rw [← inodeShare] at spread
  omega

/-- At the largest ratio every group's share is the same. -/
theorem inodesPerGroupFor_of_large (sized : request.feature.Sized) (auto : request.inodes = .auto)
    {blocks : Nat} (large : 2 ^ 44 ≤ blocks * request.feature.blockSize)
    : request.inodesPerGroupFor blocks (request.groupsFor blocks) = request.perGroup := by
  have first := firstDataBlock_le request
  have room : request.firstDataBlock < blocks := by
    rcases sized.block with block | block | block <;> rw [block] at large <;> omega
  obtain ⟨low, high⟩ := groupsFor_bounds sized room
  have share : request.inodeShare blocks (request.groupsFor blocks) = request.perGroup := by
    have some_ := Planned.groupsFor_pos request blocks
    have count : request.inodeCountFor blocks
        = max (blocks * request.feature.blockSize / 65536) 16 := by
      unfold inodeCountFor inodeRatio
      rw [auto]
      rcases sized.block with block | block | block <;> rw [block] at large ⊢ <;>
        simp only [] <;> rw [if_neg (by omega), if_neg (by omega), if_neg (by omega),
          if_neg (by omega)]
    refine Nat.le_antisymm ?_ ?_
    · rw [inodeShare, divCeil_le_iff some_, count, perGroup]
      rw [blocksPerGroup] at high
      rcases sized.block with block | block | block <;> rw [block] at large high ⊢ <;> omega
    · by_contra less
      have fewer : request.inodeShare blocks (request.groupsFor blocks) ≤ request.perGroup - 1 := by
        omega
      rw [inodeShare, divCeil_le_iff some_, count, perGroup] at fewer
      rw [blocksPerGroup] at low high
      rcases sized.block with block | block | block <;> rw [block] at large low high fewer <;> omega
  obtain ⟨k, least, size, most⟩ := sized.inode
  have bound : k ≤ 12 := by
    by_contra past
    have wide : 2 ^ 13 ≤ 2 ^ k := Nat.pow_le_pow_right (by decide) (by omega)
    rcases sized.block with block | block | block <;> omega
  rw [size] at most
  simp only [inodesPerGroupFor, share, perGroup, FeatureSet.inodesPerBlock, size]
  rcases sized.block with block | block | block <;> rw [block] at most ⊢ <;>
    interval_cases k <;> first | decide | omega

/-- Blocks past the whole groups of a size. -/
theorem remainderAt_eq (request : PlanRequest) {blocks groups : Nat}
    (low : request.firstDataBlock + groups * request.blocksPerGroup ≤ blocks)
    (high : blocks < request.firstDataBlock + (groups + 1) * request.blocksPerGroup)
    : request.remainderAt blocks
      = blocks - (request.firstDataBlock + groups * request.blocksPerGroup) := by
  rw [Nat.succ_mul] at high
  rw [remainderAt, show blocks - request.firstDataBlock
      = blocks - (request.firstDataBlock + groups * request.blocksPerGroup)
        + groups * request.blocksPerGroup by omega,
    Nat.add_mul_mod_self_right, Nat.mod_eq_of_lt (by omega)]

/-- What a size whose final group is dropped keeps is the groups before it. -/
theorem keeps_of_drops (sized : request.feature.Sized) {blocks : Nat}
    (room : request.firstDataBlock < blocks) (drop : request.Drops blocks)
    : request.keeps blocks
      = request.firstDataBlock + (request.groupsFor blocks - 1) * request.blocksPerGroup := by
  obtain ⟨low, high⟩ := groupsFor_bounds sized room
  have some_ := Planned.groupsFor_pos request blocks
  have partial_ : blocks < request.firstDataBlock
      + (request.groupsFor blocks - 1 + 1) * request.blocksPerGroup := by
    rw [Nat.sub_add_cancel some_]
    refine lt_of_le_of_ne high fun whole => drop.2.1 ?_
    rw [remainderAt, whole, Nat.add_sub_cancel_left]
    exact Nat.mul_mod_left _ _
  rw [keeps, if_pos drop, request.remainderAt_eq low.le partial_]
  omega

end PlanRequest

end Ferrosys.Ext
