import Ferrosys.Ext.Geometry.Placement

/-! What a planned layout promises about its metadata, and the exact condition under which
the planner keeps the promise.
-/

namespace Ferrosys.Ext

open Arith Spans

/-- The blocks a group covers. -/
def GroupLayout.range (g : GroupLayout) : BlockRange := ⟨g.startBlock, g.blockCount⟩

/-- A group's bitmaps and inode table. -/
def GroupLayout.tables (itb : Nat) (g : GroupLayout) : List BlockRange :=
  [⟨g.blockBitmap, 1⟩, ⟨g.inodeBitmap, 1⟩, ⟨g.inodeTable, itb⟩]

/-- The metadata never overlaps and stays inside the filesystem, the groups tile it, and in
the block-mapped family each group holds its own bitmaps and table.
-/
structure Layout.Sound (layout : Layout) : Prop where
  disjoint : layout.metadataRegions.Pairwise Span.Apart
  inside : ∀ r ∈ layout.metadataRegions, r.Within layout.firstDataBlock layout.totalBlocks
  tiled : Tiles layout.firstDataBlock (layout.groups.map GroupLayout.range) layout.totalBlocks
  inGroup
    : layout.feature.hasFlexBg = false
      → ∀ g ∈ layout.groups, ∀ r ∈ g.tables layout.inodeTableBlocks,
          r.Within g.range.start g.range.stop

theorem FeatureSet.Sized.blockSize_pos {feature : FeatureSet} (sized : feature.Sized)
    : 0 < feature.blockSize := by
  rcases sized.block with size | size | size <;> omega

namespace PlanRequest

variable {request : PlanRequest}

theorem blocksPerGroup_pos (sized : request.feature.Sized) : 0 < request.blocksPerGroup := by
  have := sized.blockSize_pos
  unfold blocksPerGroup
  omega

/-- The layout whose groups are ranged and not yet placed. -/
def unplacedAt (request : PlanRequest) (blocks : Nat) : Layout :=
  unplacedLayout request (request.sizingAt blocks)

/-- Blocks a full superblock copy takes at a size of `blocks`. -/
def copyLenAt (request : PlanRequest) (blocks : Nat) : Nat :=
  superOverhead (request.gdtAt blocks) (request.reservedAt blocks)

/-- A group exists exactly where its first block does. -/
theorem lt_groupsFor_iff (sized : request.feature.Sized) {blocks index : Nat}
    (room : request.firstDataBlock < blocks)
    : index < request.groupsFor blocks
      ↔ request.firstDataBlock + index * request.blocksPerGroup < blocks := by
  have pos := blocksPerGroup_pos sized
  have ceil := lt_divCeil_iff (a := blocks - request.firstDataBlock) (n := index) pos
  have one := lt_divCeil_iff (a := blocks - request.firstDataBlock) (n := 0) pos
  rw [groupsFor, lt_max_iff, ceil]
  constructor
  · rintro (inside | zero)
    · omega
    · obtain rfl : index = 0 := by omega
      simpa using room
  · intro inside
    exact .inl (by omega)

theorem groups_unplacedAt (blocks : Nat)
    : (request.unplacedAt blocks).groups
      = (List.range (request.groupsFor blocks)).map (groupRange request blocks) := rfl

theorem groupCount_unplacedAt (blocks : Nat)
    : (request.unplacedAt blocks).groupCount = request.groupsFor blocks := rfl

/-- A group carries the copy its index assigns it, at its first block. -/
theorem unplacedAt_superOverheadRegion {blocks index : Nat}
    (bound : index < request.groupsFor blocks)
    : (request.unplacedAt blocks).superOverheadRegion index
      = if request.hasSuper index then
          some
            ⟨request.firstDataBlock + index * request.blocksPerGroup,
              request.copyLenAt blocks⟩
        else
          none := by
  simp only [Layout.superOverheadRegion, groups_unplacedAt, List.getElem?_map,
    List.getElem?_range bound, Option.map_some]
  rfl

theorem unplacedAt_superOverheadLen {blocks index : Nat}
    (bound : index < request.groupsFor blocks)
    : (request.unplacedAt blocks).superOverheadLen index
      = if request.hasSuper index then request.copyLenAt blocks else 0 := by
  rw [Layout.superOverheadLen, unplacedAt_superOverheadRegion bound]
  split <;> rfl

/-- The first groups tile the blocks they cover, by induction on their number. -/
theorem groupRange_tiles (sized : request.feature.Sized) {blocks count : Nat}
    (room : request.firstDataBlock < blocks) (bound : count ≤ request.groupsFor blocks)
    : Tiles request.firstDataBlock
        ((List.range count).map fun index => (groupRange request blocks index).range)
        (min (request.firstDataBlock + count * request.blocksPerGroup) blocks) := by
  induction count with
  | zero => simpa using room.le
  | succ count ih =>
      have here := (lt_groupsFor_iff sized room).mp bound
      have before := ih (by omega)
      have pos := blocksPerGroup_pos sized
      rw [Nat.min_eq_left here.le] at before
      rw [List.range_succ, List.map_append, Nat.succ_mul, ← Nat.add_assoc]
      exact before.concat (by omega)

end PlanRequest

/-- The first flex heads have as many members as the groups they reach, by induction on
their number.
-/
theorem sum_flexMembers (layout : Layout) (heads : Nat)
    : (((List.range heads).map (· * layout.flexBgSize)).map layout.flexMembers).sum
      = min layout.groupCount (heads * layout.flexBgSize) := by
  induction heads with
  | zero => simp
  | succ heads ih =>
      rw [List.range_succ, List.map_append, List.map_append, List.sum_append, ih]
      simp only [List.map_cons, List.map_nil, List.sum_cons, List.sum_nil, Layout.flexMembers,
        Nat.succ_mul]
      omega

namespace PlanRequest

variable {request : PlanRequest}

/-- Every group is placed. -/
theorem placements_length (request : PlanRequest) (blocks : Nat)
    : (request.unplacedAt blocks).groups.length
      = (placements (request.unplacedAt blocks)).1.length := by
  rw [groups_unplacedAt, List.length_map, List.length_range, placements]
  split
  next flex =>
    rw [(placeFlex_placed _ _ _ (fun _ _ => Nat.zero_le _) 0).2, flexHeads,
      sum_flexMembers]
    have flexBgSize : (request.unplacedAt blocks).flexBgSize = 16 := rfl
    exact (Nat.min_eq_left ((divCeil_le_iff (by omega)).mp le_rfl)).symm
  next => simp [groups_unplacedAt]

end PlanRequest

namespace Planned

variable {request : PlanRequest} {layout : Layout}

theorem sized (plan : Planned request layout) : request.feature.Sized :=
  FeatureSet.validate_sized plan.valid

theorem room (plan : Planned request layout) : request.firstDataBlock < request.keptBlocks := by
  have first : request.firstDataBlock ≤ 1 := by
    unfold PlanRequest.firstDataBlock
    split <;> omega
  have enough := plan.group0
  unfold superOverhead at enough
  omega

theorem layout_eq_placed (plan : Planned request layout)
    : layout = (request.unplacedAt request.keptBlocks).placed := plan.layout_eq

theorem layout_groupCount (plan : Planned request layout)
    : layout.groupCount = request.groupsFor request.keptBlocks := by
  rw [plan.layout_eq_placed]
  rfl

theorem layout_totalBlocks (plan : Planned request layout)
    : layout.totalBlocks = request.keptBlocks := by
  rw [plan.layout_eq_placed]
  rfl

theorem layout_firstDataBlock (plan : Planned request layout)
    : layout.firstDataBlock = request.firstDataBlock := by
  rw [plan.layout_eq_placed]
  rfl

theorem layout_inodeTableBlocks (plan : Planned request layout)
    : layout.inodeTableBlocks = request.inodeTableAt request.keptBlocks := by
  rw [plan.layout_eq_placed]
  rfl

theorem layout_feature (plan : Planned request layout)
    : layout.feature = request.feature := by
  rw [plan.layout_eq_placed]
  rfl

theorem groupsFor_pos (request : PlanRequest) (blocks : Nat) : 0 < request.groupsFor blocks :=
  Nat.le_max_right _ _

/-- The last group's blocks hold its share of the metadata, and one block more. -/
theorem lastOverhead_lt (plan : Planned request layout)
    : lastOverhead layout
      < (groupRange request request.keptBlocks
          (request.groupsFor request.keptBlocks - 1)).blockCount := by
  have found : layout.lastBlocks
      = (groupRange request request.keptBlocks
          (request.groupsFor request.keptBlocks - 1)).blockCount := by
    rw [Layout.lastBlocks, plan.layout_groupCount, plan.layout_eq_placed, ← List.getElem?_map,
      Layout.map_groups_placed (fun _ _ => rfl) (PlanRequest.placements_length _ _),
      PlanRequest.groups_unplacedAt, List.getElem?_map, List.getElem?_map,
      List.getElem?_range (Nat.sub_lt (groupsFor_pos _ _) Nat.one_pos)]
    rfl
  exact found ▸ plan.last

/-- Every group but the last has its full share of blocks. -/
theorem blockCount_of_lt_last (plan : Planned request layout) {index : Nat}
    (bound : index + 1 < request.groupsFor request.keptBlocks)
    : (groupRange request request.keptBlocks index).blockCount = request.blocksPerGroup := by
  have next := (PlanRequest.lt_groupsFor_iff plan.sized plan.room).mp bound
  rw [Nat.succ_mul, ← Nat.add_assoc] at next
  simp only [groupRange]
  omega

theorem superOverheadLen_eq (plan : Planned request layout) (index : Nat)
    : layout.superOverheadLen index
      = (request.unplacedAt request.keptBlocks).superOverheadLen index := by
  rw [plan.layout_eq_placed, Layout.superOverheadLen, Layout.superOverheadLen,
    Layout.placed_superOverheadRegion (PlanRequest.placements_length _ _)]

/-- Every group holds its superblock copy, by whether it is the last. -/
theorem superOverheadLen_le (plan : Planned request layout) {index : Nat}
    (bound : index < request.groupsFor request.keptBlocks)
    : (request.unplacedAt request.keptBlocks).superOverheadLen index
      ≤ (groupRange request request.keptBlocks index).blockCount := by
  by_cases last : index + 1 = request.groupsFor request.keptBlocks
  · have fits := plan.lastOverhead_lt
    rw [lastOverhead, plan.layout_groupCount, plan.superOverheadLen_eq] at fits
    obtain rfl : index = request.groupsFor request.keptBlocks - 1 := by omega
    omega
  · rw [plan.blockCount_of_lt_last (by omega), PlanRequest.unplacedAt_superOverheadLen bound]
    have descriptors := plan.admits.descriptors (by omega)
    unfold PlanRequest.copyLenAt superOverhead
    split <;> omega

/-- The groups follow one another from the first data block to the last block. -/
theorem groupRange_tiles (plan : Planned request layout)
    : Tiles request.firstDataBlock
        ((List.range (request.groupsFor request.keptBlocks)).map fun index =>
          (groupRange request request.keptBlocks index).range)
        request.keptBlocks := by
  have tiles := PlanRequest.groupRange_tiles plan.sized plan.room le_rfl
  have all := (PlanRequest.lt_groupsFor_iff plan.sized plan.room).not.mp (lt_irrefl _)
  rwa [Nat.min_eq_right (not_lt.mp all)] at tiles

/-- The planned groups tile the filesystem, since placing tables moves no group. -/
theorem tiled (plan : Planned request layout)
    : Tiles layout.firstDataBlock (layout.groups.map GroupLayout.range) layout.totalBlocks := by
  rw [plan.layout_totalBlocks, plan.layout_eq_placed,
    Layout.map_groups_placed (fun _ _ => rfl) (PlanRequest.placements_length _ _),
    PlanRequest.groups_unplacedAt, List.map_map]
  exact plan.groupRange_tiles

-----------------------------------------------------------------------------------------
-- Flex block groups
-----------------------------------------------------------------------------------------

/-- Each group's superblock copy lies at the start of that group. -/
theorem copy_chain {index : Nat} (bound : index < request.groupsFor request.keptBlocks)
    : Chain (groupRange request request.keptBlocks index).startBlock
        ((request.unplacedAt request.keptBlocks).superOverheadRegion index).toList
        ((groupRange request request.keptBlocks index).startBlock
          + (request.unplacedAt request.keptBlocks).superOverheadLen index) := by
  rw [PlanRequest.unplacedAt_superOverheadLen bound,
    PlanRequest.unplacedAt_superOverheadRegion bound]
  split
  · exact ⟨le_rfl, le_rfl⟩
  · simp

/-- The superblock copies are in order, one group after another. -/
theorem copies_chain (plan : Planned request layout)
    : Chain request.firstDataBlock
        ((List.range (request.groupsFor request.keptBlocks)).flatMap fun index =>
          ((request.unplacedAt request.keptBlocks).superOverheadRegion index).toList)
        request.keptBlocks := by
  refine plan.groupRange_tiles.chain.flatMap fun index member => ?_
  have bound := List.mem_range.mp member
  exact (copy_chain bound).widen le_rfl
    (Nat.add_le_add_left (plan.superOverheadLen_le bound) _)

/-- A flex head is one of the groups, and no group starts before the first data block. -/
theorem firstDataBlock_le_startOf {head : Nat}
    (member : head ∈ flexHeads (request.unplacedAt request.keptBlocks))
    : request.firstDataBlock ≤ (request.unplacedAt request.keptBlocks).startOf head := by
  obtain ⟨flexGroup, inFlex, rfl⟩ := List.mem_map.mp member
  have flexBgSize : (request.unplacedAt request.keptBlocks).flexBgSize = 16 := rfl
  have bound := (lt_divCeil_iff (by omega)).mp (List.mem_range.mp inFlex)
  rw [PlanRequest.groupCount_unplacedAt] at bound
  rw [Layout.startOf, PlanRequest.groups_unplacedAt, List.getElem?_map,
    List.getElem?_range bound]
  exact Nat.le_add_right _ _

/-- Under flex block groups the metadata packs: the tables were placed in order and clear of
every superblock copy.
-/
theorem packed_of_flexBg (plan : Planned request layout)
    (flex : request.feature.hasFlexBg = true)
    : Packed request.firstDataBlock request.keptBlocks layout.metadataRegions := by
  have full := PlanRequest.placements_length request request.keptBlocks
  have flexed : (request.unplacedAt request.keptBlocks).feature.hasFlexBg = true := flex
  have last := plan.placed
  obtain ⟨⟨runs, placed, starts, same⟩, -⟩ :=
    placeFlex_placed (request.unplacedAt request.keptBlocks)
      ((List.range (request.unplacedAt request.keptBlocks).groupCount).filterMap
        (request.unplacedAt request.keptBlocks).superOverheadRegion)
      (flexHeads (request.unplacedAt request.keptBlocks))
      (fun _ member => firstDataBlock_le_startOf member) 0
  rw [plan.layout_totalBlocks, ← PlanRequest.unplacedAt, placements, if_pos flexed] at last
  have tables : Packed request.firstDataBlock request.keptBlocks runs :=
    {
      within := fun r member =>
        ⟨starts r member, (placed.chain.within r member).2.trans last⟩
      apart := placed.chain.pairwise_apart
    }
  refine Packed.perm ?_ (plan.layout_eq_placed ▸ Layout.placed_metadataRegions_perm full).symm
  rw [placements, if_pos flexed, PlanRequest.groups_unplacedAt, List.flatMap_map]
  refine plan.copies_chain.packed.append (tables.perm same.symm) fun copy isCopy run isRun => ?_
  refine (placed.clear run (same.mem_iff.mp isRun) copy ?_).symm
  obtain ⟨index, bound, found⟩ := List.mem_flatMap.mp isCopy
  exact List.mem_filterMap.mpr ⟨index, bound, Option.mem_toList.mp found⟩

-----------------------------------------------------------------------------------------
-- The block-mapped family
-----------------------------------------------------------------------------------------

/-- A group with its own bitmaps and table behind its superblock copy. -/
def blockMappedGroup (request : PlanRequest) (index : Nat) : GroupLayout :=
  let g := groupRange request request.keptBlocks index
  g.place (placeBlockMapped (request.unplacedAt request.keptBlocks) g)

theorem layout_groups_of_blockMapped (plan : Planned request layout)
    (blockMapped : request.feature.hasFlexBg = false)
    : layout.groups
      = (List.range (request.groupsFor request.keptBlocks)).map (blockMappedGroup request) := by
  have mapped : (request.unplacedAt request.keptBlocks).feature.hasFlexBg = false := blockMapped
  rw [plan.layout_eq_placed, Layout.placed, placements]
  simp only [mapped, Bool.false_eq_true, if_false, List.zipWith_map_right,
    PlanRequest.groups_unplacedAt, List.map_map, List.zipWith_map_left, List.zipWith_self]
  rfl

/-- Blocks from a group's start to the end of its inode table. -/
def blockMappedLen (request : PlanRequest) (index : Nat) : Nat :=
  (request.unplacedAt request.keptBlocks).superOverheadLen index
    + (2 + request.inodeTableAt request.keptBlocks)

/-- A group lays its copy, its bitmaps and its table out in order from its start. -/
theorem groupRegions_chain (plan : Planned request layout) {index : Nat}
    (bound : index < request.groupsFor request.keptBlocks)
    : Chain (groupRange request request.keptBlocks index).startBlock
        (layout.groupRegions (blockMappedGroup request index))
        ((groupRange request request.keptBlocks index).startBlock
          + blockMappedLen request index) := by
  have same : layout.superOverheadRegion index
      = (request.unplacedAt request.keptBlocks).superOverheadRegion index := by
    rw [plan.layout_eq_placed,
      Layout.placed_superOverheadRegion (PlanRequest.placements_length _ _)]
  refine (?_ : Chain _ _ ((groupRange request request.keptBlocks index).startBlock
    + (request.unplacedAt request.keptBlocks).superOverheadLen index)).append ?_
  · exact same ▸ copy_chain bound
  · simp only [blockMappedGroup, GroupLayout.place, placeBlockMapped, groupRange, chain_cons,
      chain_nil, Span.stop_mk, blockMappedLen,
      plan.layout_inodeTableBlocks]
    omega

/-- Where a group's tables end inside the group, the whole group does. -/
theorem blockMapped_sound (plan : Planned request layout)
    (blockMapped : request.feature.hasFlexBg = false)
    (fits : ∀ index < request.groupsFor request.keptBlocks,
      blockMappedLen request index ≤ (groupRange request request.keptBlocks index).blockCount)
    : layout.Sound := by
  have chains : ∀ index ∈ List.range (request.groupsFor request.keptBlocks),
      Chain (groupRange request request.keptBlocks index).range.start
        (layout.groupRegions (blockMappedGroup request index))
        (groupRange request request.keptBlocks index).range.stop := by
    intro index member
    have bound := List.mem_range.mp member
    exact (plan.groupRegions_chain bound).widen le_rfl
      (Nat.add_le_add_left (fits index bound) _)
  have packed : Packed request.firstDataBlock request.keptBlocks layout.metadataRegions := by
    have inOrder := plan.groupRange_tiles.chain.flatMap chains
    refine inOrder.packed.perm ?_
    rw [Layout.metadataRegions, plan.layout_groups_of_blockMapped blockMapped,
      List.flatMap_map]
    exact (List.mergeSort_perm _ _).symm
  refine ⟨packed.apart, plan.layout_firstDataBlock ▸ plan.layout_totalBlocks ▸ packed.within, plan.tiled, ?_⟩
  intro _ g isGroup r isTable
  rw [plan.layout_groups_of_blockMapped blockMapped] at isGroup
  obtain ⟨index, member, rfl⟩ := List.mem_map.mp isGroup
  exact (chains index member).within r (List.mem_append_right _ isTable)

/-- The last group always holds its own tables. -/
theorem blockMappedLen_lt_last (plan : Planned request layout)
    (blockMapped : request.feature.hasFlexBg = false)
    : blockMappedLen request (request.groupsFor request.keptBlocks - 1)
      < (groupRange request request.keptBlocks
          (request.groupsFor request.keptBlocks - 1)).blockCount := by
  have last := plan.lastOverhead_lt
  rw [lastOverhead, plan.layout_feature, blockMapped, plan.layout_groupCount,
    plan.superOverheadLen_eq, plan.layout_inodeTableBlocks] at last
  exact last

end Planned

-----------------------------------------------------------------------------------------
-- When the planner keeps its promise
-----------------------------------------------------------------------------------------

/-- The tables of a group need not fit beside a superblock copy, or they do: the groups are
flexed, or there is one group only, or a whole group holds a copy, two bitmaps and a table.
-/
def PlanRequest.TablesFit (request : PlanRequest) : Prop :=
  request.feature.hasFlexBg = true
    ∨ request.groupsFor request.keptBlocks = 1
    ∨ request.copyLenAt request.keptBlocks + (2 + request.inodeTableAt request.keptBlocks)
      ≤ request.blocksPerGroup

instance (request : PlanRequest) : Decidable request.TablesFit :=
  inferInstanceAs (Decidable (_ ∨ _ ∨ _))

/-- Group 0 carries a superblock copy under every feature set. -/
theorem PlanRequest.hasSuper_zero (request : PlanRequest) : request.hasSuper 0 = true := by
  simp [hasSuper, sparseSuperHasCopy]

/-- A planned layout is sound exactly where its tables fit. Only the final group is checked
when the tables of the block-mapped family are placed; group 0 always carries a copy, so it
is the group that fails first.
-/
theorem planLayout_sound_iff {request : PlanRequest} {layout : Layout}
    (planned : planLayout request = .ok layout)
    : layout.Sound ↔ request.TablesFit := by
  have plan := planLayout_ok planned
  constructor
  · intro sound
    by_contra unfit
    simp only [PlanRequest.TablesFit, not_or, Bool.not_eq_true, not_le] at unfit
    obtain ⟨blockMapped, several, overfull⟩ := unfit
    have groups := Planned.groupsFor_pos request request.keptBlocks
    have group0 : Planned.blockMappedGroup request 0 ∈ layout.groups := by
      rw [plan.layout_groups_of_blockMapped blockMapped]
      exact List.mem_map_of_mem (List.mem_range.mpr groups)
    -- group 0's own inode table, the last of its runs, must end inside group 0
    have table := (sound.inGroup (plan.layout_feature ▸ blockMapped) _ group0
      ⟨(Planned.blockMappedGroup request 0).inodeTable, layout.inodeTableBlocks⟩
      (by simp [GroupLayout.tables])).2
    have whole := plan.blockCount_of_lt_last (show 0 + 1 < _ by omega)
    have copy := PlanRequest.unplacedAt_superOverheadLen groups
    rw [if_pos request.hasSuper_zero] at copy
    simp only [Planned.blockMappedGroup, GroupLayout.place, placeBlockMapped,
      GroupLayout.range, Span.stop_mk, plan.layout_inodeTableBlocks, whole] at table
    have index : (groupRange request request.keptBlocks 0).index = 0 := rfl
    rw [index, copy] at table
    omega
  · intro fit
    cases flex : request.feature.hasFlexBg with
    | true =>
        have packed := plan.packed_of_flexBg flex
        refine ⟨packed.apart, plan.layout_firstDataBlock ▸ plan.layout_totalBlocks ▸ packed.within, plan.tiled, ?_⟩
        intro mapped
        rw [plan.layout_feature, flex] at mapped
        cases mapped
    | false =>
        refine plan.blockMapped_sound flex fun index bound => ?_
        have last := plan.blockMappedLen_lt_last flex
        by_cases isLast : index = request.groupsFor request.keptBlocks - 1
        · subst isLast
          exact last.le
        · rw [plan.blockCount_of_lt_last (by omega), Planned.blockMappedLen,
            PlanRequest.unplacedAt_superOverheadLen bound]
          rcases fit with flexed | single | fits
          · rw [flex] at flexed
            cases flexed
          · omega
          · split <;> omega

theorem exists_eq_ok {ε α : Type} (outcome : Except ε α) (succeeds : outcome.toBool = true)
    : ∃ a, outcome = .ok a := by
  cases outcome with
  | error error => cases succeeds
  | ok a => exact ⟨a, rfl⟩

/-- Witness: a default filesystem of 64 MiB. -/
theorem planLayout_sound_of_64MiB
    : ∃ layout,
        planLayout (.new (64 * 1024 * 1024) .default) = .ok layout
        ∧ (layout.Sound ↔ (PlanRequest.new (64 * 1024 * 1024) .default).TablesFit)
        ∧ layout.Sound := by
  obtain ⟨layout, planned⟩ :=
    exists_eq_ok (planLayout (.new (64 * 1024 * 1024) .default)) (by decide +kernel)
  have sound_iff := planLayout_sound_iff planned
  exact ⟨layout, planned, sound_iff, sound_iff.mpr (by decide +kernel)⟩

/-- The order the regions are listed in does not matter to whether they overlap. -/
theorem Layout.metadataRegions_pairwise_iff {layout : Layout}
    : layout.metadataRegions.Pairwise Span.Apart
      ↔ (layout.groups.flatMap layout.groupRegions).Pairwise Span.Apart :=
  (List.mergeSort_perm _ _).pairwise_iff Span.Apart.symm

/-- An ext2 filesystem of three groups with inodes of a whole block each, as many as the
density cap admits.
-/
def crowdedRequest : PlanRequest where
  sizeBytes := 24577 * 1024
  feature := { FeatureSet.ext2 with blockSize := 1024, inodeSize := 1024 }
  grow := .max
  inodes := .count 24552
  reserved := ReservedRatio.default

/-- The planner accepts the crowded request, and group 0's inode table runs over the
superblock copy of group 1.
-/
theorem planLayout_overlaps
    : ∃ layout,
        planLayout crowdedRequest = .ok layout
        ∧ ¬ layout.metadataRegions.Pairwise Span.Apart
        ∧ ¬ layout.Sound := by
  obtain ⟨layout, planned⟩ :=
    exists_eq_ok (planLayout crowdedRequest) (by decide +kernel)
  have overlaps : (planLayout crowdedRequest).toOption.all (fun layout =>
      !decide ((layout.groups.flatMap layout.groupRegions).Pairwise Span.Apart)) = true := by
    decide +kernel
  simp only [planned, Except.toOption, Option.all_some, Bool.not_eq_true',
    decide_eq_false_iff_not, ← Layout.metadataRegions_pairwise_iff] at overlaps
  exact ⟨layout, planned, overlaps, fun sound => overlaps sound.disjoint⟩

end Ferrosys.Ext
