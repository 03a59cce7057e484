import Ferrosys.Ext.Geometry.Resize
import Ferrosys.Ext.Materialize
import Ferrosys.Library.Outcome
import Ferrosys.Library.Turns
import Mathlib.Data.Nat.ModEq

/-! The resize inode as a format writes it: a double-indirect map whose indirect blocks are the
primary reserved descriptor blocks, each listing the matching reserved block of every backup group,
and the exact condition under which every word of it has a slot to go in.
-/

namespace Ferrosys.Ext

open Arith Checked Machine Splice

/-- An inode with nothing in it. -/
def Inode.empty : Inode := ⟨0, 0, 0, 0, 0, List.replicate Inode.blockBytes 0⟩

/-- Write a word at `off`, which panics where the buffer ends before it does. -/
def putWord (buf : Bytes) (off word : Nat) : Except (Fault FormatError) Bytes :=
  if off + 4 ≤ buf.length then .ok (putU32 buf off word) else .error .panicked

/-- Write a block number into a slot of a map. -/
def putSlot (map : Bytes) (slot block : Nat) : Except (Fault FormatError) Bytes := do
  let word ← (mapBlock block).mapError .refused
  putWord map (slot * 4) word

namespace Layout

variable (self : Layout)

/-- The `r`-th reserved descriptor block of group 0. -/
def primaryReserved (r : Nat) : Nat := self.firstDataBlock + 1 + self.gdtBlocks + r

/-- The `r`-th reserved descriptor block of a backup group. -/
def backupReserved (group r : Nat) : Nat :=
  self.firstDataBlock + group * self.blocksPerGroup + 1 + self.gdtBlocks + r

/-- The double-indirect slot of the `r`-th reserved descriptor block: its place in the table, modulo
the slots a block holds.
-/
def resizeSlot (r : Nat) : Nat := (self.gdtBlocks + r) % (self.blockSize / 4)

end Layout

namespace Writer

variable (self : Writer)

/-- The `r`-th reserved descriptor block, as an indirect block: the matching block of every backup
group.
-/
def backupMap (layout : Layout) (r : Nat) : Except (Fault FormatError) Bytes :=
  layout.backupGroups.zipIdx.foldlM
    (fun ind (group, j) => putSlot ind j (layout.backupReserved group r))
    (List.replicate self.blockSize 0)

/-- The double-indirect block: every primary reserved descriptor block, in its slot. -/
def primaryMap (layout : Layout) : Except (Fault FormatError) Bytes :=
  (List.range layout.reservedGdtBlocks).foldlM
    (fun dind r => putSlot dind (layout.resizeSlot r) (layout.primaryReserved r))
    (List.replicate self.blockSize 0)

/-- Build the resize inode and write its map, and answer it with the writer as it then stands. -/
def materializeResizeInode (layout : Layout) : Except (Fault FormatError) (Inode × Writer) := do
  let reserved := layout.reservedGdtBlocks
  let backups := layout.backupGroups
  let (dindBlock, writer) ← self.allocateOne.mapError .refused
  let dind ← self.primaryMap layout
  let writer ← (List.range reserved).foldlM
    (fun writer r => do
      let ind ← self.backupMap layout r
      return Writer.writeBlock writer (layout.primaryReserved r) ind)
    (writer.writeBlock dindBlock dind)
  let dataBlocks := 1 + reserved + reserved * backups.length
  let sectors := dataBlocks * self.sectorsPerBlock
  (writer.checkSectors sectors "resize inode").mapError .refused
  let block ← putSlot Inode.empty.block 13 dindBlock
  return ({ Inode.empty with
    mode := 0o100600
    size := resizeInodeSize layout.blockSize
    blocks := sectors
    block := block }, writer)

end Writer

-----------------------------------------------------------------------------------------
-- Writing words
-----------------------------------------------------------------------------------------

/-- A slot inside a map is written without a panic. -/
theorem putSlot_yields {map : Bytes} {slot block : Nat} (inside : slot * 4 + 4 ≤ map.length)
    : Yields (putSlot map slot block) fun after => after.length = map.length := by
  unfold putSlot
  refine (yields_mapError fun _ _ => trivial).bind fun word (_ : True) => ?_
  unfold putWord
  rw [if_pos inside]
  exact yields_ok (length_putU32 ..)

/-- A 32-bit block number is written, or panics past the map's end. -/
theorem putSlot_eq {map : Bytes} {slot block : Nat} (narrow : block < 2 ^ 32)
    : putSlot map slot block
      = if slot * 4 + 4 ≤ map.length then .ok (putU32 map (slot * 4) block)
        else .error .panicked := by
  rw [putSlot, mapBlock, if_pos narrow]
  rfl

/-- Listing more 32-bit block numbers than a map has slots panics, by induction on how many are
left.
-/
theorem putSlots_panics {α : Type} {word : α → Nat} {list : List α} {map : Bytes} {slots first : Nat}
    (sized : map.length = slots * 4) (narrow : ∀ a ∈ list, word a < 2 ^ 32) (here : first ≤ slots)
    (many : slots < first + list.length)
    : (list.zipIdx first).foldlM (fun map (a, slot) => putSlot map slot (word a)) map
      = .error .panicked := by
  induction list generalizing map first with
  | nil =>
      rw [List.length_nil] at many
      omega
  | cons a rest ih =>
      rw [List.length_cons] at many
      rw [List.zipIdx_cons, List.foldlM_cons]
      change (putSlot map first (word a) >>= _) = _
      rw [putSlot_eq (narrow a List.mem_cons_self)]
      by_cases inside : first * 4 + 4 ≤ map.length
      · rw [if_pos inside, ok_bind]
        exact ih (by rwa [length_putU32]) (fun b member => narrow b (List.mem_cons_of_mem _ member))
          (by omega) (by omega)
      · rw [if_neg inside]
        rfl

namespace Writer

variable {self : Writer} {layout : Layout}

/-- Where the backup groups fit an indirect block, and the reserved blocks' slots the
double-indirect one, the map is written without a panic.
-/
theorem materializeResizeInode_yields (same : self.blockSize = layout.blockSize)
    (few : layout.backupGroups.length ≤ layout.blockSize / 4)
    (slots : ∀ r < layout.reservedGdtBlocks, layout.resizeSlot r < layout.blockSize / 4)
    : Yields (self.materializeResizeInode layout) fun _ => True := by
  have sized : (List.replicate self.blockSize (0 : UInt8)).length = layout.blockSize := by
    rw [List.length_replicate, same]
  have primary : Yields (self.primaryMap layout) fun _ => True := by
    refine (@yields_foldlM _ _ _ _ (fun map => map.length = layout.blockSize) _ _
      (fun r member map sized => ?_) sized).mono fun _ _ => trivial
    have inside := slots r (List.mem_range.mp member)
    exact (putSlot_yields (by omega)).mono fun after kept => kept.trans sized
  have backup : ∀ r, Yields (self.backupMap layout r) fun _ => True := by
    intro r
    refine (@yields_foldlM _ _ _ _ (fun map => map.length = layout.blockSize) _ _
      (fun pair member map sized => ?_) sized).mono fun _ _ => trivial
    have inside := List.snd_lt_of_mem_zipIdx member
    exact (putSlot_yields (by omega)).mono fun after kept => kept.trans sized
  unfold materializeResizeInode
  refine (yields_mapError fun _ _ => trivial).bind fun ⟨dindBlock, writer⟩ (_ : True) => ?_
  refine primary.bind fun dind (_ : True) => ?_
  refine (@yields_foldlM _ _ _ _ (fun _ => True) _ _ (fun r _ writer _ => ?_) trivial).bind
    fun writer (_ : True) => ?_
  · exact (backup r).bind fun ind (_ : True) => yields_ok trivial
  refine (yields_mapError fun _ _ => trivial).bind fun _ (_ : True) => ?_
  exact (putSlot_yields (by decide)).bind fun block _ => yields_ok trivial

/-- Where the backup groups do not fit an indirect block and there is one to list them, the format
stops with a panic.
-/
theorem materializeResizeInode_panics (same : self.blockSize = layout.blockSize)
    (words : layout.blockSize % 4 = 0) {taken : Nat × Writer} (free : self.allocateOne = .ok taken)
    (reserves : 0 < layout.reservedGdtBlocks)
    (primary : ∀ r < layout.reservedGdtBlocks, layout.primaryReserved r < 2 ^ 32)
    (slots : ∀ r < layout.reservedGdtBlocks, layout.resizeSlot r < layout.blockSize / 4)
    (backup : ∀ group ∈ layout.backupGroups, layout.backupReserved group 0 < 2 ^ 32)
    (many : layout.blockSize / 4 < layout.backupGroups.length)
    : self.materializeResizeInode layout = .error .panicked := by
  have sized : (List.replicate self.blockSize (0 : UInt8)).length = layout.blockSize := by
    rw [List.length_replicate, same]
  have each : ∀ r < layout.reservedGdtBlocks, ∀ map : Bytes, map.length = layout.blockSize →
      ∃ after, putSlot map (layout.resizeSlot r) (layout.primaryReserved r) = .ok after ∧
        after.length = layout.blockSize := by
    intro r below map sized
    have inside := slots r below
    rw [putSlot_eq (primary r below), if_pos (by omega)]
    exact ⟨_, rfl, (length_putU32 ..).trans sized⟩
  obtain ⟨dind, listed, -⟩ := @foldlM_range_ok _ _ _
    (fun _ (map : Bytes) => map.length = layout.blockSize) _ _ each sized
  change self.primaryMap layout = .ok dind at listed
  have stops : self.backupMap layout 0 = .error .panicked := by
    refine @putSlots_panics _ (fun group => layout.backupReserved group 0) _ _
      (layout.blockSize / 4) 0 (sized.trans ?_) backup (Nat.zero_le _) ?_ <;> omega
  obtain ⟨more, all⟩ : ∃ more, List.range layout.reservedGdtBlocks = 0 :: more := by
    rw [show layout.reservedGdtBlocks = layout.reservedGdtBlocks - 1 + 1 by omega, List.range_succ_eq_map]
    exact ⟨_, rfl⟩
  unfold materializeResizeInode
  rw [free, listed]
  dsimp only [Except.mapError, ok_bind]
  rw [all, List.foldlM_cons, stops]
  rfl

end Writer

-----------------------------------------------------------------------------------------
-- How many groups carry a copy
-----------------------------------------------------------------------------------------

/-- What divides down to one by its base is a power of it, by induction on the divisions. -/
theorem exists_pow_of_isPowerOfLoop {base fuel g : Nat} (pos : 0 < g)
    (power : isPowerOfLoop base fuel g = true) : ∃ k, g = base ^ k := by
  induction fuel generalizing g with
  | zero => cases power
  | succ fuel ih =>
      rw [isPowerOfLoop] at power
      by_cases one : g ≤ 1
      · exact ⟨0, by rw [Nat.pow_zero]; omega⟩
      · rw [if_neg one] at power
        by_cases divides : g % base = 0
        · rw [divides] at power
          have whole := Nat.mul_div_cancel' (Nat.dvd_of_mod_eq_zero divides)
          have left : 0 < g / base := by
            rcases Nat.eq_zero_or_pos (g / base) with none_ | some_
            · rw [none_, Nat.mul_zero] at whole
              omega
            · exact some_
          obtain ⟨k, rest⟩ := ih left power
          exact ⟨k + 1, by rw [Nat.pow_succ', ← rest, whole]⟩
        · rw [if_pos (by simpa using divides)] at power
          cases power

/-- A power below `2 ^ 32` is one of the first. -/
theorem mem_powers {base g most : Nat} (larger : 1 < base) (past : 2 ^ 32 ≤ base ^ most)
    (below : g < 2 ^ 32) (power : isPowerOf g base = true)
    : g ∈ (List.range most).map (base ^ ·) := by
  unfold isPowerOf at power
  split at power
  next => cases power
  next some_ =>
    obtain ⟨k, rfl⟩ := exists_pow_of_isPowerOfLoop (Nat.pos_of_ne_zero some_) power
    refine List.mem_map.mpr ⟨k, List.mem_range.mpr ?_, rfl⟩
    exact (Nat.pow_lt_pow_iff_right larger).mp (below.trans_le past)

/-- Group 1 and the powers of 3, 5 and 7 that a group's index may be. -/
def sparseBackups : List Nat :=
  1 :: ((List.range 21).map (3 ^ ·) ++ (List.range 14).map (5 ^ ·) ++ (List.range 12).map (7 ^ ·))

/-- Every sparse backup group is one of 48. -/
theorem mem_sparseBackups {g : Nat} (below : g < 2 ^ 32) (backup : g ≠ 0)
    (copy : sparseSuperHasCopy g = true) : g ∈ sparseBackups := by
  simp only [sparseSuperHasCopy, Bool.or_eq_true, beq_iff_eq] at copy
  rcases copy with ((((zero | one) | three) | five) | seven)
  · exact absurd zero backup
  · exact one ▸ List.mem_cons_self
  · refine List.mem_cons_of_mem _ (List.mem_append_left _ (List.mem_append_left _ ?_))
    exact mem_powers (by decide) (by decide) below three
  · refine List.mem_cons_of_mem _ (List.mem_append_left _ (List.mem_append_right _ ?_))
    exact mem_powers (by decide) (by decide) below five
  · refine List.mem_cons_of_mem _ (List.mem_append_right _ ?_)
    exact mem_powers (by decide) (by decide) below seven

-----------------------------------------------------------------------------------------
-- A planned layout's resize inode
-----------------------------------------------------------------------------------------

/-- A block is one of the reserved descriptor blocks a group carries, inside the group and narrow
enough for a map's words.
-/
def Layout.Reserves (layout : Layout) (group block : Nat) : Prop :=
  ∃ g, layout.groups[group]? = some g ∧ g.hasSuper = true ∧
    g.startBlock + 1 + layout.gdtBlocks ≤ block ∧
    block < g.startBlock + superOverhead layout.gdtBlocks layout.reservedGdtBlocks ∧
    block < g.range.stop ∧ block < 2 ^ 32

/-- The resize inode's map holds: the backup groups fit an indirect block and the reserved blocks'
slots the double-indirect one, each slot once; every block listed is a reserved descriptor block of
its group; and building it never panics.
-/
structure Layout.ResizeSafe (layout : Layout) : Prop where
  few : layout.backupGroups.length ≤ layout.blockSize / 4
  slots : ∀ r < layout.reservedGdtBlocks, layout.resizeSlot r < layout.blockSize / 4
  once : ∀ r < layout.reservedGdtBlocks, ∀ r' < layout.reservedGdtBlocks,
    layout.resizeSlot r = layout.resizeSlot r' → r = r'
  primary : ∀ r < layout.reservedGdtBlocks, layout.Reserves 0 (layout.primaryReserved r)
  backup : ∀ group ∈ layout.backupGroups, ∀ r < layout.reservedGdtBlocks,
    layout.Reserves group (layout.backupReserved group r)
  runs : ∀ writer : Writer, writer.blockSize = layout.blockSize →
    writer.materializeResizeInode layout ≠ .error .panicked

/-- The backup groups of `groups` groups. -/
def PlanRequest.backups (request : PlanRequest) (groups : Nat) : List Nat :=
  (List.range groups).filter fun index => request.hasSuper index && index != 0

/-- Sparse copies are few, and copies in every group are all but one. -/
theorem PlanRequest.length_backups_le_iff {request : PlanRequest} {groups most : Nat}
    (narrow : groups ≤ 2 ^ 32) (least : 48 ≤ most)
    : (request.backups groups).length ≤ most
      ↔ request.feature.isSparseSuper = true ∨ groups ≤ most + 1 := by
  have distinct : (request.backups groups).Nodup := List.nodup_range.filter _
  cases sparse : request.feature.isSparseSuper with
  | true =>
      refine ⟨fun _ => .inl rfl, fun _ => ?_⟩
      have among : request.backups groups ⊆ sparseBackups := by
        intro index member
        obtain ⟨below, copy⟩ := List.mem_filter.mp member
        simp only [hasSuper, sparse, Bool.not_true, Bool.false_or, Bool.and_eq_true,
          bne_iff_ne] at copy
        exact mem_sparseBackups ((List.mem_range.mp below).trans_le narrow) copy.2 copy.1
      exact (List.subperm_of_subset distinct among).length_le.trans least
  | false =>
      have all : request.backups groups = (List.range groups).filter (· != 0) := by
        refine List.filter_congr fun index _ => ?_
        rw [hasSuper, sparse]
        rfl
      have count : (request.backups groups).length = groups - 1 := by
        rw [all]
        cases groups with
        | zero => rfl
        | succ groups =>
            have rest : ((List.range groups).map Nat.succ).filter (· != 0)
                = (List.range groups).map Nat.succ := by
              refine List.filter_eq_self.mpr fun index member => ?_
              obtain ⟨_, _, rfl⟩ := List.mem_map.mp member
              rfl
            rw [List.range_succ_eq_map, List.filter_cons_of_neg (by decide), rest, List.length_map,
              List.length_range]
            rfl
      rw [count]
      refine ⟨fun few => .inr (by omega), ?_⟩
      rintro (⟨⟨⟩⟩ | few)
      omega

namespace Planned

variable {request : PlanRequest} {layout : Layout}

/-- What placing tables leaves alone is what the groups were ranged with. -/
theorem map_groups (plan : Planned request layout) {α : Type} {field : GroupLayout → α}
    (kept : ∀ g at_, field (g.place at_) = field g)
    : layout.groups.map field
      = (List.range (request.groupsFor request.keptBlocks)).map fun index =>
          field (groupRange request request.keptBlocks index) := by
  rw [plan.layout_eq_placed, Layout.map_groups_placed kept (PlanRequest.placements_length _ _),
    PlanRequest.groups_unplacedAt, List.map_map]
  rfl

/-- The backup groups are the groups with a copy, but the first. -/
theorem backupGroups_eq (plan : Planned request layout)
    : layout.backupGroups = request.backups (request.groupsFor request.keptBlocks) := by
  have fields := @map_groups _ _ plan _ (fun g => (g.hasSuper, g.index)) fun _ _ => rfl
  have picked : layout.backupGroups
      = ((layout.groups.map fun g => (g.hasSuper, g.index)).filter fun field =>
          field.1 && field.2 != 0).map Prod.snd := by
    rw [List.filter_map, List.map_map]
    rfl
  rw [picked, fields, List.filter_map, List.map_map, PlanRequest.backups]
  exact List.map_id _

/-- A group of the plan, as it was ranged. -/
theorem exists_group (plan : Planned request layout) {index : Nat}
    (bound : index < request.groupsFor request.keptBlocks)
    : ∃ g, layout.groups[index]? = some g ∧ g.hasSuper = request.hasSuper index ∧
        g.range = (groupRange request request.keptBlocks index).range := by
  have fields := @map_groups _ _ plan _ (fun g => (g.hasSuper, g.range)) fun _ _ => rfl
  have here := congrArg (·[index]?) fields
  simp only [List.getElem?_map, List.getElem?_range bound, Option.map_some] at here
  obtain ⟨g, found, same⟩ := Option.map_eq_some_iff.mp here
  obtain ⟨copy, range⟩ := Prod.mk.inj same
  exact ⟨g, found, copy, range⟩

/-- Where a plan reserves descriptor blocks, 32 bits name every block of it. -/
theorem keptBlocks_le_of_reserves (plan : Planned request layout)
    (reserves : 0 < request.reservedAt request.keptBlocks)
    : request.keptBlocks ≤ max32BitBlocks := by
  refine (keptBlocks_le request).trans ?_
  have checked := plan.admits.reserved
  by_contra past
  cases grow : request.grow with
  | none =>
      simp only [PlanRequest.reservedAt, PlanRequest.reservedWanted, grow] at reserves
      exact absurd reserves (Nat.lt_irrefl 0)
  | upTo bytes =>
      simp only [PlanRequest.checkReserved, grow, bind_unit_eq_ok, refuseIf_eq_ok] at checked
      simp [reserves, PlanRequest.reservationRepresentable, past] at checked
  | max =>
      simp [PlanRequest.reservedAt, PlanRequest.reservedWanted, grow, PlanRequest.canReserve,
        PlanRequest.reservationRepresentable, past] at reserves

/-- A reserved descriptor block of a group that carries a copy is in the group and narrow. -/
theorem reserves (plan : Planned request layout) {group r : Nat}
    (bound : group < request.groupsFor request.keptBlocks) (copy : request.hasSuper group = true)
    (below : r < layout.reservedGdtBlocks) : layout.Reserves group (layout.backupReserved group r) := by
  obtain ⟨g, found, carries, range⟩ := plan.exists_group bound
  have start : g.startBlock = request.firstDataBlock + group * request.blocksPerGroup :=
    congrArg Spans.Span.start range
  have fits := plan.superOverheadLen_le bound
  rw [PlanRequest.unplacedAt_superOverheadLen bound, if_pos copy] at fits
  have blocks : layout.blocksPerGroup = request.blocksPerGroup := by
    rw [plan.layout_eq_placed]
    rfl
  have tiles : (groupRange request request.keptBlocks group).range.stop ≤ request.keptBlocks := by
    have first := (PlanRequest.lt_groupsFor_iff plan.sized plan.room).mp bound
    change _ + (min _ _ - _) ≤ _
    simp only [GroupLayout.range, groupRange]
    omega
  rw [plan.layout_reservedGdtBlocks] at below
  have most := plan.keptBlocks_le_of_reserves (by omega)
  have stop : g.range.stop = (groupRange request request.keptBlocks group).range.stop :=
    congrArg Spans.Span.stop range
  have spans : (groupRange request request.keptBlocks group).range.stop
      = request.firstDataBlock + group * request.blocksPerGroup
        + (groupRange request request.keptBlocks group).blockCount := rfl
  have words : max32BitBlocks < 2 ^ 32 := by decide
  simp only [PlanRequest.copyLenAt, superOverhead] at fits
  refine ⟨g, found, carries.trans copy, ?_, ?_, ?_, ?_⟩ <;>
    simp only [Layout.backupReserved, superOverhead, plan.layout_firstDataBlock, blocks,
      plan.layout_gdtBlocks, plan.layout_reservedGdtBlocks] <;> omega

/-- What the plan reserves is narrow, in slots of its own, and of the groups it is listed for. -/
theorem resizeSafe_of_few (plan : Planned request layout)
    (few : layout.backupGroups.length ≤ layout.blockSize / 4) : layout.ResizeSafe := by
  have limit := plan.reservedAt_le
  rw [PlanRequest.reservedLimit, ← plan.layout_blockSize, ← plan.layout_reservedGdtBlocks] at limit
  have slots : ∀ r < layout.reservedGdtBlocks, layout.resizeSlot r < layout.blockSize / 4 :=
    fun r below => Nat.mod_lt _ (by omega)
  refine ⟨few, slots, ?_, ?_, ?_, fun writer same => ?_⟩
  · intro r below r' below' same
    unfold Layout.resizeSlot at same
    have close : ∀ a b, a < layout.blockSize / 4 → b < layout.blockSize / 4 →
        (layout.gdtBlocks + a) % (layout.blockSize / 4)
          = (layout.gdtBlocks + b) % (layout.blockSize / 4) → a = b := by
      intro a b small small' same
      have equal := Nat.ModEq.add_left_cancel' layout.gdtBlocks same
      rwa [Nat.ModEq, Nat.mod_eq_of_lt small, Nat.mod_eq_of_lt small'] at equal
    exact close r r' (by omega) (by omega) same
  · intro r below
    have first := plan.reserves (groupsFor_pos _ _) request.hasSuper_zero below
    rwa [Layout.backupReserved, Nat.zero_mul, Nat.add_zero] at first
  · intro group member r below
    rw [plan.backupGroups_eq] at member
    obtain ⟨bound, copy⟩ := List.mem_filter.mp member
    rw [Bool.and_eq_true] at copy
    exact plan.reserves (List.mem_range.mp bound) copy.1 below
  · exact (Writer.materializeResizeInode_yields same few slots).1

end Planned

/-- A planned layout's resize inode holds exactly where its superblock copies are sparse, or its
groups are at most one more than the words of a block: nothing else bounds how many backups an
indirect block is to list.
-/
theorem planLayout_resizeSafe_iff {request : PlanRequest} {layout : Layout}
    (planned : planLayout request = .ok layout)
    : layout.ResizeSafe
      ↔ request.feature.isSparseSuper = true ∨ layout.groupCount ≤ layout.blockSize / 4 + 1 := by
  have plan := planLayout_ok planned
  have least : 48 ≤ layout.blockSize / 4 := by
    rw [plan.layout_blockSize]
    rcases plan.sized.block with size | size | size <;> omega
  have narrow := plan.admits.groups
  have count := @PlanRequest.length_backups_le_iff request (request.groupsFor request.keptBlocks)
    (layout.blockSize / 4) (by omega) least
  rw [plan.layout_groupCount, ← count, ← plan.backupGroups_eq]
  exact ⟨Layout.ResizeSafe.few, plan.resizeSafe_of_few⟩

/-- Witness: a default filesystem of 64 MiB. -/
theorem planLayout_resizeSafe_of_64MiB
    : ∃ layout, planLayout (.new (64 * 1024 * 1024) .default) = .ok layout ∧ layout.ResizeSafe := by
  obtain ⟨layout, planned⟩ :=
    exists_eq_ok (planLayout (.new (64 * 1024 * 1024) .default)) (by decide +kernel)
  exact ⟨layout, planned, (planLayout_resizeSafe_iff planned).mpr (.inl (by decide +kernel))⟩

/-- An ext2 filesystem of 258 groups whose superblock copies are in every one of them. -/
def copiedRequest : PlanRequest where
  sizeBytes := 258 * 8192 * 1024
  feature := { FeatureSet.ext2 with roCompat := RoCompat.largeFile, blockSize := 1024 }
  grow := .max
  inodes := .auto
  reserved := ReservedRatio.default

/-- The planner accepts the filesystem with a copy in every group, and a format of it panics as it
lists the backup groups.
-/
theorem planLayout_copied
    : ∃ layout, planLayout copiedRequest = .ok layout ∧ layout.feature.hasResizeInode = true ∧
        ¬ layout.ResizeSafe ∧
        ∀ writer : Writer, writer.blockSize = layout.blockSize →
          (∃ taken, writer.allocateOne = .ok taken) →
          writer.materializeResizeInode layout = .error .panicked := by
  obtain ⟨layout, planned⟩ := exists_eq_ok (planLayout copiedRequest) (by decide +kernel)
  have plan := planLayout_ok planned
  have sized : layout.blockSize = 1024 := plan.layout_blockSize
  have groups : layout.groupCount = 258 := by
    rw [plan.layout_groupCount]
    decide +kernel
  have reserved : layout.reservedGdtBlocks = 256 := by
    rw [plan.layout_reservedGdtBlocks]
    decide +kernel
  have count := @PlanRequest.length_backups_le_iff copiedRequest
    (copiedRequest.groupsFor copiedRequest.keptBlocks) 256 (by decide +kernel) (by decide)
  rw [← plan.layout_groupCount, groups] at count
  have many : 256 < layout.backupGroups.length := by
    rw [plan.backupGroups_eq, ← plan.layout_groupCount, groups]
    by_contra few
    exact absurd (count.mp (not_lt.mp few)) (by decide +kernel)
  refine ⟨layout, planned, ?_, fun safe => ?_, fun writer same ⟨taken, free⟩ => ?_⟩
  · rw [plan.layout_feature]
    decide +kernel
  · have few := safe.few
    omega
  · refine Writer.materializeResizeInode_panics same (by omega) free (by omega) ?_ ?_ ?_ (by omega)
    · intro r below
      have first := plan.reserves (Planned.groupsFor_pos _ _) copiedRequest.hasSuper_zero below
      obtain ⟨_, _, _, _, _, _, narrow⟩ := first
      rwa [Layout.backupReserved, Nat.zero_mul, Nat.add_zero] at narrow
    · intro r _
      exact Nat.mod_lt _ (by omega)
    · intro group member
      rw [plan.backupGroups_eq] at member
      obtain ⟨bound, copy⟩ := List.mem_filter.mp member
      rw [Bool.and_eq_true] at copy
      obtain ⟨_, _, _, _, _, _, narrow⟩ :=
        plan.reserves (List.mem_range.mp bound) copy.1 (show 0 < layout.reservedGdtBlocks by omega)
      exact narrow

end Ferrosys.Ext
