import Ferrosys.Library.Arith
import Ferrosys.Library.Spans
import Ferrosys.Ext.Feature

/-! The geometry planner: from a size, a feature set and the sizing knobs to a complete
layout. Every `u64` and `u32` of the source is a natural number here: the block count is at
most 2^48 once its bound is checked, so no sum or product the planner forms leaves 64 bits,
and each narrowing to `u32` follows a check that makes it exact.
-/

namespace Ferrosys.Ext

open Arith Checked Spans

abbrev BlockRange := Span

inductive GeometryError where
  | tooSmall (blocks overhead reservedGdtBlocks : Nat)
  | growTargetTooSmall (target initial : Nat)
  | growTargetTooLarge (needed limit : Nat)
  | reservationNeeds32BitBlocks (blocks limit : Nat)
  | growTargetNeedsResizeInode
  | tooManyGroups (blocks groups limit : Nat)
  | descriptorsExceedGroup (blocks groups overhead blocksPerGroup : Nat)
  | tooManyInodes (blocks inodes limit : Nat)
  | inodesTooDense (inodesPerGroup limit : Nat)
  | blockCountNeeds64Bit (blocks limit : Nat)
  | blockCountTooLarge (blocks limit : Nat)
  | finalGroupTooSmall (blocks overhead : Nat)
  | feature (error : FeatureError)
deriving DecidableEq

/-- The placement of one block group. -/
structure GroupLayout where
  index : Nat
  startBlock : Nat
  blockCount : Nat
  hasSuper : Bool
  blockBitmap : Nat
  inodeBitmap : Nat
  inodeTable : Nat
deriving DecidableEq

/-- A complete filesystem layout. -/
structure Layout where
  feature : FeatureSet
  blockSize : Nat
  totalBlocks : Nat
  blocksPerGroup : Nat
  firstDataBlock : Nat
  groupCount : Nat
  inodesPerGroup : Nat
  inodeTableBlocks : Nat
  totalInodes : Nat
  gdtBlocks : Nat
  reservedGdtBlocks : Nat
  flexBgSize : Nat
  maxGrowBlocks : Nat
  reservedBlocks : Nat
  groups : List GroupLayout
deriving DecidableEq

def max32BitBlocks : Nat := 2 ^ 32 - 1
def maxExtentBlocks : Nat := 2 ^ 48
def growMaxShare : Nat := 64
def minInodesPerGroup : Nat := 8

def superOverhead (gdtBlocks reservedGdtBlocks : Nat) : Nat :=
  1 + gdtBlocks + reservedGdtBlocks

-----------------------------------------------------------------------------------------
-- What a layout answers
-----------------------------------------------------------------------------------------

namespace Layout

variable (self : Layout)

def isFlexHead (index : Nat) : Bool := index % self.flexBgSize == 0

def flexMembers (head : Nat) : Nat := min (self.groupCount - head) self.flexBgSize

def flexSlots (head : Nat) : Nat :=
  if self.flexMembers head = 1 then self.flexBgSize else self.flexMembers head

def flexMetaSpan (head : Nat) : Nat :=
  2 * self.flexSlots head + self.flexMembers head * self.inodeTableBlocks

/-- The superblock-and-descriptor run at the start of group `index`, if it carries one. -/
def superOverheadRegion (index : Nat) : Option BlockRange :=
  match self.groups[index]? with
  | none => none
  | some g =>
      if g.hasSuper then
        some ⟨g.startBlock, superOverhead self.gdtBlocks self.reservedGdtBlocks⟩
      else
        none

/-- The first block of group `index`, zero past the last group. -/
def startOf (index : Nat) : Nat := ((self.groups[index]?).map GroupLayout.startBlock).getD 0

/-- The blocks group `index` loses to its superblock and descriptor copies. -/
def superOverheadLen (index : Nat) : Nat :=
  ((self.superOverheadRegion index).map Span.len).getD 0

def backupGroups : List Nat :=
  (self.groups.filter fun g => g.hasSuper && g.index != 0).map GroupLayout.index

/-- The fixed metadata of one group. -/
def groupRegions (g : GroupLayout) : List BlockRange :=
  (self.superOverheadRegion g.index).toList
    ++ [⟨g.blockBitmap, 1⟩, ⟨g.inodeBitmap, 1⟩, ⟨g.inodeTable, self.inodeTableBlocks⟩]

/-- Every block fixed metadata occupies, as runs sorted by their first block. -/
def metadataRegions : List BlockRange :=
  (self.groups.flatMap self.groupRegions).mergeSort fun a b => a.start ≤ b.start

def overheadBlocks : Nat := (self.metadataRegions.map Span.len).sum

end Layout

-----------------------------------------------------------------------------------------
-- Pure rules the planner applies
-----------------------------------------------------------------------------------------

/-- Divide `base` out of `g` while it divides; `fuel` bounds the divisions. -/
def isPowerOfLoop (base : Nat) : Nat → Nat → Bool
  | 0, _ => false
  | fuel + 1, g =>
      if g ≤ 1 then true
      else if g % base != 0 then false
      else isPowerOfLoop base fuel (g / base)

/-- `g` is a power of `base`. Each division by a base of two or more shortens `g`, so `g`
rounds are enough.
-/
def isPowerOf (g base : Nat) : Bool :=
  if g = 0 then false else isPowerOfLoop base (g + 1) g

def sparseSuperHasCopy (g : Nat) : Bool :=
  g == 0 || g == 1 || isPowerOf g 3 || isPowerOf g 5 || isPowerOf g 7

/-- The bytes-per-inode ratio for a filesystem size. -/
def inodeRatio (totalBlocks blockSize : Nat) : Nat :=
  let meg := 1024 * 1024 / blockSize
  if totalBlocks < 3 * meg then 8192
  else if totalBlocks < 512 * meg then 4096
  else if totalBlocks < 4 * 1024 * 1024 * meg then 16384
  else if totalBlocks < 16 * 1024 * 1024 * meg then 32768
  else 65536

def gdtBlocksFor (groups descSize blockSize : Nat) : Nat :=
  divCeil groups (blockSize / descSize)

inductive GrowReservation where
  | none
  | upTo (bytes : Nat)
  | max
deriving DecidableEq

inductive InodeCount where
  | auto
  | bytesPerInode (bytes : { n : Nat // n ≠ 0 })
  | count (count : Nat)
deriving DecidableEq

/-- A share in hundredths of one percent, at most half. -/
structure ReservedRatio where
  hundredthsOfPercent : Nat
  atMostHalf : hundredthsOfPercent ≤ 5000
deriving DecidableEq

def ReservedRatio.default : ReservedRatio := ⟨500, by decide⟩

def ReservedRatio.blocks (self : ReservedRatio) (totalBlocks : Nat) : Nat :=
  totalBlocks * self.hundredthsOfPercent / 10000

/-- Everything the planner needs. -/
structure PlanRequest where
  sizeBytes : Nat
  feature : FeatureSet
  grow : GrowReservation
  inodes : InodeCount
  reserved : ReservedRatio
deriving DecidableEq

def PlanRequest.new (sizeBytes : Nat) (feature : FeatureSet) : PlanRequest where
  sizeBytes := sizeBytes
  feature := feature
  grow := .max
  inodes := .auto
  reserved := ReservedRatio.default

/-- A run of `len` blocks from `start` would meet window `w`. -/
def meets (start len : Nat) (w : BlockRange) : Bool :=
  w.start < start + len && start < w.stop

/-- The furthest end of any window. -/
def lastStop (windows : List BlockRange) : Nat :=
  windows.foldr (fun w last => max w.stop last) 0

theorem stop_le_lastStop {windows : List BlockRange} {w : BlockRange} (member : w ∈ windows)
    : w.stop ≤ lastStop windows := by
  induction windows with
  | nil => simp at member
  | cons head rest ih =>
      rcases List.mem_cons.mp member with rfl | later
      · exact Nat.le_max_left _ _
      · exact (ih later).trans (Nat.le_max_right _ _)

/-- The restart loop of `firstFit`: a window the run meets moves the start past its end, so
the distance left to the last window shrinks.
-/
def firstFitLoop (len : Nat) (windows : List BlockRange)
    : (fuel start : Nat) → lastStop windows - start < fuel → Nat
  | 0, _, enough => absurd enough (Nat.not_lt_zero _)
  | fuel + 1, start, enough =>
      match hit : windows.find? (meets start len) with
      | none => start
      | some w =>
          firstFitLoop len windows fuel w.stop <| by
            have met := List.find?_some hit
            have reach := stop_le_lastStop (List.mem_of_find?_eq_some hit)
            simp only [meets, Bool.and_eq_true, decide_eq_true_eq] at met
            omega

/-- The first block at or after `start` where `len` blocks clear every window. -/
def firstFit (start len : Nat) (windows : List BlockRange) : Nat :=
  firstFitLoop len windows (lastStop windows - start + 1) start (Nat.lt_succ_self _)

-----------------------------------------------------------------------------------------
-- Sizing: one pass of the loop that settles groups, descriptors and inodes
-----------------------------------------------------------------------------------------

namespace PlanRequest

variable (self : PlanRequest)

def totalBlocks : Nat := self.sizeBytes / self.feature.blockSize
def firstDataBlock : Nat := if self.feature.blockSize = 1024 then 1 else 0
def blocksPerGroup : Nat := 8 * self.feature.blockSize
def reservedLimit : Nat := self.feature.blockSize / 4
def inodeCap : Nat := 8 * self.feature.blockSize
def reservationRepresentable : Bool := self.totalBlocks ≤ max32BitBlocks
def canReserve : Bool := self.feature.hasResizeInode && self.reservationRepresentable

/-- Descriptor-table blocks of a filesystem of `groups` groups. -/
def gdtFor (groups : Nat) : Nat :=
  gdtBlocksFor groups self.feature.descSize self.feature.blockSize

/-- Groups a filesystem of `blocks` blocks has; below one full block it plans as one. -/
def groupsFor (blocks : Nat) : Nat :=
  max (divCeil (blocks - self.firstDataBlock) self.blocksPerGroup) 1

/-- The descriptor table a grow target of `bytes` aims to fill. -/
def upToGdt (bytes : Nat) : Nat :=
  self.gdtFor
    (divCeil (bytes / self.feature.blockSize - self.firstDataBlock) self.blocksPerGroup)

/-- The descriptor table that reaches the resize inode's own ceiling. -/
def ceilingGdt : Nat :=
  self.gdtFor (divCeil (max32BitBlocks - self.firstDataBlock) self.blocksPerGroup)

def inodeCountFor (blocks : Nat) : Nat :=
  max
    (match self.inodes with
      | .auto => blocks * self.feature.blockSize / inodeRatio blocks self.feature.blockSize
      | .bytesPerInode bytes => blocks * self.feature.blockSize / bytes.val
      | .count count => count)
    16

/-- Reserved descriptor blocks past a live table of `gdt`, at a size of `blocks`. -/
def reservedWanted (blocks gdt : Nat) : Nat :=
  match self.grow with
  | .none => 0
  | .upTo bytes => self.upToGdt bytes - gdt
  | .max =>
      if !self.canReserve then 0
      else
        min
          (min (min self.reservedLimit (self.ceilingGdt - gdt)) (blocks / growMaxShare))
          (self.blocksPerGroup - (1 + gdt))

/-- The refusals an explicit grow target may meet. -/
def checkReserved (blocks want : Nat) : Except GeometryError Unit :=
  match self.grow with
  | .none | .max => .ok ()
  | .upTo _ => do
      refuseIf (want > 0 && !self.feature.hasResizeInode) .growTargetNeedsResizeInode
      refuseIf (want > 0 && !self.reservationRepresentable)
        (.reservationNeeds32BitBlocks blocks max32BitBlocks)
      refuseIf (want > self.reservedLimit) (.growTargetTooLarge want self.reservedLimit)

/-- A group's share of the inodes, before rounding. -/
def inodeShare (blocks groups : Nat) : Nat := divCeil (self.inodeCountFor blocks) groups

/-- A group's inodes: whole table blocks, then a multiple of eight, never under eight. -/
def inodesPerGroupFor (blocks groups : Nat) : Nat :=
  let ipb := self.feature.inodesPerBlock
  max (divCeil (self.inodeShare blocks groups) ipb * ipb / 8 * 8) minInodesPerGroup

def hasSuper (index : Nat) : Bool :=
  !self.feature.isSparseSuper || sparseSuperHasCopy index

/-- Sixteen groups per flex block group. -/
def flexBgSize : Nat := 16

/-- Metadata blocks the final group must hold, by its position. -/
def requiredInLast (groups gdt reserved itb : Nat) : Nat :=
  let last := groups - 1
  (if self.hasSuper last then 1 + gdt + reserved else 0)
    + (if self.feature.hasFlexBg then
        if last % flexBgSize = 0 then
          let members := groups - last
          let slots := if members = 1 then flexBgSize else members
          2 * slots + members * itb
        else
          0
      else
        2 + itb)

end PlanRequest

/-- What the sizing loop settles. -/
structure Sizing where
  totalBlocks : Nat
  groupCount : Nat
  gdtBlocks : Nat
  reservedGdtBlocks : Nat
  inodesPerGroup : Nat
  inodeTableBlocks : Nat
deriving DecidableEq

/-- How a pass of the sizing loop ends: with the sizes, or with a smaller block count to
size again.
-/
inductive SizingStep (blocks : Nat) where
  | again (kept : Nat) (smaller : kept < blocks)
  | done (sizing : Sizing)

/-- One pass: size groups, descriptors and inodes for `blocks`, and drop a partial final
group that cannot hold the metadata its position assigns it.
-/
def sizingPass (request : PlanRequest) (blocks : Nat)
    : Except GeometryError (SizingStep blocks) := do
  let bpg := request.blocksPerGroup
  let addressable := blocks - request.firstDataBlock
  let groups := request.groupsFor blocks
  refuseIf (groups > 2 ^ 32 - 1) (.tooManyGroups blocks groups (2 ^ 32 - 1))
  let gdt := request.gdtFor groups
  let reserved := request.reservedWanted blocks gdt
  request.checkReserved blocks reserved
  refuseIf (groups ≥ 2 && 1 + gdt + reserved > bpg)
    (.descriptorsExceedGroup blocks groups (1 + gdt + reserved) bpg)
  refuseIf (request.inodeShare blocks groups > request.inodeCap)
    (.inodesTooDense (request.inodeShare blocks groups) request.inodeCap)
  let ipg := request.inodesPerGroupFor blocks groups
  let itb := ipg / request.feature.inodesPerBlock
  let rem := addressable % bpg
  if drop : groups ≥ 2 ∧ rem ≠ 0 ∧ rem < request.requiredInLast groups gdt reserved itb + 1 then
    return .again (blocks - rem) (by
      have : rem ≤ blocks := (Nat.mod_le _ _).trans (Nat.sub_le _ _)
      omega)
  else
    return .done
      {
        totalBlocks := blocks
        groupCount := groups
        gdtBlocks := gdt
        reservedGdtBlocks := reserved
        inodesPerGroup := ipg
        inodeTableBlocks := itb
      }

/-- The sizing loop. A pass that drops the final group shortens the filesystem, so the
passes end.
-/
def sizingLoop (request : PlanRequest)
    : (fuel blocks : Nat) → blocks < fuel → Except GeometryError Sizing
  | 0, _, enough => absurd enough (Nat.not_lt_zero _)
  | fuel + 1, blocks, enough =>
      match sizingPass request blocks with
      | .error error => .error error
      | .ok (.done sizing) => .ok sizing
      | .ok (.again kept smaller) => sizingLoop request fuel kept (by omega)

-----------------------------------------------------------------------------------------
-- Placement
-----------------------------------------------------------------------------------------

/-- The first pass over the groups: block ranges and superblock copies. -/
def groupRange (request : PlanRequest) (totalBlocks index : Nat) : GroupLayout :=
  let startBlock := request.firstDataBlock + index * request.blocksPerGroup
  let endBlock := min (startBlock + request.blocksPerGroup) totalBlocks
  {
    index := index
    startBlock := startBlock
    blockCount := endBlock - startBlock
    hasSuper := request.hasSuper index
    blockBitmap := 0
    inodeBitmap := 0
    inodeTable := 0
  }

/-- Where one group's bitmaps and inode table go. -/
structure Placement where
  blockBitmap : Nat
  inodeBitmap : Nat
  inodeTable : Nat
deriving DecidableEq

def GroupLayout.place (g : GroupLayout) (at_ : Placement) : GroupLayout :=
  {
    g with
    blockBitmap := at_.blockBitmap
    inodeBitmap := at_.inodeBitmap
    inodeTable := at_.inodeTable
  }

/-- Place `count` runs of `len` blocks one after another from `cursor`, each clear of every
window. Answers their first blocks and the cursor past the last.
-/
def placeEach (windows : List BlockRange) (len : Nat) : Nat → Nat → List Nat × Nat
  | 0, cursor => ([], cursor)
  | count + 1, cursor =>
      let at_ := firstFit cursor len windows
      let (rest, past) := placeEach windows len count (at_ + len)
      (at_ :: rest, past)

/-- Pack the bitmaps and tables of the flex block group headed by `head`. -/
def placeHead (layout : Layout) (backups : List BlockRange) (head placedEnd : Nat)
    : List Placement × Nat :=
  let members := layout.flexMembers head
  let slots := layout.flexSlots head
  let (blockBitmaps, cursor) :=
    placeEach backups 1 members
      (max (layout.startOf head + layout.superOverheadLen head) placedEnd)
  let (inodeBitmaps, cursor) :=
    placeEach backups 1 members (max cursor (blockBitmaps.headD 0 + slots))
  let (tables, cursor) :=
    placeEach backups layout.inodeTableBlocks members
      (max cursor (inodeBitmaps.headD 0 + slots))
  (List.zipWith (fun b rest => ⟨b, rest.1, rest.2⟩) blockBitmaps (inodeBitmaps.zip tables),
    cursor)

/-- The loop over flex heads, each beginning no earlier than the last ended. -/
def placeFlex (layout : Layout) (backups : List BlockRange)
    : List Nat → Nat → List Placement × Nat
  | [], placedEnd => ([], placedEnd)
  | head :: heads, placedEnd =>
      let (placed, cursor) := placeHead layout backups head placedEnd
      let (rest, past) := placeFlex layout backups heads cursor
      (placed ++ rest, past)

/-- The groups that head a flex block group: every sixteenth. -/
def flexHeads (layout : Layout) : List Nat :=
  (List.range (divCeil layout.groupCount layout.flexBgSize)).map (· * layout.flexBgSize)

/-- The block-mapped family: each group holds its own bitmaps and table after its overhead.
-/
def placeBlockMapped (layout : Layout) (g : GroupLayout) : Placement :=
  let base := g.startBlock + layout.superOverheadLen g.index
  ⟨base, base + 1, base + 2⟩

/-- The second pass: where every group's bitmaps and table go, and where the last ends. -/
def placements (layout : Layout) : List Placement × Nat :=
  if layout.feature.hasFlexBg then
    let backups := (List.range layout.groupCount).filterMap layout.superOverheadRegion
    placeFlex layout backups (flexHeads layout) 0
  else
    let placed := layout.groups.map (placeBlockMapped layout)
    (placed, ((placed.getLast?).map (·.inodeTable + layout.inodeTableBlocks)).getD 0)

/-- Metadata the final group must physically hold. -/
def lastOverhead (layout : Layout) : Nat :=
  let last := layout.groupCount - 1
  layout.superOverheadLen last
    + (if layout.feature.hasFlexBg then
        if layout.isFlexHead last then layout.flexMetaSpan last else 0
      else
        2 + layout.inodeTableBlocks)

/-- The tables group 0 physically holds. -/
def group0Tables (request : PlanRequest) (sizing : Sizing) : Nat :=
  if request.feature.hasFlexBg then
    let members := min sizing.groupCount PlanRequest.flexBgSize
    let slots := if members = 1 then PlanRequest.flexBgSize else members
    2 * slots + members * sizing.inodeTableBlocks
  else
    2 + sizing.inodeTableBlocks

/-- The size the reservation reaches. -/
def maxGrowBlocks (request : PlanRequest) (sizing : Sizing) : Nat :=
  match request.grow with
  | .none => sizing.totalBlocks
  | .upTo bytes => bytes / request.feature.blockSize
  | .max =>
      let perBlock := request.feature.blockSize / request.feature.descSize
      let describable := (sizing.gdtBlocks + sizing.reservedGdtBlocks) * perBlock
      max (min (describable * request.blocksPerGroup + request.firstDataBlock) max32BitBlocks)
        sizing.totalBlocks

/-- The layout after the first pass, its bitmaps and tables not yet placed. -/
def unplacedLayout (request : PlanRequest) (sizing : Sizing) : Layout where
  feature := request.feature
  blockSize := request.feature.blockSize
  totalBlocks := sizing.totalBlocks
  blocksPerGroup := request.blocksPerGroup
  firstDataBlock := request.firstDataBlock
  groupCount := sizing.groupCount
  inodesPerGroup := sizing.inodesPerGroup
  inodeTableBlocks := sizing.inodeTableBlocks
  totalInodes := sizing.inodesPerGroup * sizing.groupCount
  gdtBlocks := sizing.gdtBlocks
  reservedGdtBlocks := sizing.reservedGdtBlocks
  flexBgSize := PlanRequest.flexBgSize
  maxGrowBlocks := maxGrowBlocks request sizing
  reservedBlocks := request.reserved.blocks sizing.totalBlocks
  groups := (List.range sizing.groupCount).map (groupRange request sizing.totalBlocks)

/-- The refusals made before anything is sized. -/
def checkSize (request : PlanRequest) : Except GeometryError Unit := do
  match request.grow with
  | .upTo bytes =>
      refuseIf (bytes / request.feature.blockSize < request.totalBlocks)
        (.growTargetTooSmall (bytes / request.feature.blockSize) request.totalBlocks)
  | .none | .max => .ok ()
  refuseIf (!request.feature.is64bit && request.totalBlocks > max32BitBlocks)
    (.blockCountNeeds64Bit request.totalBlocks max32BitBlocks)
  refuseIf (request.totalBlocks > maxExtentBlocks)
    (.blockCountTooLarge request.totalBlocks maxExtentBlocks)

/-- The layout with every group's bitmaps and table placed. -/
def Layout.placed (layout : Layout) : Layout :=
  { layout with groups := List.zipWith GroupLayout.place layout.groups (placements layout).1 }

/-- The blocks of the final group. -/
def Layout.lastBlocks (layout : Layout) : Nat :=
  ((layout.groups[layout.groupCount - 1]?).map GroupLayout.blockCount).getD 0

/-- Plan the complete layout. -/
def planLayout (request : PlanRequest) : Except GeometryError Layout := do
  request.feature.validate.mapError .feature
  checkSize request
  let sizing ← sizingLoop request (request.totalBlocks + 1) request.totalBlocks
    (Nat.lt_succ_self _)
  refuseIf (sizing.inodesPerGroup * sizing.groupCount > 2 ^ 32 - 1)
    (.tooManyInodes sizing.totalBlocks (sizing.inodesPerGroup * sizing.groupCount) (2 ^ 32 - 1))
  let group0Overhead :=
    superOverhead sizing.gdtBlocks sizing.reservedGdtBlocks + group0Tables request sizing + 1
  refuseIf (sizing.totalBlocks < group0Overhead)
    (.tooSmall sizing.totalBlocks group0Overhead sizing.reservedGdtBlocks)
  let unplaced := unplacedLayout request sizing
  let layout := unplaced.placed
  refuseIf
    (layout.lastBlocks < lastOverhead layout + 1
      || (placements unplaced).2 > layout.totalBlocks)
    (.finalGroupTooSmall layout.lastBlocks (lastOverhead layout))
  return layout

end Ferrosys.Ext
