import Ferrosys.Library.Bits
import Ferrosys.Ext.Geometry

/-! The block allocator: a used-block bitmap over a layout's blocks, and the operations that
mark and hand out blocks. `usizeMax` is the largest byte count the platform addresses.
-/

namespace Ferrosys.Ext

open Spans Bits

inductive AllocError where
  | outOfSpace (requested available : Nat)
  | bitmapTooLargeInMemory (bytes : Nat)
deriving DecidableEq

/-- A bit-packed used-block bitmap and the scan position over it. -/
structure Allocator where
  bits : List Byte
  totalBlocks : Nat
  blocksPerGroup : Nat
  bytesPerGroup : Nat
  firstDataBlock : Nat
  cursor : Nat
deriving DecidableEq

namespace Allocator

variable (self : Allocator)

/-- The bitmap position of block `b`, or `none` where no position describes it. -/
def bit (b : Nat) : Option Nat :=
  if self.firstDataBlock ≤ b then
    let i := b - self.firstDataBlock
    if i / 8 < self.bits.length then some i else none
  else
    none

def set (b : Nat) : Allocator :=
  match self.bit b with
  | none => self
  | some i => { self with bits := setBit self.bits i }

/-- Block `b` is used. A block no bitmap position describes reads as used. -/
def isUsed (b : Nat) : Bool :=
  match self.bit b with
  | none => true
  | some i => isSet self.bits i

/-- Mark the blocks in `range` used. -/
def markUsed (range : BlockRange) : Allocator :=
  (List.range' range.start range.len).foldl set self

/-- Mark the blocks of every run used. -/
def markAll (runs : List BlockRange) : Allocator := runs.foldl markUsed self

/-- The first free block from `i` on, or the end of the filesystem. -/
def nextFree (i : Nat) : Nat := scanWhile self.isUsed (self.totalBlocks - i) i

/-- The end of the free run at `start`, `limit` blocks at most. -/
def freeRunEnd (start limit : Nat) : Nat :=
  scanWhile (fun b => !self.isUsed b) (min (self.totalBlocks - start) limit) start

/-- What `nextFree` finds inside the filesystem is free. -/
theorem isUsed_nextFree {i : Nat} (found : self.nextFree i < self.totalBlocks)
    : self.isUsed (self.nextFree i) = false := by
  obtain ⟨least, -, -, stops⟩ := scanWhile_spec self.isUsed (self.totalBlocks - i) i
  exact stops (by unfold nextFree at found; omega)

/-- A free block inside the filesystem starts a run of at least one. -/
theorem lt_freeRunEnd {start limit : Nat} (inside : start < self.totalBlocks)
    (free : self.isUsed start = false) (some_ : 0 < limit)
    : start < self.freeRunEnd start limit :=
  lt_scanWhile (by omega) (by simp [free])

/-- The gathering loop of `allocate`: runs of free blocks from `i` on that sum to
`remaining`, and where the scan ends. Answers the shortfall where the blocks run out. Every
turn gathers a block, so `remaining` turns are enough.
-/
def gather : (fuel remaining i : Nat) → remaining ≤ fuel → Except Nat (List BlockRange × Nat)
  | 0, _, i, _ => .ok ([], i)
  | fuel + 1, remaining, i, enough =>
      if done : remaining = 0 then .ok ([], i)
      else if full : self.nextFree i ≥ self.totalBlocks then .error remaining
      else
        let start := self.nextFree i
        let past := self.freeRunEnd start remaining
        match gather fuel (remaining - (past - start)) past (by
            have moves : start < past := self.lt_freeRunEnd (not_le.mp full)
              (self.isUsed_nextFree (not_le.mp full)) (Nat.pos_of_ne_zero done)
            omega) with
        | .error short => .error short
        | .ok (runs, cursor) => .ok (⟨start, past - start⟩ :: runs, cursor)

/-- Allocate `count` blocks, as runs ordered by block number. -/
def allocate (count : Nat) : Except AllocError (List BlockRange) × Allocator :=
  if count = 0 then (.ok [], self)
  else
    match self.gather count count self.cursor le_rfl with
    | .error short => (.error (.outOfSpace count (count - short)), self)
    | .ok (runs, cursor) => (.ok runs, { self.markAll runs with cursor := cursor })

/-- The scanning loop of `allocateContiguous`: the first free run of `count` blocks from
`i` on. Every turn moves past a block.
-/
def contiguousFrom (count : Nat) : (fuel i : Nat) → self.totalBlocks - i < fuel → Option Nat
  | 0, _, enough => absurd enough (Nat.not_lt_zero _)
  | fuel + 1, i, enough =>
      if inside : i < self.totalBlocks then
        let start := self.nextFree i
        let past := self.freeRunEnd start (self.totalBlocks - start)
        if past - start ≥ count then some start
        else
          contiguousFrom count fuel past (by
            have skipped : i ≤ start := (scanWhile_spec _ _ _).1
            have run : start ≤ past := (scanWhile_spec _ _ _).1
            by_cases full : self.totalBlocks ≤ start
            · omega
            · have moves : start < past := self.lt_freeRunEnd (not_le.mp full)
                (self.isUsed_nextFree (not_le.mp full)) (Nat.sub_pos_of_lt (not_le.mp full))
              omega)
      else
        none

/-- Allocate `count` blocks as a single run, where a free run that long exists. -/
def allocateContiguous (count : Nat) : Option BlockRange × Allocator :=
  if count = 0 then (some ⟨self.firstDataBlock, 0⟩, self)
  else
    match self.contiguousFrom count (self.totalBlocks - self.firstDataBlock + 1)
        self.firstDataBlock (Nat.lt_succ_self _) with
    | none => (none, self)
    | some start => (some ⟨start, count⟩, self.markUsed ⟨start, count⟩)

/-- Allocate exactly one block. `none` stands for the panic of indexing an empty answer. -/
def allocateOne : Except AllocError (Option Nat) × Allocator :=
  let (result, after) := self.allocate 1
  (result.map fun runs => (runs[0]?).map Span.start, after)

/-- Free blocks across the whole filesystem. -/
def freeCount : Nat :=
  let positions := self.totalBlocks - self.firstDataBlock
  positions - usedInPrefix self.bits positions

end Allocator

/-- Build an allocator for `layout` with the bitmap padding and every fixed metadata block
marked used.
-/
def Allocator.new (usizeMax : Nat) (layout : Layout) : Except AllocError Allocator :=
  let capacityBits := layout.groupCount * layout.blocksPerGroup
  let capacityBytes := capacityBits / 8
  if capacityBytes > usizeMax then .error (.bitmapTooLargeInMemory capacityBytes)
  else
    let alloc : Allocator :=
      {
        bits := List.replicate capacityBytes 0
        totalBlocks := layout.totalBlocks
        blocksPerGroup := layout.blocksPerGroup
        bytesPerGroup := layout.blocksPerGroup / 8
        firstDataBlock := layout.firstDataBlock
        cursor := layout.firstDataBlock
      }
    let lastDescribed := layout.firstDataBlock + capacityBits
    let alloc := alloc.markUsed ⟨layout.totalBlocks, lastDescribed - layout.totalBlocks⟩
    .ok (alloc.markAll layout.metadataRegions)

end Ferrosys.Ext
