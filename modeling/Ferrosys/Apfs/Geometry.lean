import Ferrosys.Apfs.Record
import Ferrosys.Apfs.Node
import Ferrosys.Library.Arith

/-! How large a container's space manager is and what node limits it gives its free queues: both
follow from the container's block count and block size.
-/

namespace Ferrosys.Apfs

open Arith

/-- The space manager's fixed structure, in bytes: where the arrays past its fields begin. -/
def spaceManagerStructSize : Nat := 2520

/-- Slots the pool-bitmap area keeps per pool bitmap block. -/
def poolBitmapSlots : Nat := 16

/-- An address in a space manager's list, or in an address block. -/
def addressBytes : Nat := 8

/-- Where the entries of a chunk-info block begin, and the bytes one takes. -/
def chunkListEntriesAt : Nat := 40
def chunkInfoSize : Nat := 32

/-- How a container's blocks divide into chunks, and how many blocks describe them. -/
structure ChunkGeometry where
  blocksPerChunk : Nat
  chunksPerCib : Nat
  cibsPerCab : Nat
  chunkCount : Nat
  cibCount : Nat
  cabCount : Nat
deriving DecidableEq

/-- Where the arrays past a space manager's fields begin. -/
structure ManagerArrays where
  xids : Nat
  slots : Nat
  freeList : Nat
  addresses : Nat
deriving DecidableEq

/-- The arrays of a space manager whose structure ends at `structSize`, keeping `bitmaps` pool bitmap
blocks in `slots` slots.
-/
def managerArrays (structSize bitmaps slots : Nat) : ManagerArrays :=
  let slotArray := structSize + 8 * bitmaps
  let freeList := slotArray + divCeil (2 * bitmaps) 8 * 8
  ⟨structSize, slotArray, freeList, freeList + divCeil (2 * slots) 8 * 8⟩

/-- Where the second device's address list begins. -/
def secondListOffset (addresses listed : Nat) : Nat := addresses + addressBytes * listed

namespace ChunkGeometry

/-- The chunk geometry of a container of `blockCount` blocks of `blockSize` bytes. -/
def of (blockCount blockSize : Nat) : ChunkGeometry :=
  let blocksPerChunk := blockSize * 8
  let chunksPerCib := (blockSize - chunkListEntriesAt) / chunkInfoSize
  let cibsPerCab := (blockSize - chunkListEntriesAt) / addressBytes
  let chunkCount := divCeil blockCount blocksPerChunk
  let cibCount := divCeil chunkCount chunksPerCib
  let cabCount := if cibsPerCab < cibCount then divCeil cibCount cibsPerCab else 0
  ⟨blocksPerChunk, chunksPerCib, cibsPerCab, chunkCount, cibCount, cabCount⟩

/-- The addresses the space manager's own list holds. -/
def listed (self : ChunkGeometry) : Nat := if 0 < self.cabCount then self.cabCount else self.cibCount

/-- The blocks of the internal pool, which holds every chunk-info, address and bitmap block three
times over.
-/
def poolBlocks (self : ChunkGeometry) : Nat := 3 * (self.chunkCount + self.cibCount + self.cabCount)

/-- The bitmap blocks the internal pool's blocks lie under. -/
def poolBitmaps (self : ChunkGeometry) : Nat := divCeil self.poolBlocks self.blocksPerChunk

/-- The arrays of the space manager, and the bytes the object needs. -/
def managerLayout (self : ChunkGeometry) : ManagerArrays × Nat :=
  let bitmaps := self.poolBitmaps
  let arrays := managerArrays spaceManagerStructSize bitmaps (poolBitmapSlots * bitmaps)
  (arrays, secondListOffset arrays.addresses self.listed)

end ChunkGeometry

/-- The bytes one entry of a free-queue node takes: its table entry, its key and its value. -/
def queueEntryBytes : Nat := 4 + FreeQueueKey.size + 8

/-- Bytes of a free-queue node a queue's limit counts no entry in. -/
def queueNodeUncounted : Nat := 24

/-- The most bytes of nodes either free queue is limited to. -/
def queueLimitBytes : Nat := 2 * 2 ^ 20

/-- How many nodes each free queue's tree may grow to. -/
structure QueueNodeLimits where
  pool : Nat
  main : Nat
deriving DecidableEq

namespace QueueNodeLimits

/-- The most nodes either queue is limited to. -/
def cap (blockSize : Nat) : Nat := queueLimitBytes / blockSize

/-- The nodes a queue of this many entries is given: two are three, and none more than the cap. -/
def nodes (blockSize entries : Nat) : Nat :=
  let perNode := (blockSize - nodeDataStart - treeInfoSize - queueNodeUncounted) / queueEntryBytes
  let needed := max (divCeil entries perNode) 1
  min (if needed = 2 then 3 else needed) (cap blockSize)

/-- The share of a container's blocks its main queue is sized for. -/
def share (blockCount : Nat) : Nat :=
  if blockCount < 2 ^ 18 then 32 else if blockCount < 2 ^ 20 then 16 else 8

/-- The limits a container of `blockCount` blocks of `blockSize` bytes is formatted with. -/
def of (blockCount blockSize : Nat) : QueueNodeLimits where
  pool := nodes blockSize (divCeil (ChunkGeometry.of blockCount blockSize).poolBlocks 8)
  main := nodes blockSize (divCeil blockCount (share blockCount))

end QueueNodeLimits

end Ferrosys.Apfs
