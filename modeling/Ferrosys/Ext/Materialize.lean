import Ferrosys.Bytes
import Ferrosys.Ext.Alloc.Soundness
import Ferrosys.Ext.Ondisk

/-! Mapping a file's data blocks as a format writes them, in the classic map: twelve direct words,
then one, two and three levels of indirect blocks, each allocated the moment it is first entered.
-/

namespace Ferrosys.Ext

open Checked Splice

/-- The most sectors an inode is charged without `huge_file`. -/
def maxSectorsWithoutHugeFile : Nat := 2 ^ 32 - 1

inductive FormatError where
  | alloc (error : AllocError)
  | resizeMapNeeds32BitBlocks (block : Nat)
  | fileTooLargeForBlockMap (blocks limit blockSize : Nat)
  | blockCountWithoutHugeFile (what : String) (sectors limit : Nat)
  | indexedPastTheAnswer
deriving DecidableEq

/-- The physical blocks of an inode's data, in logical order, held as the runs they form. -/
structure BlockRuns where
  runs : List BlockRange
  count : Nat
deriving DecidableEq

namespace BlockRuns

def empty : BlockRuns := ⟨[], 0⟩

/-- Append `block` as the next logical block, extending the last run where it follows it. -/
def push (self : BlockRuns) (block : Nat) : BlockRuns :=
  let runs :=
    match self.runs.getLast? with
    | some run =>
        if run.start + run.len = block then self.runs.dropLast ++ [⟨run.start, run.len + 1⟩]
        else self.runs ++ [⟨block, 1⟩]
    | none => [⟨block, 1⟩]
  ⟨runs, self.count + 1⟩

/-- Every block, in logical order. -/
def blocks (self : BlockRuns) : List Nat :=
  self.runs.flatMap fun run => List.range' run.start run.len

end BlockRuns

/-- The state of one format: the allocator, and the destination, as long as the filesystem, where
what has not been written reads as zero.
-/
structure Writer where
  alloc : Allocator
  image : Bytes
  blockSize : Nat
  feature : FeatureSet
  sized : blockSize = 1024 ∨ blockSize = 2048 ∨ blockSize = 4096
  whole : image.length = alloc.totalBlocks * blockSize

/-- Allocating leaves the filesystem's size. -/
theorem Allocator.allocateOne_totalBlocks (a : Allocator)
    : a.allocateOne.2.totalBlocks = a.totalBlocks := by
  unfold allocateOne allocate
  rw [if_neg (by decide)]
  dsimp only
  split
  · rfl
  next runs cursor _ => exact (a.markAll_sameShape runs).totalBlocks

namespace Writer

variable (self : Writer)

/-- Allocate exactly one block. -/
def allocateOne : Except FormatError (Nat × Writer) :=
  match taken : self.alloc.allocateOne with
  | (.ok (some block), alloc) =>
      .ok (block, { self with
        alloc := alloc
        whole := by
          have same := self.alloc.allocateOne_totalBlocks
          rw [taken] at same
          rw [self.whole, same] })
  | (.ok none, _) => .error .indexedPastTheAnswer
  | (.error error, _) => .error (.alloc error)

def writeBlock (block : Nat) (data : Bytes) : Writer :=
  { self with
    image := putBlock self.blockSize self.image block data
    whole := (length_putBlock _ _ _ _).trans self.whole }

def sectorsPerBlock : Nat := self.blockSize / 512

/-- Refuse a charge the inode's sector count cannot hold. -/
def checkSectors (sectors : Nat) (what : String) : Except FormatError Unit :=
  refuseIf (!self.feature.hasHugeFile && sectors > maxSectorsWithoutHugeFile)
    (.blockCountWithoutHugeFile what sectors maxSectorsWithoutHugeFile)

end Writer

/-- A block number as a map's 32-bit words store it. -/
def mapBlock (block : Nat) : Except FormatError Nat :=
  if block < 2 ^ 32 then .ok block else .error (.resizeMapNeeds32BitBlocks block)

/-- The most logical blocks a classic map reaches. -/
def classicMapReach (blockSize : Nat) : Nat :=
  let ppb := blockSize / 4
  directBlocks + ppb + ppb * ppb + ppb * ppb * ppb

/-- A map being built: the writer, the data blocks mapped so far, and the indirect blocks charged.
-/
structure MapBuild where
  writer : Writer
  physical : BlockRuns
  indirect : Nat

namespace MapBuild

/-- Allocate the next data block and map it. -/
def mapData (self : MapBuild) : Except FormatError (Nat × MapBuild) := do
  let (phys, writer) ← self.writer.allocateOne
  return (phys, { self with writer := writer, physical := self.physical.push phys })

/-- Allocate an indirect block and charge it. -/
def enterIndirect (self : MapBuild) : Except FormatError (Nat × MapBuild) := do
  let (block, writer) ← self.writer.allocateOne
  return (block, { self with writer := writer, indirect := self.indirect + 1 })

/-- Build one indirect block with `below` levels of indirection under it, mapping data blocks from
where `physical` left off up to `n`, and answer its own number. A slot past the data's end is
left as it is.
-/
def buildIndirect (n : Nat) : (below : Nat) → MapBuild → Except FormatError (Nat × MapBuild)
  | below, build => do
      let (indBlock, build) ← build.enterIndirect
      let blockSize := build.writer.blockSize
      let (ptrs, build) ← (List.range (blockSize / 4)).foldlM
        (fun (ptrs, build) slot =>
          if build.physical.count ≥ n then .ok (ptrs, build)
          else do
            let (child, build) ←
              match below with
              | 0 => build.mapData
              | below + 1 => buildIndirect n below build
            let word ← mapBlock child
            return (putU32 ptrs (slot * 4) word, build))
        (List.replicate blockSize 0, build)
      return (indBlock, { build with writer := build.writer.writeBlock indBlock ptrs })

end MapBuild

namespace Writer

variable (self : Writer)

/-- Lay out a classic block map for `n` logical data blocks, and answer the inode that maps them,
the physical blocks in order, and the writer as it then stands.
-/
def buildClassicMap (inode : Inode) (n : Nat) (what : String)
    : Except FormatError (Inode × BlockRuns × Writer) := do
  self.checkSectors (n * self.sectorsPerBlock) what
  let reach := classicMapReach self.blockSize
  refuseIf (n > reach) (.fileTooLargeForBlockMap n reach self.blockSize)
  let (words, build) ← (List.range (min n directBlocks)).foldlM
    (fun (words, build) slot => do
      let (phys, build) ← MapBuild.mapData build
      let word ← mapBlock phys
      return (putU32 words (slot * 4) word, build))
    (inode.block, ⟨self, .empty, 0⟩)
  let (words, build) ← (List.range indirectLevels).foldlM
    (fun (words, build) below =>
      if build.physical.count ≥ n then .ok (words, build)
      else do
        let (root, build) ← MapBuild.buildIndirect n below build
        let word ← mapBlock root
        return (putU32 words ((directBlocks + below) * 4) word, build))
    (words, build)
  let sectors := (n + build.indirect) * build.writer.sectorsPerBlock
  build.writer.checkSectors sectors what
  return ({ inode with flags := 0, blocks := sectors, block := words }, build.physical,
    build.writer)

end Writer

end Ferrosys.Ext
