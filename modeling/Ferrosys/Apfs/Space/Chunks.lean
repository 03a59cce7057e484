import Ferrosys.Apfs.Space.Runs
import Ferrosys.Bytes
import Ferrosys.Library.Arith
import Ferrosys.Library.Words

/-! A container's chunks held to the blocks reached and queued: each chunk's bitmap is compared a
word at a time with the blocks accounted for.
-/

namespace Ferrosys.Apfs.Space

open Arith Sweep Words

/-- What the space manager records of one chunk. -/
structure ChunkInfo where
  xid : Nat
  address : Nat
  blockCount : Nat
  freeCount : Nat
  bitmap : Nat
deriving DecidableEq

/-- The bits of a chunk's counts that count. -/
def ciCountMask : Nat := 0x000FFFFF

/-- A container whose chunks were read: as many as its blocks make, each bitmap one block. -/
structure Chunked where
  blockCount : Nat
  blockSize : Nat
  live : Nat
  freeCount : Nat
  chunks : List ChunkInfo
  readBlocks : Nat → Except Finding Bytes
  blockSize_pos : 0 < blockSize
  addressed : blockCount < 2 ^ 64
  counted : chunks.length = divCeil blockCount (blockSize * 8)

/-- How many blocks are of one kind, and the first met. -/
structure Tally where
  count : Nat
  first : Option Nat
deriving DecidableEq

/-- Take in the blocks a word marks, which begins at block `base`. -/
def Tally.note (self : Tally) (base : Nat) (word : Word) : Tally :=
  if word = 0 then self
  else ⟨self.count + ones word, self.first.or ((lowest word).map (base + ·))⟩

/-- What one chunk's words have come to. -/
structure WordTally where
  used : Nat
  inUseFree : Tally
  unreached : Tally
deriving DecidableEq

/-- What the chunks have come to. -/
structure Comparison where
  freeTotal : Nat
  inUseFree : Tally
  unreached : Tally
  pool : List (Nat × String)
  findings : List Finding
deriving DecidableEq

def Comparison.report (self : Comparison) (finding : Finding) : Comparison :=
  { self with findings := self.findings ++ [finding] }

/-- The first block of a chunk and how many it has: every chunk is whole but the last. -/
def chunkSpan (blocksPerChunk blockCount chunk : Nat) : Nat × Nat :=
  let first := chunk * blocksPerChunk
  let left := blockCount - first
  (first, if blocksPerChunk < left then blocksPerChunk else left)

/-- The blocks of a chunk something reaches or a queue holds, as bits. -/
def expectedWords (accounted : List (Run By)) (reach : List Nat) (first blocks : Nat)
    : List Word :=
  (meeting accounted reach first (first + blocks)).foldl
    (fun words run =>
      markRun words (max run.start first - first) (min run.stop (first + blocks) - first))
    (List.replicate (divCeil blocks 64) 0)

/-- A word of a chunk's bitmap, without the bits past its blocks. -/
def haveWord (bitmap : Bytes) (blocks w : Nat) : Word :=
  let have_ : Word := BitVec.ofNat 64 (getU64 bitmap (w * 8))
  let past := (w + 1) * 64
  if blocks < past then have_ &&& (BitVec.allOnes 64 >>> (past - blocks)) else have_

/-- Hold one word of a chunk to what is expected of it. -/
def compareWord (expected : List Word) (bitmap : Bytes) (first blocks : Nat) (tally : WordTally)
    (w : Nat) : WordTally :=
  let want := expected[w]?.getD 0
  let have_ := haveWord bitmap blocks w
  let base := first + w * 64
  { used := tally.used + ones have_
    inUseFree := tally.inUseFree.note base (want &&& ~~~have_)
    unreached := tally.unreached.note base (have_ &&& ~~~want) }

namespace Chunked

def blocksPerChunk (self : Chunked) : Nat := self.blockSize * 8

/-- Hold a chunk's bitmap to what is expected of it. -/
def compareBitmap (self : Chunked) (state : Comparison) (i free : Nat) (expected : List Word)
    (bitmap : Bytes) : Comparison :=
  let span := chunkSpan self.blocksPerChunk self.blockCount i
  let tally := (List.range expected.length).foldl (compareWord expected bitmap span.1 span.2)
    ⟨0, state.inUseFree, state.unreached⟩
  let state := { state with inUseFree := tally.inUseFree, unreached := tally.unreached }
  if tally.used + free ≠ span.2 then
    state.report ⟨.conformance, some span.1,
      s!"chunk {i} records {free} of its {span.2} blocks as free and its bitmap marks "
        ++ s!"{tally.used} in use"⟩
  else state

/-- A chunk's record is the one its place in the container gives. -/
def standing (self : Chunked) (i : Nat) (chunk : ChunkInfo) : Bool :=
  let span := chunkSpan self.blocksPerChunk self.blockCount i
  let recorded := chunk.blockCount &&& ciCountMask
  !(chunk.address != span.1 || recorded != span.2
    || decide (recorded < chunk.freeCount &&& ciCountMask))

/-- Hold one chunk to the blocks accounted for. -/
def compareChunk (self : Chunked) (accounted : List (Run By)) (reach : List Nat)
    (state : Comparison) (entry : ChunkInfo × Nat) : Comparison :=
  let chunk := entry.1
  let i := entry.2
  let span := chunkSpan self.blocksPerChunk self.blockCount i
  let recorded := chunk.blockCount &&& ciCountMask
  let free := chunk.freeCount &&& ciCountMask
  if !self.standing i chunk then
    state.report ⟨.structural, some span.1,
      s!"chunk {i} records {recorded} blocks from block {chunk.address}, {free} of them free, and "
        ++ s!"chunk {i} is {span.2} blocks from block {span.1}"⟩
  else
    let state := { state with freeTotal := state.freeTotal + free }
    let state := if self.live < chunk.xid then
        state.report ⟨.structural, some span.1,
          s!"chunk {i} records transaction {chunk.xid}, after the live one, {self.live}"⟩
      else state
    let expected := expectedWords accounted reach span.1 span.2
    if chunk.bitmap = 0 then
      if expected.all (· == 0) then
        if free ≠ span.2 then
          state.report ⟨.conformance, some span.1,
            s!"chunk {i} has no bitmap, so none of its {span.2} blocks is in use, and records "
              ++ s!"{free} as free"⟩
        else state
      else self.compareBitmap state i free expected (List.replicate self.blockSize 0)
    else
      let state := { state with pool := state.pool ++ [(chunk.bitmap, "a chunk's bitmap")] }
      match self.readBlocks chunk.bitmap with
      | .error failure => state.report failure
      | .ok bitmap => self.compareBitmap state i free expected bitmap

/-- Hold every chunk to the blocks accounted for. -/
def compareChunks (self : Chunked) (accounted : List (Run By)) (pool : List (Nat × String))
    : Comparison :=
  self.chunks.zipIdx.foldl (self.compareChunk accounted (reaches 0 accounted))
    ⟨0, ⟨0, none⟩, ⟨0, none⟩, pool, []⟩

/-- What is reported of all the chunks together, where `unwalked` is what the container holds that
was not walked.
-/
def totals (self : Chunked) (accounted : List (Run By)) (unwalked : List String)
    (block : Option Nat) (comparison : Comparison) : List Finding :=
  (if comparison.freeTotal ≠ self.freeCount then
    [⟨.conformance, block,
      s!"the space manager records {self.freeCount} blocks free and its chunks record "
        ++ s!"{comparison.freeTotal}"⟩]
  else [])
    ++ (match comparison.inUseFree.first with
      | none => []
      | some first =>
          let by_ := (meeting accounted (reaches 0 accounted) first (first + 1)).head?.elim ""
            (·.by_.text)
          [⟨.integrity, some first,
            s!"{comparison.inUseFree.count} blocks in use are marked free, so a write may take "
              ++ s!"them; the first is block {first}, reached as {by_}"⟩])
    ++ (match comparison.unreached.first with
      | none => []
      | some first =>
          let parts := ", ".intercalate unwalked
          if unwalked.isEmpty then
            [⟨.conformance, some first,
              s!"{comparison.unreached.count} blocks are marked in use and nothing the container "
                ++ s!"holds reaches them; the first is block {first}"⟩]
          else
            [⟨.cosmetic, some first,
              s!"{comparison.unreached.count} blocks are marked in use and nothing this reader "
                ++ s!"walks reaches them, the first block {first}; it does not walk "
                ++ s!"{parts}, which may"⟩])

/-- Hold the container's record of the blocks it uses to the blocks its structures reach, as the
calls noted them, and to those its main free queue holds, where that could be read: the overlaps
met, the runs queued and still reached, and the chunks compared.
-/
def hold (self : Chunked) (calls : List Reach) (queue : Option (List (Run Nat)))
    (pool : List (Nat × String)) : List Overlap × List (Run Nat × By) × Option Comparison :=
  let merged := merge (reached self.blockCount calls)
  match queue with
  | none => (merged.2, [], none)
  | some queue =>
      (merged.2, stillReached merged.1 queue,
        some (self.compareChunks (account merged.1 queue) pool))

end Chunked

end Ferrosys.Apfs.Space
