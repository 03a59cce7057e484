import Ferrosys.Cache
import Ferrosys.Ext.Ondisk
import Ferrosys.Ext.Replay

/-! Reading the bytes of an ext image: from their homes in the source, through a replayed
journal laid over them, a numbered block at a time, through the table cache, and as a run of
blocks.
-/

namespace Ferrosys.Ext

open Journal SortedMaps Splice

def u64Max : Nat := 2 ^ 64 - 1

/-- A sum that stops at the top of the 64-bit range. -/
def satAdd (a b : Nat) : Nat := min (a + b) u64Max

/-- A product that stops at the top of the 64-bit range. -/
def satMul (a b : Nat) : Nat := min (a * b) u64Max

/-- The byte offset `index` units past `base`, where it stays in the 64-bit range. -/
def offsetOf (base index unit : Nat) : Option Nat :=
  if index * unit ≤ u64Max ∧ base + index * unit ≤ u64Max then some (base + index * unit)
  else none

/-- What replaying the journal applied. -/
structure JournalReplay where
  transactions : Nat
  blocks : Nat
  skipped : Nat
deriving DecidableEq

/-- Whether the journal was replayed. -/
inductive Outcome where
  | replayed (report : JournalReplay) (skipped : List ReadError)
  | notReplayed (fault : ReadError)
deriving DecidableEq

/-- What became of a journal needing recovery: the blocks it rewrites, each to the copy recovery
puts there.
-/
structure Recovery where
  overlay : SortedMap Nat Copy
  outcome : Outcome

def maxRunBytes : Nat := 256 * 1024
def tableCacheBytes : Nat := 256 * 1024

abbrev TableCache := BlockCache Bytes

/-- The table cache a reader at `blockSize` holds. -/
def tableCache (blockSize : Nat) : TableCache := .within tableCacheBytes blockSize 4

/-- An open ext filesystem. The source ends where its region does; its length is a signed 64-bit
offset, and the filesystem begins inside it.
-/
structure Reader where
  src : Bytes
  base : Nat
  sb : SuperBlock
  sbRaw : Bytes
  feature : FeatureSet
  blockSize : Nat
  policy : ReadPolicy
  maxFileBytes : Nat
  tableCache : TableCache
  needsRecovery : Bool
  stateOnDisk : Nat
  journal : Option Recovery
  bounded : src.length < 2 ^ 63
  based : base ≤ src.length
  blockSized : 1024 ≤ blockSize

/-- A run of a map's entries that one read covers, or the entries of a hole. -/
structure Run where
  at_ : Nat
  phys : Nat
  len : Nat
deriving DecidableEq

namespace Reader

variable (self : Reader)

/-- The bytes the source holds from the filesystem's first on. -/
def sourceLen : Nat := self.src.length - self.base

/-- The blocks a replayed journal rewrites. -/
def overlay : SortedMap Nat Copy :=
  match self.journal with
  | some recovery => recovery.overlay
  | none => .empty

/-- Read `len` bytes at `offset` bytes into the filesystem from their homes in the source. -/
def readHome (offset len : Nat) : Except ReadError Bytes :=
  match offsetOf self.base offset 1 with
  | none => .error (.outOfRange "bytes" offset)
  | some pos =>
      if len = 0 then .ok []
      else if pos + len ≤ self.src.length then .ok (slice self.src pos len)
      else .error (.outOfRange "bytes" offset)

/-- The block recovery puts in a home, read from where the journal holds the copy, its magic put
back where the log zeroed it.
-/
def copyBlock (copy : Copy) : Except ReadError Bytes :=
  match offsetOf 0 copy.at_ self.blockSize with
  | none => .error (.outOfRange "block" copy.at_)
  | some at_ => do
      let block ← self.readHome at_ self.blockSize
      return if copy.escaped then putU32Be block 0 jbd2Magic else block

/-- Replace the bytes of every block a replayed journal rewrites within `bytes`, which were read
from their homes at `offset`.
-/
def layOver (offset : Nat) (bytes : Bytes) : Except ReadError Bytes :=
  let bs := self.blockSize
  let stop := satAdd offset bytes.length
  let first := offset / bs
  let last := (stop - 1) / bs
  (self.overlay.range first last).foldlM
    (fun bytes (home, copy) => do
      let block ← self.copyBlock copy
      let homeStart := home * bs
      let lo := max homeStart offset
      let hi := min (homeStart + bs) stop
      return splice bytes (lo - offset) (slice block (lo - homeStart) (hi - lo)))
    bytes

/-- Read `len` bytes at `offset` bytes into the filesystem. -/
def readAt (offset len : Nat) : Except ReadError Bytes := do
  let bytes ← self.readHome offset len
  if len > 0 ∧ self.overlay.entries ≠ [] then self.layOver offset bytes else return bytes

/-- Reject a reference naming a block the filesystem does not have. -/
def checkBlock (block : Nat) : Except ReadError Unit :=
  if block ≥ self.sb.blocksCount then .error (.outOfRange "block" block) else .ok ()

/-- An out-of-range read is reported as a reference to `what`. -/
def relabel {α : Type} (what : String) (index : Nat) : Except ReadError α → Except ReadError α
  | .error (.outOfRange _ _) => .error (.outOfRange what index)
  | other => other

/-- The bytes of block `block`. -/
def block (block : Nat) : Except ReadError Bytes := do
  self.checkBlock block
  match offsetOf 0 block self.blockSize with
  | none => .error (.outOfRange "block" block)
  | some start => relabel "block" block (self.readAt start self.blockSize)

/-- `count` blocks from `first` on are inside the filesystem and inside the source. -/
def blocksInReach (first count : Nat) : Bool :=
  first + count ≤ u64Max && count > 0 && first + count ≤ self.sb.blocksCount
    && (offsetOf 0 (first + count) self.blockSize).any (· ≤ self.sourceLen)

/-- `len` bytes at `offset` out of the group descriptor table or an inode table, through the
cache, and the reader as the cache then stands. A block not wholly in reach is not held.
-/
def tableBytes (offset len : Nat) : Except ReadError Bytes × Reader :=
  let bs := self.blockSize
  let block := offset / bs
  let within := offset % bs
  if satAdd within len > bs ∨ self.blocksInReach block 1 = false then
    (self.readAt offset len, self)
  else
    match self.tableCache.get block with
    | (some bytes, cache) => (.ok (slice bytes within len), { self with tableCache := cache })
    | (none, cache) =>
        match self.readAt (block * bs) bs with
        | .error error => (.error error, { self with tableCache := cache })
        | .ok bytes =>
            (.ok (slice bytes within len), { self with tableCache := cache.insert block bytes })

/-- The bytes of a run of data blocks in one read, where the whole run is in reach, or none where
it is a hole, a single block, or not wholly in reach.
-/
def readRun (run : Run) : Except ReadError (Option Bytes) :=
  if run.phys = 0 ∨ run.len < 2 ∨ self.blocksInReach run.phys run.len = false then .ok none
  else
    match offsetOf 0 run.phys self.blockSize, offsetOf 0 run.len self.blockSize with
    | some start, some len => (self.readAt start len).map some
    | _, _ => .ok none

/-- The most blocks one run holds. -/
def maxRunBlocks : Nat := max (maxRunBytes / max self.blockSize 1) 1

end Reader

end Ferrosys.Ext
