import Ferrosys.Ext.Hash
import Ferrosys.Ext.Htree

/-! Packing entries into a directory's blocks: one block after another, or below a search tree over
blocks in the order of the names' hashes.
-/

namespace Ferrosys.Ext

open Arith Splice Machine Chunks

/-- A failure packing a directory. -/
inductive DirError where
  | entryTooLarge (need blockSize : Nat)
  | tailExceedsBlock (tailLen blockSize : Nat)
  | missingDotEntries
  | indexTooLarge (blocks capacity : Nat)
  | encode (error : ParseError)
deriving DecidableEq

/-- What a directory block holds, and so which checksum tail closes it. -/
inductive DirBlockKind where
  | entries
  | index (countOffset limit : Nat)
deriving DecidableEq

/-- One directory block. -/
structure DirBlock where
  bytes : Bytes
  kind : DirBlockKind
deriving DecidableEq

/-- What serializing answers, as packing does. -/
def encoded {α : Type} (step : Except ParseError α) : Except (Fault DirError) α :=
  step.mapError fun error => .refused (.encode error)

/-- Stretch the last record to the end of the usable area, and write the tail where there is one. -/
def closeBlock (block : Bytes) (lastOff usable tailLen : Nat)
    : Except (Fault DirError) Bytes := do
  let block := putU16 block (lastOff + 4) (recLenToDisk (usable - lastOff) block.length)
  if tailLen = 0 then return block
  let tail ← encoded (writeDirTail (slice block usable tailLen) 0)
  return splice block usable tail

/-- A block being packed: where its next record goes, and where its last one begins. -/
structure Packing where
  block : Bytes
  off : Nat
  lastOff : Nat
deriving DecidableEq

/-- Write one entry's record. A record that reaches past the block panics. -/
def packEntry (blockSize : Nat) (self : Packing) (entry : DirEntry)
    : Except (Fault DirError) Packing := do
  let need := minRecLen entry.name.length
  if self.block.length < self.off + need then .error .panicked
  let record ← encoded (entry.writeTo (slice self.block self.off need) need blockSize)
  return ⟨splice self.block self.off record, self.off + need, self.off⟩

/-- Entries, which must fit, in one block. -/
def packOneBlock (entries : List DirEntry) (blockSize tailLen : Nat)
    : Except (Fault DirError) Bytes := do
  let packing ← entries.foldlM (packEntry blockSize) ⟨zeros blockSize, 0, 0⟩
  closeBlock packing.block packing.lastOff (blockSize - tailLen) tailLen

/-- What an entry's record occupies, which a block has to hold beside its tail. -/
def recordLen (entry : DirEntry) (blockSize tailLen : Nat) : Except (Fault DirError) Nat := do
  let need := minRecLen entry.name.length
  refuseIf (blockSize - tailLen < need) (.entryTooLarge need blockSize)
  return need

/-- Every entry fits in a single block. -/
def fitsInOneBlock (entries : List DirEntry) (blockSize tailLen : Nat)
    : Except (Fault DirError) Bool := do
  let total ← entries.foldlM (fun total entry => do
    return total + (← recordLen entry blockSize tailLen)) 0
  return decide (total ≤ blockSize - tailLen)

/-- A linear directory. -/
structure LinearDir where
  tailLen : Nat
deriving DecidableEq

namespace LinearDir

/-- Blocks being laid: those closed, the entries of the one open, and what they occupy. -/
structure Laying where
  blocks : List DirBlock
  cur : List DirEntry
  used : Nat

variable (self : LinearDir) (blockSize : Nat)

/-- Place one entry, behind the block it no longer fits in. -/
def place (laying : Laying) (entry : DirEntry) : Except (Fault DirError) Laying := do
  let need ← recordLen entry blockSize self.tailLen
  if blockSize - self.tailLen < laying.used + need ∧ laying.cur ≠ [] then
    let bytes ← packOneBlock laying.cur blockSize self.tailLen
    return ⟨laying.blocks ++ [⟨bytes, .entries⟩], [entry], need⟩
  return ⟨laying.blocks, laying.cur ++ [entry], laying.used + need⟩

/-- The directory's blocks, its entries packed in order. -/
def buildBlocks (entries : List DirEntry) : Except (Fault DirError) (List DirBlock) := do
  refuseIf (blockSize ≤ self.tailLen) (.tailExceedsBlock self.tailLen blockSize)
  let laying ← entries.foldlM (self.place blockSize) ⟨[], [], 0⟩
  if laying.cur = [] then return laying.blocks
  let bytes ← packOneBlock laying.cur blockSize self.tailLen
  return laying.blocks ++ [⟨bytes, .entries⟩]

end LinearDir

/-- A hash-indexed directory. -/
structure HtreeDir where
  seed : Bytes
  version : HashVersion
  signedness : HashSignedness
  checksums : Bool
  seed_length : seed.length = 16

namespace HtreeDir

/-- An entry and where its name places it in the index. -/
abbrev Hashed := DirHash × DirEntry

/-- The two entries a directory opens with, and the rest. -/
def splitDots (entries : List DirEntry)
    : Except (Fault DirError) (DirEntry × DirEntry × List DirEntry) :=
  match entries with
  | dot :: dotdot :: rest =>
      if dot.name = [46] ∧ dotdot.name = [46, 46] then .ok (dot, dotdot, rest)
      else .error (.refused .missingDotEntries)
  | _ => .error (.refused .missingDotEntries)

/-- The order of hashed entries: by hash, then by name. -/
def order (a b : Hashed) : Ordering :=
  (compare a.1.major b.1.major).then ((compare a.1.minor b.1.minor).then
    (compare a.2.name b.2.name))

variable (self : HtreeDir) (blockSize : Nat)

/-- Bytes reserved for the checksum tail of a block of entries. -/
def tailLen : Nat := if self.checksums then dirTailLen else 0

/-- The entries in the order of their hashes. -/
def sortByHash (entries : List DirEntry) : List Hashed :=
  (entries.map fun entry =>
    (dirHash entry.name self.version self.signedness self.seed, entry)).mergeSort
      fun a b => (order a b).isLE

/-- Entry blocks being filled: those full, the entries of the next, and what they occupy. -/
structure Filled where
  leaves : List (List Hashed)
  cur : List Hashed
  used : Nat

/-- Place one entry, behind the block it no longer fits in. -/
def place (filled : Filled) (hashed : Hashed) : Except (Fault DirError) Filled := do
  let need ← recordLen hashed.2 blockSize self.tailLen
  if blockSize - self.tailLen < filled.used + need ∧ filled.cur ≠ [] then
    return ⟨filled.leaves ++ [filled.cur], [hashed], need⟩
  return ⟨filled.leaves, filled.cur ++ [hashed], filled.used + need⟩

/-- The entry blocks' entries, filled in order. -/
def gather (hashed : List Hashed) : Except (Fault DirError) (List (List Hashed)) := do
  let filled ← hashed.foldlM (self.place blockSize) ⟨[], [], 0⟩
  return if filled.cur = [] then filled.leaves else filled.leaves ++ [filled.cur]

/-- The hash an index entry stores for a block: its lowest, marked where the block before it ends
with the same.
-/
def boundary (prev leaf : List Hashed) : Except (Fault DirError) UInt32 :=
  match prev.getLast?, leaf.head? with
  | some last, some first =>
      .ok (first.1.major ||| if first.1.major = last.1.major then dxHashContinued else 0)
  | _, _ => .error .panicked

/-- The hashes the index stores for its entry blocks. The first block's is implied. -/
def leafHashes (leaves : List (List Hashed)) : Except (Fault DirError) (List UInt32) := do
  let later ← (leaves.zip leaves.tail).mapM fun pair => boundary pair.1 pair.2
  return if leaves = [] then [] else 0 :: later

/-- One interior node: the first child's hash is implied, as in the root. -/
def nodeBlock (nodeLimit : Nat) (children : List DxEntry) : Except (Fault DirError) DirBlock := do
  let entries := match children with
    | [] => []
    | first :: rest => { first with hash := 0 } :: rest
  let bytes ← encoded (writeDxNodeHeader (zeros blockSize))
  let bytes ← encoded (writeDxEntries bytes dxNodeCountOffset nodeLimit entries)
  return ⟨bytes, .index dxNodeCountOffset nodeLimit⟩

/-- The index entries of blocks numbered from `first` on. -/
def childEntries (first : Nat) (hashes : List UInt32) : List DxEntry :=
  hashes.zipIdx.map fun (hash, k) => ⟨hash, UInt32.ofNat (first + k)⟩

/-- The blocks of an index over entry blocks with these hashes: its root and its nodes. -/
def indexBlocks (dot dotdot : DirEntry) (hashes : List UInt32)
    : Except (Fault DirError) (List DirBlock) := do
  let rootLimit := dxLimit blockSize dxRootCountOffset self.checksums
  let nodeLimit := dxLimit blockSize dxNodeCountOffset self.checksums
  let deep := decide (rootLimit < hashes.length)
  let nodeCount := if deep then divCeil hashes.length nodeLimit else 0
  refuseIf (rootLimit < nodeCount) (.indexTooLarge hashes.length (rootLimit * nodeLimit))
  let children := childEntries (1 + nodeCount) hashes
  let groups := if deep then chunks nodeLimit children else []
  let nodes ← groups.mapM (nodeBlock blockSize nodeLimit)
  let rootEntries :=
    if deep then
      childEntries 1 (groups.map fun group => (group.head?.map DxEntry.hash).getD 0)
    else children
  let root ← encoded (writeDxRootHeader (zeros blockSize) dot.inode dotdot.inode self.version.toU8
    (if deep then 1 else 0))
  let root ← encoded (writeDxEntries root dxRootCountOffset rootLimit rootEntries)
  return ⟨root, .index dxRootCountOffset rootLimit⟩ :: nodes

/-- The directory's blocks: packed in order where one is enough, and otherwise the index and the
blocks its entries are in.
-/
def buildBlocks (entries : List DirEntry) : Except (Fault DirError) (List DirBlock) := do
  if ← fitsInOneBlock entries blockSize self.tailLen then
    LinearDir.buildBlocks ⟨self.tailLen⟩ blockSize entries
  else
    let (dot, dotdot, rest) ← splitDots entries
    let leaves ← self.gather blockSize (self.sortByHash rest)
    let index ← self.indexBlocks blockSize dot dotdot (← leafHashes leaves)
    let packed ← leaves.mapM fun leaf =>
      return ⟨← packOneBlock (leaf.map Prod.snd) blockSize self.tailLen, .entries⟩
    return index ++ packed

end HtreeDir

end Ferrosys.Ext
