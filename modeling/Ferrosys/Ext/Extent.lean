import Ferrosys.Library.Chunks
import Ferrosys.Bytes
import Ferrosys.Ext.Geometry
import Ferrosys.Ext.ReadError

/-! The extent tree: turning allocated block ranges into leaves, assembling the leaves into a
tree, and a node's bytes.
-/

namespace Ferrosys.Ext

open Arith Chunks Checked Splice

def extentMagic : Nat := 0xf30a
def extentEntrySize : Nat := 12
def uninitLenLimit : Nat := 32768
def uninitMaxLen : Nat := uninitLenLimit - 1
def maxExtentLen : Nat := 32768
def maxExtentDepth : Nat := 5

/-- Logical blocks an extent tree, and any other map, can address. -/
def maxLogicalBlocks : Nat := 2 ^ 32

/-- The header at the start of every node. -/
structure ExtentHeader where
  entries : Nat
  max : Nat
  depth : Nat
  generation : Nat
deriving DecidableEq

namespace ExtentHeader

def toBytes (self : ExtentHeader) : Bytes :=
  toLeBytes16 extentMagic ++ toLeBytes16 self.entries ++ toLeBytes16 self.max
    ++ toLeBytes16 self.depth ++ toLeBytes32 self.generation

def fromBytes (b : Bytes) : Except ParseError ExtentHeader := do
  let magic := getU16 b 0
  refuseIf (magic != extentMagic) (.badMagic "ExtentHeader" magic extentMagic)
  return {
    entries := getU16 b 2
    max := getU16 b 4
    depth := getU16 b 6
    generation := getU32 b 8
  }

end ExtentHeader

/-- An interior-node entry: the first logical block of a subtree, and the child's block. -/
structure ExtentIdx where
  block : Nat
  leaf : Nat
deriving DecidableEq

namespace ExtentIdx

def toBytes (self : ExtentIdx) : Bytes :=
  toLeBytes32 self.block ++ toLeBytes32 self.leaf ++ toLeBytes16 (self.leaf >>> 32) ++ [0, 0]

def fromBytes (b : Bytes) : ExtentIdx where
  block := getU32 b 0
  leaf := join64 (getU32 b 4) (getU16 b 8)

end ExtentIdx

/-- A leaf entry: a logical run, and the physical run it maps to. -/
structure ExtentLeaf where
  block : Nat
  len : Nat
  start : Nat
  initialized : Bool
deriving DecidableEq

namespace ExtentLeaf

/-- The length field carries the length and the initialized flag, and refuses a run it does
not encode.
-/
def rawLen (self : ExtentLeaf) : Except ParseError Nat :=
  let invalid : ParseError := .invalidField "ExtentLeaf" "ee_len" self.len
  if self.initialized then
    if self.len > uninitLenLimit then .error invalid else .ok self.len
  else if self.len = 0 ∨ self.len > uninitMaxLen then .error invalid
  else .ok (self.len + uninitLenLimit)

def toBytes (self : ExtentLeaf) : Except ParseError Bytes := do
  let raw ← self.rawLen
  return toLeBytes32 self.block ++ toLeBytes16 raw ++ toLeBytes16 (self.start >>> 32)
    ++ toLeBytes32 self.start

def fromBytes (b : Bytes) : ExtentLeaf :=
  let raw := getU16 b 4
  let (len, initialized) :=
    if raw > uninitLenLimit then (raw - uninitLenLimit, false) else (raw, true)
  {
    block := getU32 b 0
    len := len
    start := join64 (getU32 b 8) (getU16 b 6)
    initialized := initialized
  }

end ExtentLeaf

inductive ExtentError where
  | tooManyEntries (entries capacity : Nat)
  | nodeTooSmall (bytes : Nat)
  | tooDeep (depth : Nat)
  | fileTooLarge (blocks : Nat)
  | nodeBlockCount (need got : Nat)
  | leaf (error : ParseError)
deriving DecidableEq

/-- One node's contents: leaves at depth zero, index entries above. -/
inductive ExtentNode where
  | leaves (runs : List ExtentLeaf)
  | index (depth : Nat) (entries : List ExtentIdx)
deriving DecidableEq

namespace ExtentNode

def depth : ExtentNode → Nat
  | .leaves _ => 0
  | .index depth _ => depth

def len : ExtentNode → Nat
  | .leaves runs => runs.length
  | .index _ entries => entries.length

end ExtentNode

/-- An external node and the physical block it occupies. -/
structure ExtentNodeBlock where
  block : Nat
  node : ExtentNode
deriving DecidableEq

/-- A complete tree: the root that lives in the inode, and the nodes it points at, from the
leaf level upward.
-/
structure ExtentTree where
  root : ExtentNode
  nodes : List ExtentNodeBlock
deriving DecidableEq

/-- The shape of the tree a set of leaves needs. -/
structure TreeShape where
  depth : Nat
  levelNodes : List Nat
  nodeBlocks : Nat
deriving DecidableEq

/-- The entries that fit a node of `nodeBytes` bytes. -/
def nodeCapacity (nodeBytes : Nat) : Nat := (nodeBytes - extentEntrySize) / extentEntrySize

/-- What the leaves of a file are built from: those so far, and the next logical block. -/
structure LeafBuild where
  leaves : List ExtentLeaf
  logical : Nat
deriving DecidableEq

/-- Add a run of `take` blocks, joining it to the last leaf where the two abut on both axes and
still fit one leaf.
-/
def LeafBuild.add (self : LeafBuild) (phys take : Nat) : LeafBuild :=
  let fresh : ExtentLeaf := ⟨self.logical, take, phys, true⟩
  let leaves :=
    match self.leaves.getLast? with
    | some last =>
        if last.initialized ∧ last.block + last.len = self.logical
            ∧ last.start + last.len = phys ∧ last.len + take ≤ maxExtentLen then
          self.leaves.dropLast ++ [{ last with len := last.len + take }]
        else
          self.leaves ++ [fresh]
    | none => self.leaves ++ [fresh]
  ⟨leaves, self.logical + take⟩

/-- Add the `left` blocks from `phys` on, a leaf's worth at a time. Each turn takes at least one
block.
-/
def LeafBuild.addRun : (fuel : Nat) → LeafBuild → (phys left : Nat) → left < fuel → LeafBuild
  | 0, _, _, _, enough => absurd enough (Nat.not_lt_zero _)
  | fuel + 1, build, phys, left, enough =>
      if more : left > 0 then
        let take := min left maxExtentLen
        addRun fuel (build.add phys take) (phys + take) (left - take)
          (by have : 0 < maxExtentLen := by decide
              omega)
      else
        build

def LeafBuild.addRange (self : LeafBuild) (range : BlockRange) : LeafBuild :=
  addRun (range.len + 1) self range.start range.len (Nat.lt_succ_self _)

/-- Turn a file's ranges, in logical order, into leaves. -/
def buildLeaves (ranges : List BlockRange) : Except ExtentError (List ExtentLeaf) := do
  let total := (ranges.map Spans.Span.len).sum
  refuseIf (total > maxLogicalBlocks) (.fileTooLarge total)
  return (ranges.foldl LeafBuild.addRange ⟨[], 0⟩).leaves

/-- The node counts of the levels above one of `width` nodes, up to one that fits the root.
Each level is narrower than the one below it.
-/
def levelsAbove (inlineCapacity nodeCapacity : Nat)
    : (fuel width : Nat) → width < fuel → 0 < inlineCapacity → 2 ≤ nodeCapacity → List Nat
  | 0, _, enough, _, _ => absurd enough (Nat.not_lt_zero _)
  | fuel + 1, width, enough, some_, fans =>
      if wide : width > inlineCapacity then
        let width' := divCeil width nodeCapacity
        width'
          :: levelsAbove inlineCapacity nodeCapacity fuel width'
            (by have : width' < width := divCeil_lt (by omega) fans
                omega)
            some_ fans
      else
        []

/-- Work out the tree `leaves` leaves need. -/
def planTree (leaves inlineCapacity nodeCapacity : Nat) : Except ExtentError TreeShape :=
  if leaves ≤ inlineCapacity then .ok ⟨0, [], 0⟩
  else if narrow : nodeCapacity < 2 ∨ inlineCapacity < 1 then
    .error (.tooManyEntries leaves inlineCapacity)
  else
    let width := divCeil leaves nodeCapacity
    let levelNodes :=
      width
        :: levelsAbove inlineCapacity nodeCapacity (width + 1) width (Nat.lt_succ_self _)
          (by omega) (by omega)
    let depth := levelNodes.length
    if depth > maxExtentDepth then .error (.tooDeep depth)
    else .ok ⟨depth, levelNodes, levelNodes.sum⟩

/-- One level of a tree: a node for each piece of what it holds, at the next of the blocks, and
the index entries that name the nodes.
-/
def buildLevel {α : Type} (node : List α → ExtentNode) (first : α → Nat)
    : List (List α) → (blocks : List Nat) → List ExtentNodeBlock × List ExtentIdx × List Nat
  | (a :: piece) :: pieces, block :: blocks =>
      let (nodes, indices, left) := buildLevel node first pieces blocks
      (⟨block, node (a :: piece)⟩ :: nodes, ⟨first a, block⟩ :: indices, left)
  | _, blocks => ([], [], blocks)

/-- The interior levels above `children`, `levels` of them from depth `depth` on, and the
entries of the root.
-/
def buildInterior (nodeCapacity : Nat)
    : (levels depth : Nat) → (children : List ExtentIdx) → (blocks : List Nat)
      → List ExtentNodeBlock × List ExtentIdx
  | 0, _, children, _ => ([], children)
  | levels + 1, depth, children, blocks =>
      let (nodes, parents, left) :=
        buildLevel (.index depth) ExtentIdx.block (chunks nodeCapacity children) blocks
      let (above, root) := buildInterior nodeCapacity levels (depth + 1) parents left
      (nodes ++ above, root)

/-- Assemble `leaves` into a tree rooted in the inode, spilling into the blocks the plan asked
for, consumed from the leaf level upward.
-/
def buildTree (leaves : List ExtentLeaf) (inlineCapacity nodeCapacity : Nat)
    (nodeBlocks : List Nat) : Except ExtentError ExtentTree := do
  let shape ← planTree leaves.length inlineCapacity nodeCapacity
  refuseIf (nodeBlocks.length != shape.nodeBlocks)
    (.nodeBlockCount shape.nodeBlocks nodeBlocks.length)
  if shape.depth = 0 then return ⟨.leaves leaves, []⟩
  else
    let (nodes, children, left) :=
      buildLevel .leaves ExtentLeaf.block (chunks nodeCapacity leaves) nodeBlocks
    let (above, root) := buildInterior nodeCapacity (shape.depth - 1) 1 children left
    return ⟨.index shape.depth root, nodes ++ above⟩

/-- The bytes of a node's entries. -/
def ExtentNode.entryBytes : ExtentNode → Except ParseError (List Bytes)
  | .leaves runs => runs.mapM ExtentLeaf.toBytes
  | .index _ entries => .ok (entries.map ExtentIdx.toBytes)

/-- Serialize `node` into the front of `buf`, declaring room for `ehMax` entries. -/
def writeNode (node : ExtentNode) (ehMax : Nat) (buf : Bytes) : Except ExtentError Bytes := do
  refuseIf (buf.length < extentEntrySize) (.nodeTooSmall buf.length)
  let entries := node.len
  refuseIf (entries > ehMax || extentEntrySize * (ehMax + 1) > buf.length)
    (.tooManyEntries entries (min ehMax (nodeCapacity buf.length)))
  let header : ExtentHeader := ⟨entries, ehMax, node.depth, 0⟩
  let bytes ← node.entryBytes.mapError .leaf
  return splice buf 0 (header.toBytes ++ bytes.flatten)

/-- Parse one node from the front of `buf`. The header's counts must agree with each other and
with the node they describe.
-/
def parseNode (buf : Bytes) : Except ParseError ExtentNode := do
  refuseIf (buf.length < extentEntrySize) (.tooShort "ExtentHeader" extentEntrySize buf.length)
  let header ← ExtentHeader.fromBytes (slice buf 0 extentEntrySize)
  refuseIf (header.max == 0 || header.max > nodeCapacity buf.length)
    (.invalidField "ExtentHeader" "eh_max" header.max)
  refuseIf (header.entries > header.max)
    (.invalidField "ExtentHeader" "eh_entries" header.entries)
  let entry (i : Nat) : Bytes := slice buf (extentEntrySize * (i + 1)) extentEntrySize
  if header.depth = 0 then
    return .leaves ((List.range header.entries).map fun i => ExtentLeaf.fromBytes (entry i))
  else
    return .index header.depth
      ((List.range header.entries).map fun i => ExtentIdx.fromBytes (entry i))

end Ferrosys.Ext
