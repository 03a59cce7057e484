import Ferrosys.Ext.Extent
import Ferrosys.Ext.Reader

/-! Mapping an inode's logical blocks to physical ones, a window at a time: the extent walk, and
the classic map of direct and indirect blocks. A zero stands for a block that reads as zeros
without occupying any.
-/

namespace Ferrosys.Ext

open Arith Splice

def mapWindowBlocks : Nat := 4096

/-- What a walk of an extent tree has met: the nodes it has seen named, and the leaves. -/
structure ExtentWalk where
  visited : List Nat
  out : List ExtentLeaf
deriving DecidableEq

/-- Each index entry with where its coverage ends: the next entry's first block, and nowhere for
the last.
-/
def coverage : List ExtentIdx → List (ExtentIdx × Nat)
  | [] => []
  | [idx] => [(idx, u64Max)]
  | idx :: next :: rest => (idx, next.block) :: coverage (next :: rest)

/-- Write `value` under each logical block from `lo` up to `hi` of a map that begins at `first`. -/
def placeRange (first lo hi : Nat) (value : Nat → Nat) (map : List Nat) : List Nat :=
  (List.range' lo (hi - lo)).foldl (fun map logical => map.set (logical - first) (value logical))
    map

namespace Reader

variable (self : Reader)

/-- A leaf names blocks the filesystem has. -/
def checkLeaf (leaf : ExtentLeaf) : Except ReadError Unit :=
  if leaf.start ≥ self.sb.blocksCount ∨ satAdd leaf.start leaf.len > self.sb.blocksCount then
    .error (.outOfRange "block" leaf.start)
  else
    .ok ()

/-- Collect the leaves of a node's subtree that meet the window `lo` to `hi`, following only the
index entries whose subtrees could hold one. `levels` of the depth a tree may have are left.
-/
def walkExtentNode (lo hi : Nat)
    : (levels : Nat) → (node : Bytes) → ExtentWalk → Except ReadError ExtentWalk
  | 0, _, _ => .error .badExtentTree
  | levels + 1, node, walk => do
      match ← orParse (parseNode node) with
      | .leaves leaves => do
          leaves.forM self.checkLeaf
          let met :=
            leaves.filter fun leaf => satAdd leaf.block leaf.len > lo && leaf.block < hi
          return { walk with out := walk.out ++ met }
      | .index _ entries =>
          (coverage entries).foldlM
            (fun walk (idx, stop) =>
              if idx.leaf ∈ walk.visited then .error .badExtentTree
              else
                let walk := { walk with visited := idx.leaf :: walk.visited }
                if stop ≤ lo ∨ idx.block ≥ hi then .ok walk
                else do
                  let child ← self.block idx.leaf
                  walkExtentNode lo hi levels child walk)
            walk

/-- The leaves of an inode's tree whose logical runs meet the window. -/
def extentLeavesIn (inode : Inode) (lo hi : Nat) : Except ReadError (List ExtentLeaf) := do
  let walk ← self.walkExtentNode lo hi (maxExtentDepth + 1) inode.block ⟨[], []⟩
  return walk.out

/-- Place the part of an inode's extent tree that falls in the window. An uninitialized run reads
as a hole does.
-/
def extentWindow (inode : Inode) (first : Nat) (map : List Nat)
    : Except ReadError (List Nat) := do
  let stop := satAdd first map.length
  let leaves ← self.extentLeavesIn inode first stop
  return leaves.foldl
    (fun map leaf =>
      let lo := leaf.block
      let hi := satAdd lo leaf.len
      if hi ≤ first ∨ lo ≥ stop ∨ leaf.initialized = false then map
      else placeRange first (max lo first) (min hi stop) (fun l => leaf.start + (l - lo)) map)
    map

/-- Place the blocks an indirect block maps that fall in the window, with `below` levels of
indirection under it. Its own span begins at logical block `base`.
-/
def walkIndirectWindow (first : Nat)
    : (below : Nat) → (block base : Nat) → List Nat → Except ReadError (List Nat)
  | below, block, base, map =>
      if block = 0 then .ok map
      else do
        let buf ← self.block block
        let perBlock := self.blockSize / 4
        let span := min (perBlock ^ below) u64Max
        let stop := satAdd first map.length
        let lo (i : Nat) : Nat := satAdd base (satMul i span)
        ((List.range perBlock).takeWhile fun i => lo i < stop).foldlM
          (fun map i =>
            if satAdd (lo i) span ≤ first then .ok map
            else
              let ptr := getU32 buf (i * 4)
              match below with
              | 0 => do
                  if ptr ≠ 0 then self.checkBlock ptr else .ok ()
                  return map.set (lo i - first) ptr
              | below + 1 => walkIndirectWindow first below ptr (lo i) map)
          map

/-- Place the indirect levels of a classic map that fall in the window, `below` by `below`: the
level whose blocks have that many levels under them begins at logical block `base`.
-/
def blockMapLevels (inode : Inode) (first : Nat)
    : (levels : List Nat) → (base : Nat) → List Nat → Except ReadError (List Nat)
  | [], _, map => .ok map
  | below :: levels, base, map =>
      if base ≥ satAdd first map.length then .ok map
      else do
        let next := satAdd base (min ((self.blockSize / 4) ^ (below + 1)) u64Max)
        let map ←
          if next > first then
            self.walkIndirectWindow first below
              (getU32 inode.block ((directBlocks + below) * 4)) base map
          else
            Except.ok map
        blockMapLevels inode first levels next map

/-- Place the part of an inode's classic block map that falls in the window. -/
def blockMapWindow (inode : Inode) (first : Nat) (map : List Nat)
    : Except ReadError (List Nat) := do
  let stop := satAdd first map.length
  let map ← (List.range' first (min directBlocks stop - first)).foldlM
    (fun map i => do
      let ptr := getU32 inode.block (i * 4)
      if ptr ≠ 0 then self.checkBlock ptr else .ok ()
      return map.set (i - first) ptr)
    map
  self.blockMapLevels inode first (List.range indirectLevels) directBlocks map

/-- The map of `count` logical blocks beginning at `first`. -/
def mapWindow (inode : Inode) (first count : Nat) : Except ReadError (List Nat) :=
  if count = 0 ∨ inode.mapsData self.blockSize = false then .ok []
  else
    let map := List.replicate count 0
    if inode.hasFlag InodeFlags.extents then self.extentWindow inode first map
    else self.blockMapWindow inode first map

/-- The blocks the image can hold. -/
def materializedBlockBound : Nat := min self.sb.blocksCount (self.sourceLen / self.blockSize)

/-- How many logical blocks an inode's size covers. A directory is never sparse. -/
def logicalBlockCount (inode : Inode) : Nat :=
  let want := min (divCeil inode.size self.blockSize) maxLogicalBlocks
  if inode.isDir then min want self.materializedBlockBound else want

/-- The length of the data an inode maps. -/
def fileLen (inode : Inode) : Nat :=
  if inode.mapsData self.blockSize = false then 0
  else min inode.size (satMul (self.logicalBlockCount inode) self.blockSize)

end Reader

end Ferrosys.Ext
