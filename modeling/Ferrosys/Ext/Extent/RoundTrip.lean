import Ferrosys.Ext.Reader.Extents

/-! An extent tree that is built over a file's ranges, written and read back maps each logical
block to the one the ranges denote. An index entry stores its child's block in 48 bits, so the
blocks a tree is given have to be among those.
-/

namespace Ferrosys.Ext

open Checked Spans Splice

/-- The leaves of ranges in 48-bit blocks are written as they are: each is inside the ranges, and
begins below `maxLogicalBlocks`.
-/
theorem Maps.fits {leaves : List ExtentLeaf} {ranges : List BlockRange} {bound : Nat}
    (maps : Maps leaves (blocksOf ranges))
    (inside : ∀ range ∈ ranges, range.start + range.len ≤ bound)
    : ∀ leaf ∈ leaves, 0 < leaf.len ∧ leaf.start + leaf.len ≤ bound
      ∧ leaf.block + leaf.len ≤ (blocksOf ranges).length := by
  intro leaf member
  obtain ⟨-, some_, stop⟩ := tiles_mem maps.tiles (List.mem_map_of_mem member)
  have long : 0 < leaf.len := some_
  refine ⟨long, ?_, stop⟩
  have last : leaf.start + (leaf.len - 1) ∈ leaf.blocks :=
    List.mem_range'_1.mpr (by omega)
  have listed : leaf.start + (leaf.len - 1) ∈ blocksOf ranges :=
    maps.denotes ▸ List.mem_flatMap.mpr ⟨leaf, member, last⟩
  have := lt_of_mem_blocksOf inside listed
  omega

/-- Building, writing and reading back. Whatever the buffers held, the root and the nodes are
written; and any reader that finds them in their blocks, of a filesystem that has the ranges'
blocks, maps every window as the ranges do, and to nothing past them.
-/
theorem extentTree_readsBack {blockSize : Nat} (least : 1024 ≤ blockSize)
    (most : blockSize ≤ 2 ^ 16) {ranges : List BlockRange} {leaves : List ExtentLeaf}
    (addressed : ∀ range ∈ ranges, range.start + range.len ≤ physicalBound)
    (built : buildLeaves ranges = .ok leaves) {shape : TreeShape}
    (planned : planTree leaves.length (nodeCapacity Inode.blockBytes) (nodeCapacity blockSize)
      = .ok shape)
    {nodeBlocks : List Nat} (given : nodeBlocks.length = shape.nodeBlocks)
    (distinct : nodeBlocks.Nodup) (small : ∀ block ∈ nodeBlocks, block < physicalBound)
    {rootBuf : Bytes} (rootSized : rootBuf.length = Inode.blockBytes)
    {buf : Nat → Bytes} (sized : ∀ block, (buf block).length = blockSize)
    : ∃ tree root, ∃ contents : ExtentNodeBlock → Bytes,
        buildTree leaves (nodeCapacity Inode.blockBytes) (nodeCapacity blockSize) nodeBlocks
          = .ok tree
        ∧ writeNode tree.root (nodeCapacity Inode.blockBytes) rootBuf = .ok root
        ∧ (∀ stored ∈ tree.nodes,
            writeNode stored.node (nodeCapacity blockSize) (buf stored.block)
              = .ok (contents stored))
        ∧ ∀ (self : Reader) (inode : Inode),
            (∀ range ∈ ranges, range.start + range.len ≤ self.sb.blocksCount) →
            inode.block = root →
            (∀ stored ∈ tree.nodes, self.block stored.block = .ok (contents stored)) →
            ∀ first count,
              self.extentWindow inode first (List.replicate count 0)
                = .ok ((List.range' first count).map (physicalOf (blocksOf ranges))) := by
  have maps := buildLeaves_maps built
  have total : (blocksOf ranges).length ≤ 2 ^ 32 := by
    obtain ⟨⟨⟩, checked, -⟩ := bind_eq_ok.mp built
    rw [length_blocksOf]
    exact Nat.not_lt.mp (of_decide_eq_false (refuseIf_eq_ok.mp checked))
  have fits : ∀ leaf ∈ leaves, leaf.Fits := by
    intro leaf member
    obtain ⟨some_, inside, listed⟩ := maps.fits addressed leaf member
    obtain ⟨initialized, long⟩ := maps.each leaf member
    exact ⟨by omega, some_, long, by omega, initialized⟩
  obtain ⟨tree, assembled, treeBuilt⟩ :=
    buildTree_built total maps.tiles fits planned given small
  have roomy : extentEntrySize * (nodeCapacity blockSize + 1) ≤ blockSize
      ∧ 0 < nodeCapacity blockSize ∧ nodeCapacity blockSize < 2 ^ 16 := by
    have entrySize : extentEntrySize = 12 := rfl
    rw [nodeCapacity, entrySize]
    omega
  obtain ⟨root, rootWritten, -, rootBack⟩ :=
    @parseNode_writeNode tree.root _ rootBuf treeBuilt.root.1 (by decide) (by decide)
      treeBuilt.root.2 (by rw [rootSized]; decide)
  have written : ∀ stored ∈ tree.nodes, ∃ bytes,
      writeNode stored.node (nodeCapacity blockSize) (buf stored.block) = .ok bytes
      ∧ parseNode bytes = .ok stored.node := by
    intro stored member
    obtain ⟨itFits, short, -⟩ := treeBuilt.nodes stored member
    obtain ⟨bytes, wrote, -, back⟩ := @parseNode_writeNode stored.node _ (buf stored.block)
      itFits roomy.2.1 roomy.2.2 short (by rw [sized]; exact roomy.1)
    exact ⟨bytes, wrote, back⟩
  let contents (stored : ExtentNodeBlock) : Bytes :=
    (writeNode stored.node (nodeCapacity blockSize) (buf stored.block)).toOption.getD []
  have held : ∀ stored ∈ tree.nodes,
      writeNode stored.node (nodeCapacity blockSize) (buf stored.block) = .ok (contents stored)
      ∧ parseNode (contents stored) = .ok stored.node := by
    intro stored member
    obtain ⟨bytes, wrote, back⟩ := written stored member
    have same : contents stored = bytes := by
      simp only [contents, wrote, Except.toOption, Option.getD_some]
    rw [same]
    exact ⟨wrote, back⟩
  refine ⟨tree, root, contents, assembled, rootWritten, fun stored member =>
    (held stored member).1, ?_⟩
  intro self inode present rooted reads first count
  obtain ⟨height, deep, names, spreads, same⟩ := treeBuilt.spreads self.HoldsNode
    fun stored member => ⟨contents stored, reads stored member, (held stored member).2⟩
  have checked : ∀ leaf ∈ leaves, self.checkLeaf leaf = .ok () := by
    intro leaf member
    obtain ⟨some_, inside, -⟩ := maps.fits present leaf member
    exact Reader.checkLeaf_eq_ok some_ inside
  have bounded : (2 : Nat) ^ 32 ≤ u64Max := by decide
  obtain ⟨visited, walked, -⟩ := @Reader.walkExtentNode_spreads self first (satAdd first count)
    height (maxExtentDepth + 1) (Nat.lt_succ_of_le deep) root tree.root rootBack 0 _ leaves names
    spreads (total.trans bounded) checked (same.nodup_iff.mpr distinct) ⟨[], []⟩
    (fun _ _ => List.not_mem_nil)
  rw [Reader.extentWindow_eq, Reader.extentLeavesIn, rooted, walked]
  refine congrArg Except.ok (List.map_congr_left ?_)
  intro l member
  obtain ⟨low, high⟩ := List.mem_range'_1.mp member
  rw [List.nil_append]
  by_cases reach : l < satAdd first count
  · rw [mappedAt_filter leaves low reach, maps.mappedAt_eq (total.trans bounded)]
  · -- Past the top of the 64-bit range no leaf maps anything.
    have past : u64Max ≤ l := by
      simp only [satAdd] at reach
      omega
    rw [physicalOf_of_le (by omega), mappedAt, mappedAt_of_past past]

/-- A reader of an image in blocks of 1024 bytes, with no journal. -/
def imageReader (src : Bytes) (blocksCount : Nat) (small : src.length < 2 ^ 63) : Reader where
  src := src
  base := 0
  sb :=
    {
      inodesCount := 0
      blocksCount := blocksCount
      firstDataBlock := 1
      logBlockSize := 0
      blocksPerGroup := 8192
      inodesPerGroup := 0
      state := 1
      revLevel := 1
      firstIno := goodOldFirstInode
      inodeSize := 256
      featureCompat := 0
      featureIncompat := Incompat.extents
      featureRoCompat := 0
      journalInum := 0
      descSize := 0
      firstMetaBg := 0
      backupBgs := (0, 0)
    }
  sbRaw := []
  feature := .ext2
  blockSize := 1024
  policy := .strict
  maxFileBytes := u64Max
  tableCache := tableCache 1024
  needsRecovery := false
  stateOnDisk := 1
  journal := none
  bounded := small
  based := Nat.zero_le _
  blockSized := Nat.le_refl _

/-- A block of the image is its own bytes. -/
theorem imageReader_block {src : Bytes} {blocksCount : Nat} (small : src.length < 2 ^ 63) {n : Nat}
    (present : n < blocksCount) (inside : n * 1024 + 1024 ≤ src.length)
    : (imageReader src blocksCount small).block n = .ok (slice src (n * 1024) 1024) := by
  have placed : offsetOf 0 n (imageReader src blocksCount small).blockSize = some (n * 1024) := by
    change offsetOf 0 n 1024 = _
    rw [offsetOf, Nat.zero_add, if_pos ?_]
    rw [u64Max]
    omega
  have read := (imageReader src blocksCount small).readHome_eq (show n * 1024 + 1024
    ≤ src.length - 0 from inside)
  have known : ¬ n ≥ (imageReader src blocksCount small).sb.blocksCount := Nat.not_le.mpr present
  rw [Reader.block, Reader.checkBlock, if_neg known, ok_bind, placed]
  change Reader.relabel "block" n ((imageReader src blocksCount small).readAt (n * 1024) 1024) = _
  rw [Reader.readAt, read]
  rfl

/-- Five blocks, no two of them next to each other: one more leaf than a root holds. -/
def fiveRanges : List BlockRange := [⟨1, 1⟩, ⟨3, 1⟩, ⟨5, 1⟩, ⟨7, 1⟩, ⟨9, 1⟩]

/-- The leaves of the five blocks. -/
def fiveLeaves : List ExtentLeaf :=
  [⟨0, 1, 1, true⟩, ⟨1, 1, 3, true⟩, ⟨2, 1, 5, true⟩, ⟨3, 1, 7, true⟩, ⟨4, 1, 9, true⟩]

/-- An inode whose data an extent tree maps. -/
def extentInode (root : Bytes) : Inode := ⟨0o100644, 5120, 0, InodeFlags.extents, 0, root⟩

/-- Five leaves spill into a node, here in block 20, and a window that runs past them reads each
and then holes.
-/
theorem extentTree_readsBack_of_five
    : ∃ (reader : Reader) (root : Bytes),
        reader.blockSize = 1024
        ∧ reader.extentWindow (extentInode root) 1 (List.replicate 6 0)
          = .ok [3, 5, 7, 9, 0, 0] := by
  obtain ⟨tree, root, contents, built, -, written, reads⟩ :=
    @extentTree_readsBack 1024 (by decide) (by decide) fiveRanges fiveLeaves (by decide)
      (by decide) ⟨1, [1], 1⟩ (by decide) [20] rfl (by decide) (by decide)
      (List.replicate 60 0) List.length_replicate (fun _ => List.replicate 1024 0)
      (fun _ => List.length_replicate)
  have assembled : buildTree fiveLeaves 4 84 [20]
      = .ok ⟨.index 1 [⟨0, 20⟩], [⟨20, .leaves fiveLeaves⟩]⟩ := by decide
  obtain rfl := Except.ok.inj (built.symm.trans assembled)
  have wrote := written ⟨20, .leaves fiveLeaves⟩ List.mem_cons_self
  have length : (contents ⟨20, .leaves fiveLeaves⟩).length = 1024 := by
    have evaluated : (writeNode (.leaves fiveLeaves) 84 (List.replicate 1024 0)).map List.length
        = .ok 1024 := by decide +kernel
    rw [show writeNode (.leaves fiveLeaves) 84 (List.replicate 1024 0) = _ from wrote] at evaluated
    exact Except.ok.inj evaluated
  let image := putBlock 1024 (List.replicate (32 * 1024) 0) 20 (contents ⟨20, .leaves fiveLeaves⟩)
  have long : image.length = 32 * 1024 := (length_putBlock _ _ _ _).trans List.length_replicate
  have small : image.length < 2 ^ 63 := by rw [long]; decide
  refine ⟨imageReader image 32 small, root, rfl, ?_⟩
  refine reads (imageReader image 32 small) (extentInode root)
    (show ∀ range ∈ fiveRanges, range.start + range.len ≤ 32 by decide) rfl ?_ 1 6
  intro stored member
  obtain rfl := List.mem_singleton.mp member
  rw [imageReader_block small (by decide) (by rw [long]; decide)]
  exact congrArg Except.ok (slice_putBlock_self length (by rw [List.length_replicate]; decide))

/-- A root whose one entry names a blank block is refused: a blank block is no node. -/
theorem extentWindow_of_blank {self : Reader} {root : Bytes}
    (back : parseNode root = .ok (.index 1 [⟨0, 0⟩]))
    (blank : self.block 0 = .ok (List.replicate 1024 0))
    : self.extentWindow (extentInode root) 0 (List.replicate 5 0)
      = .error (.parse (.badMagic "ExtentHeader" 0 extentMagic)) := by
  have refused : parseNode (List.replicate 1024 0)
      = .error (.badMagic "ExtentHeader" 0 extentMagic) := by decide +kernel
  have child (walk : ExtentWalk)
      : self.walkExtentNode 0 (satAdd 0 5) maxExtentDepth (List.replicate 1024 0) walk
        = .error (.parse (.badMagic "ExtentHeader" 0 extentMagic)) := by
    rw [maxExtentDepth, Reader.walkExtentNode, refused]
    rfl
  have reached : ¬ (u64Max ≤ 0 ∨ 0 ≥ satAdd 0 5) := by decide
  have turn : self.walkEntry 0 (satAdd 0 5) maxExtentDepth ⟨[], []⟩ (⟨0, 0⟩, u64Max)
      = .error (.parse (.badMagic "ExtentHeader" 0 extentMagic)) := by
    rw [Reader.walkEntry, if_neg List.not_mem_nil]
    dsimp only
    rw [if_neg reached, blank, ok_bind, child]
  rw [Reader.extentWindow_eq, Reader.extentLeavesIn, show (extentInode root).block = root from rfl,
    Reader.walkExtentNode_index back, coverage, List.foldlM_cons, turn]
  rfl

/-- A node in block 2^48: the root's entry stores the block's low 48 bits, all zero, so the walk
reads block zero in its place, which holds no node. Everything else is as in the reading back of a
tree: the ranges are in 48-bit blocks, the tree is built and written, and the reader finds the
node in its own block.
-/
theorem wideNodeBlock_lost
    : ∃ (root node : Bytes) (reader : Reader),
        buildLeaves fiveRanges = .ok fiveLeaves
        ∧ planTree 5 (nodeCapacity Inode.blockBytes) (nodeCapacity 1024) = .ok ⟨1, [1], 1⟩
        ∧ buildTree fiveLeaves (nodeCapacity Inode.blockBytes) (nodeCapacity 1024) [2 ^ 48]
          = .ok ⟨.index 1 [⟨0, 2 ^ 48⟩], [⟨2 ^ 48, .leaves fiveLeaves⟩]⟩
        ∧ writeNode (.index 1 [⟨0, 2 ^ 48⟩]) (nodeCapacity Inode.blockBytes)
            (List.replicate Inode.blockBytes 0) = .ok root
        ∧ writeNode (.leaves fiveLeaves) (nodeCapacity 1024) (List.replicate 1024 0) = .ok node
        ∧ reader.blockSize = 1024
        ∧ (∀ range ∈ fiveRanges, range.start + range.len ≤ reader.sb.blocksCount)
        ∧ reader.block (2 ^ 48) = .ok node
        ∧ reader.extentWindow (extentInode root) 0 (List.replicate 5 0) ≠ .ok [1, 3, 5, 7, 9] := by
  obtain ⟨root, wroteRoot, back⟩ : ∃ root,
      writeNode (.index 1 [⟨0, 2 ^ 48⟩]) (nodeCapacity Inode.blockBytes)
        (List.replicate Inode.blockBytes 0) = .ok root
      ∧ parseNode root = .ok (.index 1 [⟨0, 0⟩]) := ⟨_, rfl, by decide +kernel⟩
  obtain ⟨node, wroteNode, length⟩ : ∃ node,
      writeNode (.leaves fiveLeaves) (nodeCapacity 1024) (List.replicate 1024 0) = .ok node
      ∧ node.length = 1024 := by
    obtain ⟨node, wrote, length, -⟩ := @parseNode_writeNode (.leaves fiveLeaves)
      (nodeCapacity 1024) (List.replicate 1024 0)
      (by
        intro leaf member
        have each : ∀ leaf ∈ fiveLeaves, leaf.block < 2 ^ 32 ∧ 0 < leaf.len
            ∧ leaf.len ≤ maxExtentLen ∧ leaf.start < physicalBound
            ∧ leaf.initialized = true := by decide
        obtain ⟨block, some_, len, start, initialized⟩ := each leaf member
        exact ⟨block, some_, len, start, initialized⟩)
      (by decide) (by decide) (by decide) (by rw [List.length_replicate]; decide)
    exact ⟨node, wrote, length.trans List.length_replicate⟩
  have long (zeros : Nat) : (List.replicate zeros (0 : UInt8) ++ node).length = zeros + 1024 := by
    rw [List.length_append, List.length_replicate, length]
  have small : (List.replicate (2 ^ 48 * 1024) (0 : UInt8) ++ node).length < 2 ^ 63 := by
    rw [long]
    decide
  refine ⟨root, node, imageReader _ (2 ^ 48 + 1) small, by decide, by decide, by decide, wroteRoot,
    wroteNode, rfl, show ∀ range ∈ fiveRanges, range.start + range.len ≤ 2 ^ 48 + 1 by decide,
    ?_, ?_⟩
  · rw [imageReader_block small (Nat.lt_succ_self _) (by rw [long])]
    refine congrArg Except.ok ?_
    have whole := slice_append_right (List.replicate (2 ^ 48 * 1024) (0 : UInt8)) node 0 1024
    rw [List.length_replicate, Nat.add_zero] at whole
    rw [whole, slice, List.drop_zero, ← length, List.take_length]
  · -- Block zero is blank, and a blank block is no node.
    have blank : (imageReader _ (2 ^ 48 + 1) small).block 0 = .ok (List.replicate 1024 0) := by
      rw [imageReader_block small (Nat.succ_pos _) (by rw [long]; omega), Nat.zero_mul,
        slice_append_left _ (by rw [List.length_replicate]; decide), slice, List.drop_zero,
        List.take_replicate]
      rfl
    rw [extentWindow_of_blank back blank]
    exact nofun

end Ferrosys.Ext
