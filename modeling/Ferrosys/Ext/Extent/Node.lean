import Ferrosys.Ext.Extent

/-! A node's bytes read back as the node. An index entry's child block is stored in 48 bits, as
a leaf's first block is.
-/

namespace Ferrosys.Ext

open Checked Splice

/-- Physical blocks an extent tree can name. -/
def physicalBound : Nat := 2 ^ 48

/-- An index entry that its twelve bytes hold. -/
structure ExtentIdx.Fits (idx : ExtentIdx) : Prop where
  block : idx.block < 2 ^ 32
  leaf : idx.leaf < physicalBound

/-- A leaf that holds data and that its twelve bytes hold. -/
structure ExtentLeaf.Fits (leaf : ExtentLeaf) : Prop where
  block : leaf.block < 2 ^ 32
  some_ : 0 < leaf.len
  len : leaf.len ≤ maxExtentLen
  start : leaf.start < physicalBound
  initialized : leaf.initialized = true

/-- A node whose entries its bytes hold. An interior node is above the leaves. -/
def ExtentNode.Fits : ExtentNode → Prop
  | .leaves runs => ∀ leaf ∈ runs, leaf.Fits
  | .index depth entries => 0 < depth ∧ depth < 2 ^ 16 ∧ ∀ idx ∈ entries, idx.Fits

/-- An index entry reads back as it was written. -/
theorem ExtentIdx.fromBytes_toBytes {self : ExtentIdx} (fits : self.Fits)
    : ExtentIdx.fromBytes self.toBytes = self := by
  obtain ⟨block, leaf⟩ := self
  have first := fits.block
  have child := fits.leaf
  simp only [physicalBound] at first child
  simp only [fromBytes, toBytes, toLeBytes32, toLeBytes16, List.cons_append, List.nil_append,
    getU32, getU16, getU8, join64, List.getElem?_cons_zero, List.getElem?_cons_succ,
    Option.getD_some, UInt8.toNat_ofNat', Nat.shiftRight_eq_div_pow, mk.injEq]
  omega

/-- A leaf that holds data is written as twelve bytes, and reads back. -/
theorem ExtentLeaf.toBytes_eq_ok {self : ExtentLeaf} (fits : self.Fits)
    : ∃ bytes, self.toBytes = .ok bytes ∧ bytes.length = extentEntrySize
      ∧ ExtentLeaf.fromBytes bytes = self := by
  obtain ⟨block, len, start, initialized⟩ := self
  have first := fits.block
  have long := fits.len
  have physical := fits.start
  obtain rfl : initialized = true := fits.initialized
  simp only [physicalBound, maxExtentLen] at first long physical
  refine ⟨_, by simp only [toBytes, rawLen, if_true, if_neg (show ¬ len > uninitLenLimit from
    Nat.not_lt.mpr long)]; rfl, rfl, ?_⟩
  have raw : (len % 2 ^ 8) + (len / 2 ^ 8 % 2 ^ 8) * 2 ^ 8 = len := by omega
  simp only [fromBytes, toLeBytes32, toLeBytes16, List.cons_append, List.nil_append,
    getU32, getU16, getU8, join64, List.getElem?_cons_zero, List.getElem?_cons_succ,
    Option.getD_some, UInt8.toNat_ofNat', Nat.shiftRight_eq_div_pow, raw, uninitLenLimit,
    if_neg (Nat.not_lt.mpr long), mk.injEq, and_true, true_and]
  omega

/-- A header reads back as it was written. -/
theorem ExtentHeader.fromBytes_toBytes {self : ExtentHeader} (entries : self.entries < 2 ^ 16)
    (max : self.max < 2 ^ 16) (depth : self.depth < 2 ^ 16) (generation : self.generation < 2 ^ 32)
    : ExtentHeader.fromBytes self.toBytes = .ok self := by
  obtain ⟨entries_, max_, depth_, generation_⟩ := self
  dsimp only at entries max depth generation
  have magic : getU16 (toBytes ⟨entries_, max_, depth_, generation_⟩) 0 = extentMagic := by
    simp only [toBytes, toLeBytes16, List.cons_append, getU16, getU8, List.getElem?_cons_zero,
      List.getElem?_cons_succ, Option.getD_some, UInt8.toNat_ofNat']
    decide
  simp only [fromBytes, magic, bne_self_eq_false, refuseIf, Bool.false_eq_true, if_false]
  refine congrArg Except.ok ?_
  simp only [toBytes, toLeBytes32, toLeBytes16, List.cons_append, List.nil_append,
    getU32, getU16, getU8, List.getElem?_cons_zero, List.getElem?_cons_succ,
    Option.getD_some, UInt8.toNat_ofNat', mk.injEq]
  omega

/-- The bytes a node's entries are written as, one piece an entry. -/
theorem ExtentNode.entryBytes_eq_ok {node : ExtentNode} (fits : node.Fits)
    : ∃ pieces, node.entryBytes = .ok pieces ∧ pieces.length = node.len
      ∧ (∀ piece ∈ pieces, piece.length = extentEntrySize)
      ∧ match node with
        | .leaves runs => pieces.map ExtentLeaf.fromBytes = runs
        | .index _ entries => pieces.map ExtentIdx.fromBytes = entries := by
  cases node with
  | index depth entries =>
      refine ⟨_, rfl, List.length_map .., ?_, ?_⟩
      · intro piece member
        obtain ⟨idx, -, rfl⟩ := List.mem_map.mp member
        rfl
      · dsimp only
        rw [List.map_map]
        exact (List.map_congr_left fun idx member =>
          ExtentIdx.fromBytes_toBytes (fits.2.2 idx member)).trans (List.map_id' entries)
  | leaves runs =>
      induction runs with
      | nil => exact ⟨[], rfl, rfl, nofun, rfl⟩
      | cons leaf rest ih =>
          obtain ⟨bytes, written, sized, back⟩ :=
            ExtentLeaf.toBytes_eq_ok (fits leaf List.mem_cons_self)
          obtain ⟨pieces, others, count, each, all⟩ :=
            ih fun other member => fits other (List.mem_cons_of_mem _ member)
          refine ⟨bytes :: pieces, ?_, congrArg (· + 1) count, ?_, ?_⟩
          · simp only [entryBytes, List.mapM_cons, written] at others ⊢
            rw [others]
            rfl
          · intro piece member
            rcases List.mem_cons.mp member with rfl | later
            · exact sized
            · exact each piece later
          · exact congrArg₂ List.cons back all

/-- A header and pieces of its length, laid at the front of a buffer with room for them, as long
as the pieces and the header are.
-/
theorem length_headed {header : Bytes} {pieces : List Bytes}
    (headerLong : header.length = extentEntrySize)
    (sized : ∀ piece ∈ pieces, piece.length = extentEntrySize)
    : (header ++ pieces.flatten).length = extentEntrySize * (pieces.length + 1) := by
  rw [List.length_append, headerLong, List.length_flatten, List.map_congr_left sized,
    List.map_const', List.sum_replicate_nat, Nat.mul_succ, Nat.mul_comm, Nat.add_comm]

/-- A header laid at the front of a buffer reads back. -/
theorem slice_header {header data buf : Bytes} (headerLong : header.length = extentEntrySize)
    (inside : (header ++ data).length ≤ buf.length)
    : slice (splice buf 0 (header ++ data)) 0 extentEntrySize = header := by
  have long : extentEntrySize ≤ (header ++ data).length := by
    rw [List.length_append, headerLong]
    exact Nat.le_add_right _ _
  rw [← Nat.zero_add 0, slice_splice_of_inside (by omega) (by omega),
    slice_append_left _ (Nat.le_of_eq (by rw [headerLong, Nat.zero_add])), slice, List.drop_zero,
    ← headerLong, List.take_length]

/-- Pieces laid after a header read back each from its own place. -/
theorem map_entries {α : Type} (f : Bytes → α) {header buf : Bytes} {pieces : List Bytes}
    (headerLong : header.length = extentEntrySize)
    (sized : ∀ piece ∈ pieces, piece.length = extentEntrySize)
    (inside : (header ++ pieces.flatten).length ≤ buf.length)
    : (List.range pieces.length).map (fun i =>
        f (slice (splice buf 0 (header ++ pieces.flatten)) (extentEntrySize * (i + 1))
          extentEntrySize))
      = pieces.map f := by
  have long := length_headed headerLong sized
  apply List.ext_getElem?
  intro i
  rw [List.getElem?_map, List.getElem?_map]
  by_cases below : i < pieces.length
  · have at_ := List.getElem?_eq_getElem below
    have reach : extentEntrySize * (i + 1) + extentEntrySize
        ≤ extentEntrySize * (pieces.length + 1) :=
      Nat.mul_le_mul_left extentEntrySize (show i + 1 + 1 ≤ pieces.length + 1 by omega)
    have place : extentEntrySize * (i + 1) = header.length + i * extentEntrySize := by
      rw [headerLong, Nat.mul_succ, Nat.mul_comm, Nat.add_comm]
    rw [List.getElem?_range below, at_, Option.map_some, Option.map_some,
      ← Nat.zero_add (extentEntrySize * (i + 1)),
      slice_splice_of_inside (by omega) (by omega), place, slice_append_right,
      slice_flatten sized at_]
  · rw [List.getElem?_eq_none (by rw [List.length_range]; omega),
      List.getElem?_eq_none (by omega), Option.map_none, Option.map_none]

/-- A node that fits its buffer is written, and reads back: the header first, and then every
entry from its own place.
-/
theorem parseNode_writeNode {node : ExtentNode} {ehMax : Nat} {buf : Bytes} (fits : node.Fits)
    (some_ : 0 < ehMax) (counted : ehMax < 2 ^ 16) (held : node.len ≤ ehMax)
    (room : extentEntrySize * (ehMax + 1) ≤ buf.length)
    : ∃ bytes, writeNode node ehMax buf = .ok bytes ∧ bytes.length = buf.length
      ∧ parseNode bytes = .ok node := by
  obtain ⟨pieces, written, count, sized, back⟩ := ExtentNode.entryBytes_eq_ok fits
  have depth : node.depth < 2 ^ 16 := by
    cases node with
    | leaves runs => exact Nat.two_pow_pos 16
    | index depth entries => exact fits.2.1
  let header : ExtentHeader := ⟨node.len, ehMax, node.depth, 0⟩
  have headerLong : header.toBytes.length = extentEntrySize := rfl
  have inside : (header.toBytes ++ pieces.flatten).length ≤ buf.length := by
    rw [length_headed headerLong sized, count]
    exact (Nat.mul_le_mul_left _ (Nat.succ_le_succ held)).trans room
  have large : ¬ buf.length < extentEntrySize :=
    Nat.not_lt.mpr ((Nat.le_mul_of_pos_right _ (Nat.succ_pos _)).trans room)
  have whole : writeNode node ehMax buf
      = .ok (splice buf 0 (header.toBytes ++ pieces.flatten)) := by
    have fit : ¬ node.len > ehMax := by omega
    have hold : ¬ extentEntrySize * (ehMax + 1) > buf.length := by omega
    simp only [writeNode, refuseIf, large, fit, hold, written, decide_false, Bool.or_self,
      Bool.false_eq_true, if_false]
    rfl
  refine ⟨_, whole, length_splice _ _ _, ?_⟩
  have parsed : ExtentHeader.fromBytes header.toBytes = .ok header :=
    ExtentHeader.fromBytes_toBytes (show node.len < 2 ^ 16 by omega) counted depth
      (Nat.two_pow_pos 32)
  have capacity : ¬ ehMax > nodeCapacity buf.length := by
    have entrySize : extentEntrySize = 12 := rfl
    rw [Nat.not_lt, nodeCapacity, Nat.le_div_iff_mul_le (by decide)]
    rw [entrySize] at room ⊢
    omega
  have entries (α : Type) (f : Bytes → α) := map_entries f headerLong sized inside
  have counts : header.entries = pieces.length := count.symm
  have most : header.max = ehMax := rfl
  have deep : header.depth = node.depth := rfl
  have fit : ¬ pieces.length > ehMax := by omega
  have declared : (ehMax == 0) = false := beq_false_of_ne (by omega)
  simp only [parseNode, refuseIf, length_splice, large, slice_header headerLong inside, parsed,
    counts, most, deep, declared, capacity, fit, decide_false, Bool.or_self, Bool.false_eq_true,
    if_false, entries, ok_bind]
  cases node with
  | leaves runs =>
      rw [if_pos (show (ExtentNode.leaves runs).depth = 0 from rfl), back]
      rfl
  | index depth_ idxs =>
      have above : ¬ (ExtentNode.index depth_ idxs).depth = 0 := Nat.ne_of_gt fits.1
      rw [if_neg above, back]
      rfl

end Ferrosys.Ext
