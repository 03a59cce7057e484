import Ferrosys.Ext.Dirent

/-! The index blocks of a hash-indexed directory: the root, its interior nodes, and the entries they
hold behind a record that hides them from a linear walk.
-/

namespace Ferrosys.Ext

open Splice

def dxEntryLen : Nat := 8
def dxTailLen : Nat := 8
def dxRootCountOffset : Nat := 32
def dxNodeCountOffset : Nat := 8
def dxMaxIndirectLevels : Nat := 1

/-- The bit an index entry's hash carries where its names continue from the block before. -/
def dxHashContinued : UInt32 := 1

/-- One index entry: the lowest hash in a child, and the child's logical block. -/
structure DxEntry where
  hash : UInt32
  block : UInt32
deriving DecidableEq

/-- Index entries a block holds, one slot of which its checksum tail takes. -/
def dxLimit (blockSize countOffset : Nat) (checksums : Bool) : Nat :=
  let slots := (blockSize - countOffset) / dxEntryLen
  if checksums then slots - 1 else slots

/-- Where an index block's checksum tail begins. -/
def dxTailOffset (countOffset limit : Nat) : Nat := countOffset + dxEntryLen * limit

/-- Write a root block's header: the two dots, the second's record covering the index, and what the
index is ordered by and how deep it is.
-/
def writeDxRootHeader (buf : Bytes) (dirIno parentIno : UInt32) (hashVersion indirectLevels : Nat)
    : Except ParseError Bytes := do
  Checked.refuseIf (buf.length < dxRootCountOffset)
    (.tooShort "DxRoot" dxRootCountOffset buf.length)
  let blockSize := buf.length
  let buf := putU32 buf 0 dirIno.toNat
  let buf := putU16 buf 4 12
  let buf := putU8 buf 6 1
  let buf := putU8 buf 7 FileType.dir.toU8
  let buf := putU8 buf 8 46
  let buf := putU32 buf 12 parentIno.toNat
  let buf := putU16 buf 16 (blockSize - 12)
  let buf := putU8 buf 18 2
  let buf := putU8 buf 19 FileType.dir.toU8
  let buf := putU8 buf 20 46
  let buf := putU8 buf 21 46
  let buf := putU32 buf 24 0
  let buf := putU8 buf 28 hashVersion
  let buf := putU8 buf 29 8
  let buf := putU8 buf 30 indirectLevels
  return putU8 buf 31 0

/-- Write an interior node's header: one unused record that spans the block. -/
def writeDxNodeHeader (buf : Bytes) : Except ParseError Bytes := do
  Checked.refuseIf (buf.length < dxNodeCountOffset)
    (.tooShort "DxNode" dxNodeCountOffset buf.length)
  let blockSize := buf.length
  let buf := putU32 buf 0 0
  let buf := putU16 buf 4 blockSize
  let buf := putU8 buf 6 0
  return putU8 buf 7 0

/-- Write index entry `i`. -/
def putDxEntry (countOffset : Nat) (buf : Bytes) (indexed : DxEntry × Nat) : Bytes :=
  let off := countOffset + dxEntryLen * indexed.2
  let buf := putU32 buf off indexed.1.hash.toNat
  putU32 buf (off + 4) indexed.1.block.toNat

/-- Write the entries of an index from `countOffset` on. The first entry's hash is not stored: its
bytes hold the count and the limit.
-/
def writeDxEntries (buf : Bytes) (countOffset limit : Nat) (entries : List DxEntry)
    : Except ParseError Bytes :=
  match entries with
  | [] => .error (.invalidField "DxEntries" "count" 0)
  | first :: rest => do
      Checked.refuseIf (limit < entries.length)
        (.invalidField "DxEntries" "count" entries.length)
      Checked.refuseIf (first.hash != 0) (.invalidField "DxEntries" "hash" first.hash.toNat)
      Checked.refuseIf (buf.length < dxTailOffset countOffset limit)
        (.tooShort "DxEntries" (dxTailOffset countOffset limit) buf.length)
      let buf := putU16 buf countOffset limit
      let buf := putU16 buf (countOffset + 2) entries.length
      let buf := putU32 buf (countOffset + 4) first.block.toNat
      return (rest.zipIdx 1).foldl (putDxEntry countOffset) buf

/-- The limit and the count an index block declares. -/
def readDxCountlimit (buf : Bytes) (countOffset : Nat) : Except ParseError (Nat × Nat) := do
  Checked.refuseIf (buf.length < countOffset + 4)
    (.tooShort "DxCountLimit" (countOffset + 4) buf.length)
  let limit := getU16 buf countOffset
  let count := getU16 buf (countOffset + 2)
  Checked.refuseIf ((buf.length - countOffset) / dxEntryLen < limit)
    (.invalidField "DxCountLimit" "limit" limit)
  Checked.refuseIf (limit < count || count = 0) (.invalidField "DxCountLimit" "count" count)
  return (limit, count)

/-- The entries of an index block. The first one's hash is not stored and reads as zero. -/
def readDxEntries (buf : Bytes) (countOffset : Nat) : Except ParseError (List DxEntry) := do
  let (_, count) ← readDxCountlimit buf countOffset
  let need := countOffset + dxEntryLen * count
  Checked.refuseIf (buf.length < need) (.tooShort "DxEntries" need buf.length)
  let entry (i : Nat) : DxEntry :=
    let off := countOffset + dxEntryLen * i
    ⟨UInt32.ofNat (getU32 buf off), UInt32.ofNat (getU32 buf (off + 4))⟩
  return ⟨0, UInt32.ofNat (getU32 buf (countOffset + 4))⟩
    :: (List.range' 1 (count - 1)).map entry

/-- The hash algorithm and the depth an index root declares. -/
def readDxRootInfo (buf : Bytes) : Except ParseError (Nat × Nat) := do
  Checked.refuseIf (buf.length < dxRootCountOffset)
    (.tooShort "DxRootInfo" dxRootCountOffset buf.length)
  return (getU8 buf 28, getU8 buf 30)

/-- What lies outside the slots the entries are written in is left as it was. -/
theorem slice_foldl_putDxEntry {countOffset limit from_ len : Nat} {indexed : List (DxEntry × Nat)}
    {buf : Bytes} (below : ∀ pair ∈ indexed, pair.2 < limit)
    (apart : from_ + len ≤ countOffset ∨ dxTailOffset countOffset limit ≤ from_)
    : slice (indexed.foldl (putDxEntry countOffset) buf) from_ len = slice buf from_ len := by
  induction indexed generalizing buf with
  | nil => rfl
  | cons pair rest ih =>
      have here := below pair List.mem_cons_self
      unfold dxTailOffset dxEntryLen at apart
      rw [List.foldl_cons, ih fun other member => below other (List.mem_cons_of_mem _ member),
        putDxEntry, putU32, putU32]
      rw [slice_splice_of_apart (by rw [length_toLeBytes32, dxEntryLen]; omega),
        slice_splice_of_apart (by rw [length_toLeBytes32, dxEntryLen]; omega)]

/-- Entries that fit their block are written in their slots, and nowhere else. -/
theorem writeDxEntries_ok {buf : Bytes} {countOffset limit : Nat} {entries : List DxEntry}
    (some_ : entries ≠ []) (fits : entries.length ≤ limit)
    (implied : ∀ first ∈ entries.head?, first.hash = 0)
    (room : dxTailOffset countOffset limit ≤ buf.length)
    : ∃ out, writeDxEntries buf countOffset limit entries = .ok out ∧ out.length = buf.length
        ∧ ∀ from_ len, from_ + len ≤ countOffset ∨ dxTailOffset countOffset limit ≤ from_
          → slice out from_ len = slice buf from_ len := by
  cases entries with
  | nil => exact absurd rfl some_
  | cons first rest =>
      have zero : first.hash = 0 := implied first rfl
      rw [List.length_cons] at fits
      have kept (indexed : List (DxEntry × Nat)) (buf : Bytes)
          : (indexed.foldl (putDxEntry countOffset) buf).length = buf.length := by
        induction indexed generalizing buf with
        | nil => rfl
        | cons pair rest ih =>
            rw [List.foldl_cons, ih, putDxEntry, length_putU32, length_putU32]
      simp only [writeDxEntries, zero, bne_self_eq_false, List.length_cons]
      rw [Checked.refuseIf, decide_eq_false (Nat.not_lt.mpr fits), Checked.refuseIf,
        Checked.refuseIf, decide_eq_false (Nat.not_lt.mpr room)]
      refine ⟨_, rfl, ?_, ?_⟩
      · rw [kept, length_putU32, length_putU16, length_putU16]
      · intro from_ len apart
        have below : ∀ pair ∈ rest.zipIdx 1, pair.2 < limit := by
          intro pair member
          have := List.mem_zipIdx member
          omega
        rw [slice_foldl_putDxEntry below apart]
        unfold dxTailOffset dxEntryLen at apart
        rw [putU32, slice_splice_of_apart (by rw [length_toLeBytes32]; omega), putU16,
          slice_splice_of_apart (by rw [length_toLeBytes16]; omega), putU16,
          slice_splice_of_apart (by rw [length_toLeBytes16]; omega)]

/-- The bytes of a root's header: the two dots, and what the index is ordered by. -/
def rootHeader (dirIno parentIno : UInt32) (len hashVersion indirectLevels : Nat) : Bytes :=
  DirEntry.head ⟨dirIno, .dir, [46]⟩ 12 ++ (zeros 3
    ++ (DirEntry.head ⟨parentIno, .dir, [46, 46]⟩ len ++ (zeros 2 ++ (toLeBytes32 0
      ++ ([UInt8.ofNat hashVersion] ++ ([UInt8.ofNat 8] ++ ([UInt8.ofNat indirectLevels]
        ++ [UInt8.ofNat 0])))))))

/-- Three parts written over zeros, with what stays zero between them. -/
theorem splice_parts {first second third : Bytes} {n : Nat} (one : first.length = 9)
    (two : second.length = 10) (three : third.length = 8) (room : 32 ≤ n)
    : splice (splice (splice (zeros n) 0 first) 12 second) 24 third
      = first ++ (zeros 3 ++ (second ++ (zeros 2 ++ third))) ++ zeros (n - 32) := by
  have begun : splice (zeros n) 0 first = first ++ zeros 3 ++ zeros (n - 12) := by
    have written := @splice_zeros [] first 0 n rfl (by omega)
    rw [one, show n - 9 = 3 + (n - 12) by omega, zeros_add] at written
    simpa only [List.nil_append, List.append_assoc] using written
  have middle : splice (first ++ zeros 3 ++ zeros (n - 12)) 12 second
      = first ++ zeros 3 ++ second ++ zeros 2 ++ zeros (n - 24) := by
    rw [splice_zeros (by rw [List.length_append, one, length_zeros]) (by omega), two,
      show n - 12 - 10 = 2 + (n - 24) by omega, zeros_add]
    simp only [List.append_assoc]
  rw [begun, middle, splice_zeros
    (by simp only [List.length_append, one, two, length_zeros]) (by omega), three,
    show n - 24 - 8 = n - 32 by omega]
  simp only [List.append_assoc]

/-- A root's header is its bytes: each of its three parts is written in one go. -/
theorem writeDxRootHeader_zeros (dirIno parentIno : UInt32) (hashVersion indirectLevels : Nat)
    {blockSize : Nat} (room : dxRootCountOffset ≤ blockSize)
    : writeDxRootHeader (zeros blockSize) dirIno parentIno hashVersion indirectLevels
      = .ok (rootHeader dirIno parentIno (blockSize - 12) hashVersion indirectLevels
          ++ zeros (blockSize - dxRootCountOffset)) := by
  have dot (buf : Bytes) (long : 32 ≤ buf.length)
      : splice (splice (splice (splice (splice buf 0 (toLeBytes32 dirIno.toNat)) 4 (toLeBytes16 12))
          6 [UInt8.ofNat 1]) 7 [UInt8.ofNat FileType.dir.toU8]) 8 [UInt8.ofNat 46]
        = splice buf 0 (DirEntry.head ⟨dirIno, .dir, [46]⟩ 12) := by
    rw [splice_behind, splice_behind, splice_behind, splice_behind]
    · rfl
    all_goals simp only [List.length_append, List.length_singleton, length_toLeBytes16,
      length_toLeBytes32, length_splice]
    all_goals omega
  have dotdot (buf : Bytes) (long : 32 ≤ buf.length)
      : splice (splice (splice (splice (splice (splice buf 12 (toLeBytes32 parentIno.toNat))
          16 (toLeBytes16 (blockSize - 12))) 18 [UInt8.ofNat 2])
          19 [UInt8.ofNat FileType.dir.toU8]) 20 [UInt8.ofNat 46]) 21 [UInt8.ofNat 46]
        = splice buf 12 (DirEntry.head ⟨parentIno, .dir, [46, 46]⟩ (blockSize - 12)) := by
    rw [splice_behind, splice_behind, splice_behind, splice_behind, splice_behind]
    · rfl
    all_goals simp only [List.length_append, List.length_singleton, length_toLeBytes16,
      length_toLeBytes32, length_splice]
    all_goals omega
  have info (buf : Bytes) (long : 32 ≤ buf.length)
      : splice (splice (splice (splice (splice buf 24 (toLeBytes32 0)) 28 [UInt8.ofNat hashVersion])
          29 [UInt8.ofNat 8]) 30 [UInt8.ofNat indirectLevels]) 31 [UInt8.ofNat 0]
        = splice buf 24 (toLeBytes32 0 ++ ([UInt8.ofNat hashVersion] ++ ([UInt8.ofNat 8]
            ++ ([UInt8.ofNat indirectLevels] ++ [UInt8.ofNat 0])))) := by
    rw [splice_behind, splice_behind, splice_behind, splice_behind]
    all_goals simp only [List.length_append, List.length_singleton, length_toLeBytes32,
      length_splice]
    all_goals omega
  have long : 32 ≤ (zeros blockSize).length := by
    rw [length_zeros]
    exact room
  simp only [writeDxRootHeader, length_zeros]
  rw [Checked.refuseIf, decide_eq_false (Nat.not_lt.mpr room)]
  refine congrArg Except.ok ?_
  simp only [putU32, putU16, putU8]
  rw [dot _ long, dotdot _ (by rw [length_splice]; exact long),
    info _ (by rw [length_splice, length_splice]; exact long)]
  rw [length_zeros] at long
  rw [splice_parts rfl rfl rfl long]
  simp only [rootHeader, dxRootCountOffset]

/-- A node's header is an unused record that spans the block. -/
theorem writeDxNodeHeader_zeros {blockSize : Nat} (room : dxNodeCountOffset ≤ blockSize)
    : writeDxNodeHeader (zeros blockSize)
      = .ok (DirEntry.head ⟨0, .unknown, []⟩ blockSize
          ++ zeros (blockSize - dxNodeCountOffset)) := by
  have cut : zeros blockSize = zeros 8 ++ zeros (blockSize - 8) := by
    rw [← zeros_add]
    exact congrArg zeros (Nat.add_sub_cancel' room).symm
  simp only [writeDxNodeHeader, length_zeros]
  rw [Checked.refuseIf, decide_eq_false (Nat.not_lt.mpr room), cut]
  refine congrArg Except.ok ?_
  simp only [putU32, putU16, putU8]
  simp (disch := (simp only [length_splice, length_zeros, length_toLeBytes16, length_toLeBytes32,
    List.length_cons, List.length_nil]; omega)) only [splice_append_left]
  rfl

end Ferrosys.Ext
