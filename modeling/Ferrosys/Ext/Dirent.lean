import Ferrosys.Bytes
import Ferrosys.Ext.ReadError
import Ferrosys.Library.Loop
import Ferrosys.Library.Machine

/-! Directory entries as they sit in a directory's blocks, the slot that closes a block under
checksums, and the walk over a block that steps from record to record.
-/

namespace Ferrosys.Ext

open Splice Machine

/-- Bytes the checksum tail of a block of entries occupies. -/
def dirTailLen : Nat := 12

/-- The type that marks the checksum tail. -/
def dirTailFt : Nat := 0xde

/-- What an entry with a name of `nameLen` bytes occupies at least. -/
def minRecLen (nameLen : Nat) : Nat := min ((8 + nameLen + 3) / 4 * 4) (2 ^ 16 - 1)

/-- A record's length as a block of `blockSize` bytes says it. -/
def recLenFromDisk (disk blockSize : Nat) : Nat :=
  if blockSize < 65536 then disk
  else if disk = 0xffff ∨ disk = 0 then blockSize
  else (disk &&& 0xfffc) ||| ((disk &&& 3) <<< 16)

/-- A record's length as it is said in a block of `blockSize` bytes. -/
def recLenToDisk (len blockSize : Nat) : Nat :=
  if blockSize < 65536 then min len (2 ^ 16 - 1)
  else if len < 65536 then len
  else 0xffff

/-- The type of the file an entry names. -/
inductive FileType where
  | unknown
  | regFile
  | dir
  | charDev
  | blockDev
  | fifo
  | socket
  | symlink
deriving DecidableEq

namespace FileType

def toU8 : FileType → Nat
  | unknown => 0
  | regFile => 1
  | dir => 2
  | charDev => 3
  | blockDev => 4
  | fifo => 5
  | socket => 6
  | symlink => 7

def fromU8 : Nat → FileType
  | 1 => regFile
  | 2 => dir
  | 3 => charDev
  | 4 => blockDev
  | 5 => fifo
  | 6 => socket
  | 7 => symlink
  | _ => unknown

theorem fromU8_toU8 (fileType : FileType) : fromU8 fileType.toU8 = fileType := by
  cases fileType <;> rfl

theorem toU8_lt (fileType : FileType) : fileType.toU8 < 2 ^ 8 := by
  cases fileType <;> decide

end FileType

/-- A directory entry. The inode zero marks an unused slot. -/
structure DirEntry where
  inode : UInt32
  fileType : FileType
  name : Bytes
deriving DecidableEq

namespace DirEntry

/-- Write an entry into the first bytes of `buf`, in a record of `recLen` bytes. -/
def writeTo (self : DirEntry) (buf : Bytes) (recLen blockSize : Nat)
    : Except ParseError Bytes := do
  Checked.refuseIf (255 < self.name.length) (.invalidField "DirEntry" "name_len" self.name.length)
  Checked.refuseIf (recLen < minRecLen self.name.length || recLen % 4 != 0)
    (.invalidField "DirEntry" "rec_len" recLen)
  Checked.refuseIf (buf.length < recLen) (.tooShort "DirEntry" recLen buf.length)
  let buf := putU32 buf 0 self.inode.toNat
  let buf := putU16 buf 4 (recLenToDisk recLen blockSize)
  let buf := putU8 buf 6 self.name.length
  let buf := putU8 buf 7 self.fileType.toU8
  return splice buf 8 self.name

/-- The entry at the start of `buf`, and the length of its record. -/
def readFrom (buf : Bytes) (blockSize : Nat) : Except ParseError (DirEntry × Nat) := do
  Checked.refuseIf (buf.length < 8) (.tooShort "DirEntry" 8 buf.length)
  let inode := UInt32.ofNat (getU32 buf 0)
  let recLen := recLenFromDisk (getU16 buf 4) blockSize
  let nameLen := getU8 buf 6
  let fileType := FileType.fromU8 (getU8 buf 7)
  Checked.refuseIf (recLen % 4 != 0 || recLen < 8 + nameLen)
    (.invalidField "DirEntry" "rec_len" recLen)
  Checked.refuseIf (buf.length < recLen) (.tooShort "DirEntry" recLen buf.length)
  return (⟨inode, fileType, slice buf 8 nameLen⟩, recLen)

end DirEntry

/-- Write the checksum tail into the first bytes of `buf`. -/
def writeDirTail (buf : Bytes) (checksum : Nat) : Except ParseError Bytes := do
  Checked.refuseIf (buf.length < dirTailLen) (.tooShort "DirEntryTail" dirTailLen buf.length)
  let buf := putU32 buf 0 0
  let buf := putU16 buf 4 dirTailLen
  let buf := putU8 buf 6 0
  let buf := putU8 buf 7 dirTailFt
  return putU32 buf 8 checksum

/-- A linear walk over a block: what is left of it, and the entries found. -/
structure Walking where
  left : Bytes
  found : List DirEntry
deriving DecidableEq

/-- One turn: the end of the block, or one record, an unused one passed over. -/
def walkTurn (blockSize : Nat) (self : Walking)
    : Loop.Next Walking (Except (Fault ParseError) (List DirEntry)) :=
  if self.left.isEmpty then .stop (.ok self.found)
  else
    match DirEntry.readFrom self.left blockSize with
    | .error error => .stop (.error (.refused error))
    | .ok (entry, recLen) =>
        .go ⟨self.left.drop recLen,
          if entry.inode = 0 then self.found else self.found ++ [entry]⟩

/-- The entries of one block, where its records consume it exactly. Every record is at least eight
bytes, so as many turns as there are bytes are enough.
-/
def walkBlock (block : Bytes) : Except (Fault ParseError) (List DirEntry) :=
  (Loop.run (walkTurn block.length) (block.length + 1) ⟨block, []⟩).getD (.error .panicked)

/-- Writing where zeros begin takes as many of them. -/
theorem splice_zeros {front data : Bytes} {off n : Nat} (reaches : off = front.length)
    (fits : data.length ≤ n)
    : splice (front ++ zeros n) off data = front ++ (data ++ zeros (n - data.length)) := by
  have cut : front ++ zeros n = front ++ zeros data.length ++ zeros (n - data.length) := by
    rw [List.append_assoc, ← zeros_add, Nat.add_sub_cancel' fits]
  rw [cut, reaches, splice_between (length_zeros _).symm, List.append_assoc]

namespace DirEntry

/-- An entry's bytes, its name included, in a record of `recLen` bytes. -/
def head (self : DirEntry) (recLen : Nat) : Bytes :=
  toLeBytes32 self.inode.toNat ++ (toLeBytes16 recLen ++ ([UInt8.ofNat self.name.length]
    ++ ([UInt8.ofNat self.fileType.toU8] ++ self.name)))

@[simp] theorem length_head (self : DirEntry) (recLen : Nat)
    : (self.head recLen).length = 8 + self.name.length := by
  simp only [head, List.length_append, length_toLeBytes32, length_toLeBytes16,
    List.length_singleton]
  omega

/-- What an entry's record occupies at least covers its bytes, and is a multiple of four. -/
theorem minRecLen_spec {nameLen : Nat} (short : nameLen ≤ 255)
    : 8 + nameLen ≤ minRecLen nameLen ∧ minRecLen nameLen % 4 = 0 ∧ minRecLen nameLen ≤ 264 := by
  unfold minRecLen
  omega

/-- An entry is read back from its bytes, whatever follows them within its record. -/
theorem readFrom_head {self : DirEntry} {recLen blockSize : Nat} {more : Bytes}
    (short : self.name.length ≤ 255) (aligned : recLen % 4 = 0)
    (covers : 8 + self.name.length ≤ recLen) (small : recLen < 2 ^ 16) (block : blockSize < 2 ^ 16)
    (room : recLen ≤ (self.head recLen ++ more).length)
    : readFrom (self.head recLen ++ more) blockSize = .ok (self, recLen) := by
  have long : ¬ (self.head recLen ++ more).length < 8 := by
    rw [List.length_append, length_head]
    omega
  have inode : UInt32.ofNat (getU32 (self.head recLen ++ more) 0) = self.inode := by
    rw [head, List.append_assoc, getU32_toLeBytes32_append,
      Nat.mod_eq_of_lt self.inode.toNat_lt, UInt32.ofNat_toNat]
  have len : recLenFromDisk (getU16 (self.head recLen ++ more) 4) blockSize = recLen := by
    rw [head, List.append_assoc, List.append_assoc]
    rw [show 4 = (toLeBytes32 self.inode.toNat).length + 0 from rfl, getU16_append_right,
      getU16_toLeBytes16_append, recLenFromDisk, if_pos (show blockSize < 65536 from block), Nat.mod_eq_of_lt small]
  have nameLen : getU8 (self.head recLen ++ more) 6 = self.name.length := by
    have there := getU8_append_right (toLeBytes32 self.inode.toNat ++ toLeBytes16 recLen)
      ([UInt8.ofNat self.name.length]
        ++ ([UInt8.ofNat self.fileType.toU8] ++ (self.name ++ more))) 0
    rw [head]
    simp only [List.append_assoc] at there ⊢
    refine there.trans (?_ : (UInt8.ofNat self.name.length).toNat = _)
    rw [UInt8.toNat_ofNat']
    omega
  have type : getU8 (self.head recLen ++ more) 7 = self.fileType.toU8 := by
    have there := getU8_append_right (toLeBytes32 self.inode.toNat ++ (toLeBytes16 recLen
      ++ [UInt8.ofNat self.name.length])) ([UInt8.ofNat self.fileType.toU8] ++ (self.name ++ more)) 0
    rw [head]
    simp only [List.append_assoc] at there ⊢
    refine there.trans (?_ : (UInt8.ofNat self.fileType.toU8).toNat = _)
    rw [UInt8.toNat_ofNat', Nat.mod_eq_of_lt self.fileType.toU8_lt]
  have name : slice (self.head recLen ++ more) 8 self.name.length = self.name := by
    have there := slice_append_right (toLeBytes32 self.inode.toNat ++ (toLeBytes16 recLen
      ++ ([UInt8.ofNat self.name.length] ++ [UInt8.ofNat self.fileType.toU8])))
      (self.name ++ more) 0 self.name.length
    rw [head]
    simp only [List.append_assoc] at there ⊢
    refine there.trans ?_
    rw [slice, List.drop_zero, List.take_left]
  simp only [readFrom, inode, len, nameLen, type, name, FileType.fromU8_toU8]
  rw [Checked.refuseIf, Checked.refuseIf, Checked.refuseIf, decide_eq_false long,
    decide_eq_false (Nat.not_lt.mpr room), decide_eq_false (Nat.not_lt.mpr covers), aligned]
  rfl

/-- An entry in a record of `recLen` bytes, padded with zeros. -/
def record (self : DirEntry) (recLen : Nat) : Bytes :=
  self.head recLen ++ zeros (recLen - (8 + self.name.length))

theorem length_record {self : DirEntry} {recLen : Nat} (covers : 8 + self.name.length ≤ recLen)
    : (self.record recLen).length = recLen := by
  rw [record, List.length_append, length_head, length_zeros]
  omega

/-- Writing an entry over zeros leaves its record. -/
theorem writeTo_zeros {self : DirEntry} {recLen blockSize : Nat}
    (short : self.name.length ≤ 255) (aligned : recLen % 4 = 0)
    (covers : minRecLen self.name.length ≤ recLen) (small : recLen < 2 ^ 16)
    (block : blockSize < 2 ^ 16)
    : self.writeTo (zeros recLen) recLen blockSize = .ok (self.record recLen) := by
  have least := (minRecLen_spec short).1
  have len : recLenToDisk recLen blockSize = recLen := by
    rw [recLenToDisk, if_pos (show blockSize < 65536 from block)]
    omega
  have whole : splice (zeros recLen) 0 (self.head recLen) = self.record recLen := by
    have written := @splice_zeros [] (self.head recLen) 0 recLen rfl (by rw [length_head]; omega)
    rw [length_head] at written
    exact written
  simp only [writeTo, len, length_zeros]
  rw [Checked.refuseIf, Checked.refuseIf, Checked.refuseIf,
    decide_eq_false (Nat.not_lt.mpr short), decide_eq_false (Nat.not_lt.mpr covers), aligned,
    decide_eq_false (Nat.lt_irrefl recLen)]
  refine congrArg Except.ok (Eq.trans ?_ whole)
  simp only [putU32, putU16, putU8, head]
  rw [splice_behind, splice_behind, splice_behind, splice_behind]
  all_goals simp only [List.length_append, List.length_singleton, length_toLeBytes16,
    length_toLeBytes32, length_splice, length_zeros]
  all_goals omega

end DirEntry

/-- The bytes of a checksum tail. -/
def dirTail (checksum : Nat) : Bytes :=
  toLeBytes32 0 ++ (toLeBytes16 dirTailLen ++ ([UInt8.ofNat 0] ++ ([UInt8.ofNat dirTailFt]
    ++ toLeBytes32 checksum)))

/-- Writing a tail where it just fits leaves its bytes. -/
theorem writeDirTail_zeros (checksum : Nat)
    : writeDirTail (zeros dirTailLen) checksum = .ok (dirTail checksum) := by
  have whole : splice (zeros dirTailLen) 0 (dirTail checksum) = dirTail checksum :=
    (@splice_zeros [] (dirTail checksum) 0 dirTailLen rfl (Nat.le_refl _)).trans
      (List.append_nil _)
  refine congrArg Except.ok (Eq.trans ?_ whole)
  simp only [putU32, putU16, putU8, dirTail]
  rw [splice_behind, splice_behind, splice_behind, splice_behind]
  all_goals simp only [List.length_append, List.length_singleton, length_toLeBytes16,
    length_toLeBytes32, length_splice, length_zeros, dirTailLen]
  all_goals omega

section

variable {blockSize turns : Nat} {found : List DirEntry}

/-- What a walk goes on with behind an entry's record. -/
theorem run_head {entry : DirEntry} {recLen : Nat} {more : Bytes}
    (short : entry.name.length ≤ 255) (aligned : recLen % 4 = 0)
    (covers : 8 + entry.name.length ≤ recLen) (small : recLen < 2 ^ 16) (block : blockSize < 2 ^ 16)
    (room : recLen ≤ (entry.head recLen ++ more).length)
    : Loop.run (walkTurn blockSize) (turns + 1) ⟨entry.head recLen ++ more, found⟩
      = Loop.run (walkTurn blockSize) turns
          ⟨(entry.head recLen ++ more).drop recLen,
            if entry.inode = 0 then found else found ++ [entry]⟩ := by
  have some_ : (entry.head recLen ++ more).isEmpty = false := by
    cases here : entry.head recLen ++ more with
    | nil =>
        rw [here, List.length_nil] at room
        omega
    | cons byte rest => rfl
  rw [Loop.run]
  simp only [walkTurn, some_, Bool.false_eq_true, if_false,
    DirEntry.readFrom_head short aligned covers small block room]

end

end Ferrosys.Ext
