import Ferrosys.Bytes
import Ferrosys.Time

/-! The 32-byte entries an exFAT directory is made of: the type byte that says what one is, the
three that make up a file's set, and the two sums taken over a set and over a name.
-/

namespace Ferrosys.ExFat

open Splice

def dirEntrySize : Nat := 32

/-- An entry's type byte: what the entry is, and whether it is in use. -/
abbrev EntryType := UInt8

namespace EntryType

def endOfDirectory : EntryType := 0x00
def allocationBitmap : EntryType := 0x81
def upcaseTable : EntryType := 0x82
def volumeLabel : EntryType := 0x83
def file : EntryType := 0x85
def volumeGuid : EntryType := 0xA0
def streamExtension : EntryType := 0xC0
def fileName : EntryType := 0xC1

variable (self : EntryType)

def isEndOfDirectory : Bool := self == endOfDirectory
def inUse : Bool := self.toNat.testBit 7
def isSecondary : Bool := self.toNat.testBit 6
def isBenign : Bool := self.toNat.testBit 5

end EntryType

/-- The type byte an entry's bytes begin with. -/
def entryType (entry : Bytes) : EntryType := entry[0]?.getD 0

inductive ParseError where
  | tooShort (structure_ : String) (need got : Nat)
  | badMagic (structure_ : String) (found expected : Nat)
deriving DecidableEq

/-- The bytes hold an entry of one type. -/
def expectType (buf : Bytes) (wanted : EntryType) (structure_ : String) : Except ParseError Unit :=
  if buf.length < dirEntrySize then .error (.tooShort structure_ dirEntrySize buf.length)
  else if entryType buf ≠ wanted then
    .error (.badMagic structure_ (entryType buf).toNat wanted.toNat)
  else .ok ()

/-- The attribute bits the format defines. -/
def definedAttributes : Nat := 0x0037

/-- The bits of a word that the format reserves. -/
def reservedAttributes (bits : Nat) : Nat := bits &&& (0xFFFF - definedAttributes)

def nameUnitsPerEntry : Nat := 15
def secondaryAllocationPossible : Nat := 0
def secondaryNoFatChain : Nat := 1

/-- The primary entry of a file or directory. -/
structure FileEntry where
  secondaryCount : Nat
  setChecksum : Nat
  attributes : Nat
  create : Nat
  modify : Nat
  access : Nat
  createTenth : Nat
  modifyTenth : Nat
  createUtcOffset : Nat
  modifyUtcOffset : Nat
  accessUtcOffset : Nat
deriving DecidableEq

/-- The fields of a file entry, whatever the type byte. -/
def FileEntry.fields (buf : Bytes) : FileEntry where
  secondaryCount := getU8 buf 1
  setChecksum := getU16 buf 2
  attributes := getU16 buf 4
  create := getU32 buf 8
  modify := getU32 buf 12
  access := getU32 buf 16
  createTenth := getU8 buf 20
  modifyTenth := getU8 buf 21
  createUtcOffset := getU8 buf 22
  modifyUtcOffset := getU8 buf 23
  accessUtcOffset := getU8 buf 24

def FileEntry.readFrom (buf : Bytes) : Except ParseError FileEntry := do
  expectType buf .file "exFAT file entry"
  return fields buf

/-- The second entry of a file's set: the name's length and hash, and where the bytes are. -/
structure StreamExtensionEntry where
  flags : Nat
  nameLength : Nat
  nameHash : Nat
  validDataLength : Nat
  firstCluster : Nat
  dataLength : Nat
deriving DecidableEq

namespace StreamExtensionEntry

/-- The fields of a stream extension, whatever the type byte. -/
def fields (buf : Bytes) : StreamExtensionEntry where
  flags := getU8 buf 1
  nameLength := getU8 buf 3
  nameHash := getU16 buf 4
  validDataLength := getU64 buf 8
  firstCluster := getU32 buf 20
  dataLength := getU64 buf 24

def readFrom (buf : Bytes) : Except ParseError StreamExtensionEntry := do
  expectType buf .streamExtension "exFAT stream extension entry"
  return fields buf

/-- The stream's clusters are consecutive. -/
def noFatChain (self : StreamExtensionEntry) : Bool := self.flags.testBit secondaryNoFatChain

end StreamExtensionEntry

/-- The units of a name that an entry holds. -/
def nameUnits (buf : Bytes) : List UInt16 :=
  (List.range nameUnitsPerEntry).map fun i => UInt16.ofNat (getU16 buf (2 + i * 2))

/-- The units of one piece of a file's name. -/
def FileNameEntry.readFrom (buf : Bytes) : Except ParseError (List UInt16) := do
  expectType buf .fileName "exFAT file name entry"
  return nameUnits buf

/-- The running sum every checksum of a volume takes a byte into: rotated right, and the byte
added.
-/
def rotateIn (sum : UInt16) (byte : UInt8) : UInt16 :=
  (sum >>> 1 ||| sum <<< 15) + UInt16.ofNat byte.toNat

/-- The sum over a set's bytes, but for the two the sum itself is kept in. -/
def entrySetChecksum (entries : Bytes) : UInt16 :=
  (entries.take 2 ++ entries.drop 4).foldl rotateIn 0

theorem toNat_rotateIn (sum : UInt16) (byte : UInt8)
    : (rotateIn sum byte).toNat
      = (2 ^ 15 * (sum.toNat % 2) + sum.toNat / 2 + byte.toNat) % 2 ^ 16 := by
  have half : sum.toNat / 2 < 2 ^ 15 := by
    have := sum.toNat_lt
    omega
  have low : (sum <<< 15).toNat = 2 ^ 15 * (sum.toNat % 2) := by
    rw [UInt16.toNat_shiftLeft, show (15 : UInt16).toNat % 16 = 15 from rfl, Nat.shiftLeft_eq]
    omega
  have high : (sum >>> 1).toNat = sum.toNat / 2 := by
    rw [UInt16.toNat_shiftRight, show (1 : UInt16).toNat % 16 = 1 from rfl,
      Nat.shiftRight_eq_div_pow, Nat.pow_one]
  rw [rotateIn, UInt16.toNat_add, UInt16.toNat_or, low, high, Nat.or_comm,
    ← Nat.two_pow_add_eq_or_of_lt half,
    UInt16.toNat_ofNat_of_lt' (Nat.lt_trans byte.toNat_lt (by decide))]

/-- Sums that differ still do once one byte is taken into both. -/
theorem rotateIn_left_injective (byte : UInt8) : Function.Injective (rotateIn · byte) := by
  intro sum sum' same
  have same := congrArg UInt16.toNat same
  simp only [toNat_rotateIn] at same
  have low := sum.toNat_lt
  have low' := sum'.toNat_lt
  have rotated {n n' : Nat} (low : n < 2 ^ 16) (low' : n' < 2 ^ 16)
      (same : (n + byte.toNat) % 2 ^ 16 = (n' + byte.toNat) % 2 ^ 16) : n = n' := by
    omega
  have same := rotated (by omega) (by omega) same
  exact UInt16.toNat_inj.mp (by omega)

/-- Bytes that differ still do once they are taken into one sum. -/
theorem rotateIn_injective (sum : UInt16) : Function.Injective (rotateIn sum) := by
  intro byte byte' same
  have same := congrArg UInt16.toNat same
  simp only [toNat_rotateIn] at same
  have := byte.toNat_lt
  have := byte'.toNat_lt
  exact UInt8.toNat_inj.mp (by omega)

/-- One byte of what is summed is told by the sum, by induction on the bytes behind it. -/
theorem foldl_rotateIn_iff (before behind : Bytes) (byte byte' : UInt8) (sum : UInt16)
    : (before ++ byte :: behind).foldl rotateIn sum = (before ++ byte' :: behind).foldl rotateIn sum
      ↔ byte = byte' := by
  have later {sum sum' : UInt16}
      : behind.foldl rotateIn sum = behind.foldl rotateIn sum' ↔ sum = sum' := by
    induction behind generalizing sum sum' with
    | nil => exact Iff.rfl
    | cons next behind ih => exact ih.trans (rotateIn_left_injective next).eq_iff
  simp only [List.foldl_append, List.foldl_cons]
  exact later.trans (rotateIn_injective _).eq_iff

/-- A set that differs in one byte has the same sum where that byte is one of the two the sum is
kept in, and there alone.
-/
theorem entrySetChecksum_eq_iff (before behind : Bytes) (byte byte' : UInt8)
    : entrySetChecksum (before ++ byte :: behind) = entrySetChecksum (before ++ byte' :: behind)
      ↔ byte = byte' ∨ before.length = 2 ∨ before.length = 3 := by
  match before with
  | [] =>
      simpa [entrySetChecksum] using
        foldl_rotateIn_iff [] (behind.take 1 ++ behind.drop 3) byte byte' 0
  | [a] => simpa [entrySetChecksum] using foldl_rotateIn_iff [a] (behind.drop 2) byte byte' 0
  | [_, _] | [_, _, _] => simp [entrySetChecksum]
  | a :: b :: c :: d :: before =>
      simpa [entrySetChecksum] using foldl_rotateIn_iff (a :: b :: before) behind byte byte' 0

/-- The sum over an up-cased name. -/
def nameHash (upcased : List UInt16) : UInt16 :=
  (upcased.flatMap fun unit => toLeBytes16 unit.toNat).foldl rotateIn 0

/-- The date and time words a field holds, with hundredths beside them. -/
def unpackTimestamp (field tenth : Nat) : DosTimestamp where
  date := field / 2 ^ 16
  time := field % 2 ^ 16
  tenth := tenth

/-- The offset from UTC a byte records, in minutes, where it records one: its low seven bits count
quarter hours, in two's complement.
-/
def utcOffsetMinutes (byte : Nat) : Option Int :=
  if byte.testBit 7 then
    let units : Nat := byte % 2 ^ 7
    some ((if units < 64 then (units : Int) else (units : Int) - 128) * 15)
  else none

example : utcOffsetMinutes (0x80 + 0x7C) = some (-60) := by decide

/-- The times an entry records, each with its offset from UTC, in minutes, where there is one. -/
structure Times where
  create : Timestamp
  access : Timestamp
  modify : Timestamp
  createOffset : Option Int
  accessOffset : Option Int
  modifyOffset : Option Int
deriving DecidableEq

/-- The instant a field, its hundredths and its offset describe. -/
def instantAt (field tenth offset : Nat) : Timestamp :=
  let local_ := (unpackTimestamp field tenth).decode
  { local_ with secs := local_.secs - (utcOffsetMinutes offset).getD 0 * 60 }

/-- The times of a file entry. The access time has no hundredths. -/
def timesOf (file : FileEntry) : Times where
  create := instantAt file.create file.createTenth file.createUtcOffset
  access := instantAt file.access 0 file.accessUtcOffset
  modify := instantAt file.modify file.modifyTenth file.modifyUtcOffset
  createOffset := utcOffsetMinutes file.createUtcOffset
  accessOffset := utcOffsetMinutes file.accessUtcOffset
  modifyOffset := utcOffsetMinutes file.modifyUtcOffset

/-! What the entry readers answer on an entry of their own type. -/

theorem expectType_eq_ok {buf : Bytes} {wanted : EntryType} {structure_ : String}
    (long : dirEntrySize ≤ buf.length) (type : entryType buf = wanted)
    : expectType buf wanted structure_ = .ok () := by
  rw [expectType, if_neg (by omega), if_neg (by rw [type]; simp)]

theorem expectType_eq_error {buf : Bytes} {wanted : EntryType} {structure_ : String}
    (other : entryType buf ≠ wanted) : ∃ error, expectType buf wanted structure_ = .error error := by
  rw [expectType]
  split
  · exact ⟨_, rfl⟩
  · exact ⟨_, rfl⟩

theorem FileEntry.readFrom_eq_ok {buf : Bytes} (long : dirEntrySize ≤ buf.length)
    (type : entryType buf = .file) : readFrom buf = .ok (fields buf) := by
  rw [readFrom, expectType_eq_ok long type]
  rfl

theorem FileNameEntry.readFrom_eq_ok {buf : Bytes} (long : dirEntrySize ≤ buf.length)
    (type : entryType buf = .fileName) : readFrom buf = .ok (nameUnits buf) := by
  rw [readFrom, expectType_eq_ok long type]
  rfl

theorem StreamExtensionEntry.readFrom_eq_ok {buf : Bytes} (long : dirEntrySize ≤ buf.length)
    (type : entryType buf = .streamExtension) : readFrom buf = .ok (fields buf) := by
  rw [readFrom, expectType_eq_ok long type]
  rfl

theorem StreamExtensionEntry.readFrom_eq_error {buf : Bytes}
    (other : entryType buf ≠ .streamExtension) : ∃ error, readFrom buf = .error error := by
  obtain ⟨error, refused⟩ := expectType_eq_error other
  exact ⟨error, by rw [readFrom, refused]; rfl⟩

end Ferrosys.ExFat
