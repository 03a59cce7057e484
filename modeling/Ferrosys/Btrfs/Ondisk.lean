import Ferrosys.Crc32c
import Mathlib.Order.Lattice
import Mathlib.Data.Prod.Lex

/-! The structures a btrfs tree block is made of: the key every tree is sorted by, the header
of a block, a leaf's items and a node's child pointers, and the checksum over all of it.
-/

namespace Ferrosys.Btrfs

open Splice

/-- A structure's bytes do not parse. -/
inductive ParseError where
  | tooShort (structure_ : String) (need got : Nat)
deriving DecidableEq

/-- The 17 bytes every tree is sorted by: `kind` is the record's type, and what `offset` means
follows from it.
-/
@[ext] structure DiskKey where
  objectid : Nat
  kind : Nat
  offset : Nat
deriving DecidableEq

namespace DiskKey

def size : Nat := 17

/-- The lowest key in the sort order. -/
def min : DiskKey := ⟨0, 0, 0⟩

/-- The fields in the order they are compared. -/
def fields (self : DiskKey) : Nat ×ₗ Nat ×ₗ Nat :=
  toLex (self.objectid, toLex (self.kind, self.offset))

theorem fields_injective : Function.Injective fields := by
  intro a b same
  simp only [fields, EmbeddingLike.apply_eq_iff_eq, Prod.mk.injEq] at same
  exact DiskKey.ext same.1 same.2.1 same.2.2

instance : LinearOrder DiskKey := LinearOrder.lift' fields fields_injective

/-- No key is below the lowest. -/
theorem min_le (self : DiskKey) : min ≤ self := by
  change fields min ≤ fields self
  simp only [fields, Prod.Lex.le_iff, min, ofLex_toLex]
  omega

def readFrom (buf : Bytes) : Except ParseError DiskKey :=
  if buf.length < size then .error (.tooShort "btrfs_disk_key" size buf.length)
  else .ok ⟨getU64 buf 0, getU8 buf 8, getU64 buf 9⟩

end DiskKey

/-- Bytes the checksum field occupies, whatever algorithm fills it. -/
def csumFieldLen : Nat := 32

/-- The deepest a tree may be, counting the leaf as level 0. -/
def maxLevel : Nat := 8

/-- The level a leaf carries. -/
def leafLevel : Nat := 0

/-- The bytes every node and every leaf begins with. -/
structure Header where
  csum : Bytes
  fsid : Bytes
  bytenr : Nat
  flags : Nat
  chunkTreeUuid : Bytes
  generation : Nat
  owner : Nat
  nritems : Nat
  level : Nat
deriving DecidableEq

namespace Header

def size : Nat := 101

def readFrom (buf : Bytes) : Except ParseError Header :=
  if buf.length < size then .error (.tooShort "btrfs_header" size buf.length)
  else
    .ok {
      csum := slice buf 0 csumFieldLen
      fsid := slice buf 32 16
      bytenr := getU64 buf 48
      flags := getU64 buf 56
      chunkTreeUuid := slice buf 64 16
      generation := getU64 buf 80
      owner := getU64 buf 88
      nritems := getU32 buf 96
      level := getU8 buf 100
    }

def isLeaf (self : Header) : Bool := self.level == leafLevel

/-- A header that was read stands at the front of its bytes, and counts fewer than 2³² entries. -/
theorem of_readFrom {buf : Bytes} {header : Header} (read : readFrom buf = .ok header)
    : size ≤ buf.length ∧ header.nritems < 2 ^ 32 := by
  unfold readFrom at read
  split at read
  · cases read
  · obtain rfl := Except.ok.inj read
    exact ⟨by omega, getU32_lt _ _⟩

end Header

/-- One entry of a leaf: `offset` counts from the end of the header. -/
structure Item where
  key : DiskKey
  offset : Nat
  size : Nat
deriving DecidableEq

namespace Item

def sizeOnDisk : Nat := 25

def readFrom (buf : Bytes) : Except ParseError Item :=
  if buf.length < sizeOnDisk then .error (.tooShort "btrfs_item" sizeOnDisk buf.length)
  else do
    return ⟨← DiskKey.readFrom buf, getU32 buf 17, getU32 buf 21⟩

end Item

/-- One entry of a node: the lowest key of a child, where the child is, and the transaction that
wrote it.
-/
structure KeyPtr where
  key : DiskKey
  blockptr : Nat
  generation : Nat
deriving DecidableEq

namespace KeyPtr

def size : Nat := 33

def readFrom (buf : Bytes) : Except ParseError KeyPtr :=
  if buf.length < size then .error (.tooShort "btrfs_key_ptr" size buf.length)
  else do
    return ⟨← DiskKey.readFrom buf, getU64 buf 17, getU64 buf 25⟩

end KeyPtr

/-- The algorithm that fills the checksum field, by its on-disk value. -/
def ChecksumType.crc32c : Nat := 0

/-- How many bytes of the field an algorithm fills. -/
def digestLen (csumType : Nat) : Option Nat :=
  if csumType = 0 then some 4
  else if csumType = 1 then some 8
  else if csumType = 2 ∨ csumType = 3 then some 32
  else none

/-- The checksum of an object, everything past the field it begins with: seeded with ones and
inverted.
-/
def checksum (object : Bytes) : Nat :=
  crc32c 0xFFFFFFFF (object.drop csumFieldLen) ^^^ 0xFFFFFFFF

def storedCrc32c (object : Bytes) : Nat := getU32 object 0

/-- Write an object's own checksum into the field it begins with. -/
def seal_ (object : Bytes) : Bytes :=
  toLeBytes32 (checksum object) ++ List.replicate (csumFieldLen - 4) 0 ++ object.drop csumFieldLen

/-- Whether the field is zero past the digest. -/
def paddingIsClear (object : Bytes) (digestLen : Nat) : Bool :=
  let from_ := Min.min digestLen csumFieldLen
  (slice object from_ (csumFieldLen - from_)).all (· == 0)

/-- Whether an object's stored checksum covers the bytes it was read as. -/
def checksumHolds (object : Bytes) (csumType : Nat) : Bool :=
  if csumType ≠ ChecksumType.crc32c then false
  else
    match digestLen csumType with
    | none => false
    | some digestLen =>
        storedCrc32c object == checksum object && paddingIsClear object digestLen

theorem checksum_lt (object : Bytes) : checksum object < 2 ^ 32 :=
  Nat.xor_lt_two_pow (crc32c_lt (by decide) _) (by decide)

theorem length_seal {object : Bytes} (room : csumFieldLen ≤ object.length)
    : (seal_ object).length = object.length := by
  simp only [seal_, List.length_append, length_toLeBytes32, List.length_replicate,
    List.length_drop, csumFieldLen] at room ⊢
  omega

/-- Sealing an object changes nothing its checksum covers. -/
theorem drop_seal (object : Bytes) : (seal_ object).drop csumFieldLen = object.drop csumFieldLen :=
  rfl

/-- The checksum of a sealed object covers it. -/
theorem checksumHolds_seal (object : Bytes)
    : checksumHolds (seal_ object) ChecksumType.crc32c = true := by
  have covered : checksum (seal_ object) = checksum object := by
    rw [checksum, drop_seal, checksum]
  have stored : storedCrc32c (seal_ object) = checksum object := by
    have read := getU32_toLeBytes32 (checksum object)
    rw [Nat.mod_eq_of_lt (checksum_lt object)] at read
    exact read
  have clear : paddingIsClear (seal_ object) 4 = true := rfl
  simp [checksumHolds, digestLen, ChecksumType.crc32c, stored, covered, clear]

end Ferrosys.Btrfs
