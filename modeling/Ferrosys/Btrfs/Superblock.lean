import Ferrosys.Btrfs.Feature
import Ferrosys.Btrfs.Geometry
import Ferrosys.Btrfs.Ondisk
import Ferrosys.Library.Checked

/-! The btrfs superblock: its fields, the places its copies belong, when two records are copies of
one, and whether the filesystem it describes is one that can be read.
-/

namespace Ferrosys.Btrfs

open Splice Checked

/-- The first eight bytes past the checksum, the filesystem's id and where the copy is. -/
def magic : Bytes := [0x5f, 0x42, 0x48, 0x52, 0x66, 0x53, 0x5f, 0x4d]

/-- Bytes the bootstrap array occupies, whatever it uses of them. -/
def sysChunkArraySize : Nat := 2048

/-- A superblock's bytes do not parse. -/
inductive SuperBlockError where
  | tooShort (structure_ : String) (need got : Nat)
  | badMagic (structure_ : String) (found : Bytes)
deriving DecidableEq

/-- What the filesystem records of the device it is on. -/
structure DevItem where
  devid : Nat
  totalBytes : Nat
  fsid : Bytes
deriving DecidableEq

namespace DevItem

def size : Nat := 98

def readFrom (buf : Bytes) : DevItem := ⟨getU64 buf 0, getU64 buf 8, slice buf 82 16⟩

end DevItem

structure SuperBlock where
  fsid : Bytes
  bytenr : Nat
  generation : Nat
  root : Nat
  chunkRoot : Nat
  numDevices : Nat
  sectorsize : Nat
  nodesize : Nat
  sysChunkArraySize : Nat
  chunkRootGeneration : Nat
  incompatFlags : FlagWord
  csumType : Nat
  chunkRootLevel : Nat
  devItem : DevItem
  metadataUuid : Bytes
  sysChunkArray : Bytes
deriving DecidableEq

namespace SuperBlock

def readFrom (buf : Bytes) : Except SuperBlockError SuperBlock :=
  if buf.length < superInfoSize then
    .error (.tooShort "btrfs_super_block" superInfoSize buf.length)
  else if slice buf 64 8 ≠ magic then .error (.badMagic "btrfs_super_block" (slice buf 64 8))
  else
    .ok {
      fsid := slice buf 32 16
      bytenr := getU64 buf 48
      generation := getU64 buf 72
      root := getU64 buf 80
      chunkRoot := getU64 buf 88
      numDevices := getU64 buf 136
      sectorsize := getU32 buf 144
      nodesize := getU32 buf 148
      sysChunkArraySize := getU32 buf 160
      chunkRootGeneration := getU64 buf 164
      incompatFlags := .ofNat 64 (getU64 buf 188)
      csumType := getU16 buf 196
      chunkRootLevel := getU8 buf 199
      devItem := DevItem.readFrom (slice buf 201 DevItem.size)
      metadataUuid := slice buf 571 16
      sysChunkArray := slice buf 811 Btrfs.sysChunkArraySize
    }

/-- The id every tree block of this filesystem carries. -/
def metadataId (self : SuperBlock) : Bytes :=
  if self.incompatFlags.contains IncompatFlags.metadataUuid then self.metadataUuid else self.fsid

/-- The bytes of the bootstrap array in use, unless more are recorded than there are. -/
def sysChunkBytes (self : SuperBlock) : Option Bytes :=
  if self.sysChunkArraySize ≤ Btrfs.sysChunkArraySize then
    some (self.sysChunkArray.take self.sysChunkArraySize)
  else none

end SuperBlock

/-- A superblock, and the bytes it was read from. -/
structure Record where
  bytes : Bytes
  superblock : SuperBlock
  parsed : SuperBlock.readFrom bytes = .ok superblock
deriving DecidableEq

/-- The superblock these bytes are. -/
def Record.parse (bytes : Bytes) : Except SuperBlockError Record :=
  match parsed : SuperBlock.readFrom bytes with
  | .error error => .error error
  | .ok superblock => .ok ⟨bytes, superblock, parsed⟩

theorem Record.parse_eq_ok {bytes : Bytes} {record : Record}
    : Record.parse bytes = .ok record ↔ record.bytes = bytes := by
  unfold Record.parse
  constructor
  · intro parsed
    split at parsed
    · cases parsed
    · obtain rfl := Except.ok.inj parsed
      rfl
  · rintro rfl
    split
    next error failed => cases failed.symm.trans record.parsed
    next superblock parsed =>
      obtain rfl := Except.ok.inj (parsed.symm.trans record.parsed)
      rfl

/-- Two records are copies of one: the same bytes outside the checksum field and the place each
records as its own.
-/
def sameRecord (a b : Bytes) : Bool :=
  a.length == b.length
    && slice a csumFieldLen (48 - csumFieldLen) == slice b csumFieldLen (48 - csumFieldLen)
    && a.drop 56 == b.drop 56

/-- One record is a copy of another: they are of one length, and where they differ is the checksum
or the place each has as its own.
-/
def CopyOf (a b : Bytes) : Prop :=
  a.length = b.length ∧ ∀ i, csumFieldLen ≤ i → ¬(48 ≤ i ∧ i < 56) → a[i]? = b[i]?

theorem sameRecord_iff {a b : Bytes} : sameRecord a b = true ↔ CopyOf a b := by
  simp only [sameRecord, Bool.and_eq_true, beq_iff_eq, CopyOf, and_assoc]
  refine and_congr_right fun _ => ⟨?_, ?_⟩
  · rintro ⟨front, back⟩ i past apart
    rcases Nat.lt_or_ge i 48 with below | above
    · have same := congrArg (·[i - csumFieldLen]?) front
      simp only [getElem?_slice] at same
      unfold csumFieldLen at past same
      rwa [if_pos (by omega), if_pos (by omega), show 32 + (i - 32) = i by omega] at same
    · have same := congrArg (·[i - 56]?) back
      simp only [List.getElem?_drop] at same
      rwa [show 56 + (i - 56) = i by omega] at same
  · intro same
    constructor
    · refine List.ext_getElem? fun i => ?_
      simp only [getElem?_slice]
      split
      next inside =>
        unfold csumFieldLen at same inside ⊢
        exact same _ (by omega) (by omega)
      next => rfl
    · refine List.ext_getElem? fun i => ?_
      simp only [List.getElem?_drop]
      unfold csumFieldLen at same
      exact same _ (by omega) (by omega)

/-- What a build of the reader understands beyond the features it always does. -/
structure Features where
  lzo : Bool
  zstd : Bool
deriving DecidableEq

def supportedIncompat (build : Features) : FlagWord :=
  IncompatFlags.mixedBackref ||| IncompatFlags.defaultSubvol ||| IncompatFlags.bigMetadata
    ||| IncompatFlags.extendedIref ||| IncompatFlags.skinnyMetadata ||| IncompatFlags.noHoles
    ||| IncompatFlags.metadataUuid
    ||| (if build.lzo then IncompatFlags.compressLzo else 0)
    ||| (if build.zstd then IncompatFlags.compressZstd else 0)

/-- Why a filesystem whose superblock verifies is not read. -/
inductive Unreadable where
  | unsupportedChecksum (csumType : Nat)
  | unsupportedFeatures (bits : FlagWord) (names : String)
  | multiDevice (numDevices : Nat)
  | badGeometry (field : String) (value : Nat)
  | badSuperblock (fault : String)
deriving DecidableEq

/-- Whether the filesystem a superblock describes can be read at all. -/
def checkReadable (build : Features) (sb : SuperBlock) : Except Unreadable Unit := do
  refuseIf (sb.csumType != ChecksumType.crc32c) (.unsupportedChecksum sb.csumType)
  let unsupported := sb.incompatFlags.without (supportedIncompat build)
  refuseIf (!unsupported.isEmpty)
    (.unsupportedFeatures unsupported (unsupported.describe IncompatFlags.flags))
  refuseIf (sb.numDevices != 1) (.multiDevice sb.numDevices)
  refuseIf (!isBlockSize sb.sectorsize) (.badGeometry "sector size" sb.sectorsize)
  refuseIf (!isBlockSize sb.nodesize) (.badGeometry "node size" sb.nodesize)
  refuseIf (sb.nodesize < sb.sectorsize)
    (.badGeometry "node size, which is never smaller than the sector size" sb.nodesize)
  refuseIf (sb.devItem.fsid != sb.metadataId)
    (.badSuperblock "the device it describes belongs to another filesystem")
  refuseIf (sb.devItem.totalBytes == 0) (.badSuperblock "the device it describes has no length")
  refuseIf (sb.root == 0 || sb.chunkRoot == 0)
    (.badSuperblock "a tree this filesystem cannot be read without has no root")

end Ferrosys.Btrfs
