import Ferrosys.Bytes
import Ferrosys.Ext.Feature
import Ferrosys.Ext.ReadError

/-! The superblock, the group descriptor and the inode as they sit on disk, each with the
fields a reader takes from it.
-/

namespace Ferrosys.Ext

open Checked Splice

def superblockMagic : Nat := 0xef53
def goodOldInodeSize : Nat := 128
def goodOldFirstInode : Nat := 11

/-- The primary superblock's fields that place and bound everything else. -/
structure SuperBlock where
  inodesCount : Nat
  blocksCount : Nat
  firstDataBlock : Nat
  logBlockSize : Nat
  blocksPerGroup : Nat
  inodesPerGroup : Nat
  state : Nat
  revLevel : Nat
  firstIno : Nat
  inodeSize : Nat
  featureCompat : FeatureWord
  featureIncompat : FeatureWord
  featureRoCompat : FeatureWord
  journalInum : Nat
  descSize : Nat
  firstMetaBg : Nat
  backupBgs : Nat × Nat
deriving DecidableEq

namespace SuperBlock

def size : Nat := 1024
def magicOffset : Nat := 0x38
def featureIncompatOffset : Nat := 0x60

/-- Recover the superblock from its bytes. The block count carries a high half only under
`64bit`.
-/
def readFrom (buf : Bytes) : Except ParseError SuperBlock := do
  refuseIf (buf.length < size) (.tooShort "SuperBlock" size buf.length)
  let magic := getU16 buf magicOffset
  refuseIf (magic != superblockMagic) (.badMagic "SuperBlock" magic superblockMagic)
  let featureIncompat := BitVec.ofNat 32 (getU32 buf featureIncompatOffset)
  let hi (off : Nat) : Nat :=
    if featureIncompat &&& Incompat.sixtyFourBit != 0 then getU32 buf off else 0
  return {
    inodesCount := getU32 buf 0x00
    blocksCount := join64 (getU32 buf 0x04) (hi 0x150)
    firstDataBlock := getU32 buf 0x14
    logBlockSize := getU32 buf 0x18
    blocksPerGroup := getU32 buf 0x20
    inodesPerGroup := getU32 buf 0x28
    state := getU16 buf 0x3a
    revLevel := getU32 buf 0x4c
    firstIno := getU32 buf 0x54
    inodeSize := getU16 buf 0x58
    featureCompat := BitVec.ofNat 32 (getU32 buf 0x5c)
    featureIncompat := featureIncompat
    featureRoCompat := BitVec.ofNat 32 (getU32 buf 0x64)
    journalInum := getU32 buf 0xe0
    descSize := getU16 buf 0xfe
    firstMetaBg := getU32 buf 0x104
    backupBgs := (getU32 buf 0x24c, getU32 buf 0x250)
  }

end SuperBlock

/-- A block group's descriptor: where its inode table begins. -/
structure GroupDescriptor where
  inodeTable : Nat
deriving DecidableEq

namespace GroupDescriptor

def size32 : Nat := 32
def size64 : Nat := 64

def readFrom (buf : Bytes) (descSize : Nat) : Except ParseError GroupDescriptor := do
  refuseIf (descSize < size32) (.invalidField "GroupDescriptor" "s_desc_size" descSize)
  refuseIf (buf.length < descSize) (.tooShort "GroupDescriptor" descSize buf.length)
  let itHi := if descSize ≥ size64 then getU32 buf 0x28 else 0
  return { inodeTable := join64 (getU32 buf 0x08) itHi }

end GroupDescriptor

namespace InodeFlags
def extents : Nat := 0x00080000
def hugeFile : Nat := 0x00040000
end InodeFlags

/-- The words of a block area that name data blocks, and the levels of indirection in the rest. -/
def directBlocks : Nat := 12
def indirectLevels : Nat := 3

/-- An inode's type, size and block area. -/
structure Inode where
  mode : Nat
  size : Nat
  blocks : Nat
  flags : Nat
  fileAcl : Nat
  block : Bytes
deriving DecidableEq

namespace Inode

def blockOffset : Nat := 0x28
def blockBytes : Nat := 60

/-- Recover an inode from its bytes. The high half of the size is a regular file's alone. -/
def readFrom (buf : Bytes) (inodeSize : Nat) : Except ParseError Inode := do
  refuseIf (inodeSize < goodOldInodeSize) (.invalidField "Inode" "s_inode_size" inodeSize)
  refuseIf (buf.length < inodeSize) (.tooShort "Inode" inodeSize buf.length)
  let mode := getU16 buf 0x00
  let sizeHi := if mode &&& 0o170000 = 0o100000 then getU32 buf 0x6c else 0
  return {
    mode := mode
    size := join64 (getU32 buf 0x04) sizeHi
    blocks := join64 (getU32 buf 0x1c) (getU16 buf 0x74)
    flags := getU32 buf 0x20
    fileAcl := join64 (getU32 buf 0x68) (getU16 buf 0x76)
    block := slice buf blockOffset blockBytes
  }

def hasFlag (self : Inode) (flag : Nat) : Bool := self.flags &&& flag == flag

def isDir (self : Inode) : Bool := self.mode &&& 0o170000 == 0o040000

/-- A symlink that owns no data block keeps its target in its block area. An external
attribute block is charged to it as well and is discounted first.
-/
def isFastSymlink (self : Inode) (blockSize : Nat) : Bool :=
  let eaBlocks := if self.fileAcl ≠ 0 then blockSize / 512 else 0
  self.blocks == eaBlocks

/-- The inode's block area maps data blocks. -/
def mapsData (self : Inode) (blockSize : Nat) : Bool :=
  let kind := self.mode &&& 0o170000
  if kind = 0o100000 ∨ kind = 0o040000 then true
  else if kind = 0o120000 then !self.isFastSymlink blockSize
  else false

end Inode

end Ferrosys.Ext
