import Ferrosys.Library.Checked
import Mathlib.Data.List.Basic
import Mathlib.Order.Basic
import Mathlib.Tactic.Linarith
import Mathlib.Tactic.IntervalCases

/-! The feature switchboard: the three feature words, the block and inode sizes, and the
combinations `validate` refuses.
-/

namespace Ferrosys.Ext

open Checked

/-- One on-disk feature word. -/
abbrev FeatureWord := BitVec 32

/-- Every flag of `flag` is set in `word`. -/
def FeatureWord.contains (word flag : FeatureWord) : Bool :=
  word &&& flag == flag

namespace Compat
def hasJournal : FeatureWord := 0x0004
def extAttr : FeatureWord := 0x0008
def resizeInode : FeatureWord := 0x0010
def dirIndex : FeatureWord := 0x0020
def orphanFile : FeatureWord := 0x1000
end Compat

namespace Incompat
def filetype : FeatureWord := 0x0002
def metaBg : FeatureWord := 0x0010
def extents : FeatureWord := 0x0040
def sixtyFourBit : FeatureWord := 0x0080
def flexBg : FeatureWord := 0x0200
def csumSeed : FeatureWord := 0x2000
end Incompat

namespace RoCompat
def sparseSuper : FeatureWord := 0x0001
def largeFile : FeatureWord := 0x0002
def hugeFile : FeatureWord := 0x0008
def dirNlink : FeatureWord := 0x0020
def extraIsize : FeatureWord := 0x0040
def metadataCsum : FeatureWord := 0x0400
end RoCompat

/-- The feature configuration of one filesystem. -/
structure FeatureSet where
  compat : FeatureWord
  incompat : FeatureWord
  roCompat : FeatureWord
  blockSize : Nat
  inodeSize : Nat
deriving DecidableEq

namespace FeatureSet

/-- The default ext4 profile. -/
def default : FeatureSet where
  compat :=
    Compat.hasJournal ||| Compat.extAttr ||| Compat.resizeInode ||| Compat.dirIndex
      ||| Compat.orphanFile
  incompat :=
    Incompat.filetype ||| Incompat.extents ||| Incompat.sixtyFourBit ||| Incompat.flexBg
      ||| Incompat.csumSeed
  roCompat :=
    RoCompat.sparseSuper ||| RoCompat.largeFile ||| RoCompat.hugeFile ||| RoCompat.dirNlink
      ||| RoCompat.extraIsize ||| RoCompat.metadataCsum
  blockSize := 4096
  inodeSize := 256

/-- The ext2 baseline. -/
def ext2 : FeatureSet where
  compat := Compat.extAttr ||| Compat.resizeInode ||| Compat.dirIndex
  incompat := Incompat.filetype
  roCompat := RoCompat.sparseSuper ||| RoCompat.largeFile
  blockSize := 4096
  inodeSize := 256

variable (self : FeatureSet)

def is64bit : Bool := self.incompat.contains Incompat.sixtyFourBit
def hasExtents : Bool := self.incompat.contains Incompat.extents
def isSparseSuper : Bool := self.roCompat.contains RoCompat.sparseSuper
def hasFiletype : Bool := self.incompat.contains Incompat.filetype
def hasFlexBg : Bool := self.incompat.contains Incompat.flexBg
def hasJournal : Bool := self.compat.contains Compat.hasJournal
def hasMetadataCsum : Bool := self.roCompat.contains RoCompat.metadataCsum
def hasDirNlink : Bool := self.roCompat.contains RoCompat.dirNlink
def hasLargeFile : Bool := self.roCompat.contains RoCompat.largeFile
def hasHugeFile : Bool := self.roCompat.contains RoCompat.hugeFile
def hasResizeInode : Bool := self.compat.contains Compat.resizeInode
def hasDirIndex : Bool := self.compat.contains Compat.dirIndex
def hasOrphanFile : Bool := self.compat.contains Compat.orphanFile
def hasCsumSeed : Bool := self.incompat.contains Incompat.csumSeed

/-- Bytes of one group descriptor on disk. -/
def descSize : Nat := if self.is64bit then 64 else 32

/-- Inodes stored per inode-table block. -/
def inodesPerBlock : Nat := if self.inodeSize = 0 then 0 else self.blockSize / self.inodeSize

end FeatureSet

/-- A feature combination that must never be written to disk. -/
inductive FeatureError where
  | metaBg
  | requiresExtents (feature : String)
  | flexBgRequired
  | filetypeRequired
  | csumSeedWithoutMetadataCsum
  | orphanFileWithoutJournal
  | resizeInodeRequiresLargeFile (blockSize size : Nat)
  | blockSize (blockSize : Nat)
  | inodeSize (inodeSize : Nat)
deriving DecidableEq

/-- The size at or past which a regular file requires `large_file`. -/
def largeFileMinSize : Nat := 0x80000000

/-- The size the resize inode declares at a block size. -/
def resizeInodeSize (blockSize : Nat) : Nat :=
  let apb := blockSize / 4
  blockSize * (12 + apb + apb * apb)

def isPowerOfTwo (n : Nat) : Bool :=
  n == 2 ^ n.log2

/-- Reject the first conflict a feature set carries. -/
def FeatureSet.validate (self : FeatureSet) : Except FeatureError Unit := do
  refuseIf (self.incompat.contains Incompat.metaBg) .metaBg
  refuseIf (!self.hasFiletype) .filetypeRequired
  refuseIf (self.hasCsumSeed && !self.hasMetadataCsum) .csumSeedWithoutMetadataCsum
  refuseIf (self.hasOrphanFile && !self.hasJournal) .orphanFileWithoutJournal
  refuseIf (!(self.blockSize == 1024 || self.blockSize == 2048 || self.blockSize == 4096))
    (.blockSize self.blockSize)
  refuseIf
    (self.inodeSize < 128 || !isPowerOfTwo self.inodeSize || self.inodeSize > self.blockSize
      || self.blockSize % self.inodeSize != 0)
    (.inodeSize self.inodeSize)
  let resizeSize := resizeInodeSize self.blockSize
  refuseIf (self.hasResizeInode && !self.hasLargeFile && resizeSize ≥ largeFileMinSize)
    (.resizeInodeRequiresLargeFile self.blockSize resizeSize)
  if self.hasExtents then
    refuseIf (!self.hasFlexBg) .flexBgRequired
  else
    refuseIf self.hasFlexBg (.requiresExtents "flex_bg")
    refuseIf self.is64bit (.requiresExtents "64bit")
    refuseIf self.hasMetadataCsum (.requiresExtents "metadata_csum")
    refuseIf self.hasCsumSeed (.requiresExtents "metadata_csum_seed")
    refuseIf self.hasHugeFile (.requiresExtents "huge_file")
    refuseIf self.hasDirNlink (.requiresExtents "dir_nlink")
    refuseIf (self.roCompat.contains RoCompat.extraIsize) (.requiresExtents "extra_isize")
    refuseIf self.hasOrphanFile (.requiresExtents "orphan_file")

/-- The sizes a valid set carries: one of three block sizes, and an inode size that is a
power of two the block holds a whole number of times.
-/
structure FeatureSet.Sized (feature : FeatureSet) : Prop where
  block : feature.blockSize = 1024 ∨ feature.blockSize = 2048 ∨ feature.blockSize = 4096
  inode : ∃ k, 7 ≤ k ∧ feature.inodeSize = 2 ^ k ∧ feature.inodeSize ≤ feature.blockSize

/-- A step before the last of a checked sequence succeeded where the sequence did. -/
theorem bind_unit_eq_ok {ε α : Type} {first : Except ε Unit} {rest : Except ε α} {a : α}
    : (do first; rest) = .ok a ↔ first = .ok () ∧ rest = .ok a := by
  cases first <;> simp [bind, Except.bind]

/-- Validation fixes the sizes, by reading its fifth and sixth checks. -/
theorem FeatureSet.validate_sized {self : FeatureSet} (valid : self.validate = .ok ())
    : self.Sized := by
  simp only [validate, bind_unit_eq_ok, refuseIf_eq_ok] at valid
  obtain ⟨-, -, -, -, block, inode, -⟩ := valid
  simp only [Bool.not_eq_false', Bool.or_eq_true, beq_iff_eq, or_assoc] at block
  simp only [Bool.or_eq_false_iff, decide_eq_false_iff_not, not_lt, Bool.not_eq_false',
    isPowerOfTwo, beq_iff_eq] at inode
  obtain ⟨⟨⟨least, power⟩, most⟩, -⟩ := inode
  refine ⟨block, self.inodeSize.log2, ?_, power, by omega⟩
  by_contra small
  have := Nat.pow_lt_pow_right (show 1 < 2 by omega) (show self.inodeSize.log2 < 7 by omega)
  omega

/-- Descriptors are thirty-two or sixty-four bytes, so a block holds at least sixteen. -/
theorem FeatureSet.descSize_cases (self : FeatureSet)
    : self.descSize = 32 ∨ self.descSize = 64 := by
  unfold descSize
  split <;> simp

end Ferrosys.Ext
