import Ferrosys.Crc32c
import Ferrosys.Ext.ReadError
import Ferrosys.Library.Checked
import Ferrosys.Library.SortedMap
import Mathlib.Data.Nat.Basic

/-! The jbd2 journal's block types, feature bits and superblock, all of it big-endian. -/

namespace Ferrosys.Ext.Journal

def jbd2Magic : Nat := 0xc03b3998
def jbd2SuperblockV1 : Nat := 3
def jbd2SuperblockV2 : Nat := 4
def superblockSize : Nat := 1024

def blocktypeDescriptor : Nat := 1
def blocktypeCommit : Nat := 2
def blocktypeRevoke : Nat := 5

def compatChecksum : Nat := 0x1
def incompatRevoke : Nat := 0x1
def incompat64Bit : Nat := 0x2
def incompatAsyncCommit : Nat := 0x4
def incompatCsumV2 : Nat := 0x8
def incompatCsumV3 : Nat := 0x10
def incompatFastCommit : Nat := 0x20
def crc32cChksum : Nat := 4

def tagEscaped : Nat := 0x1
def tagSameUuid : Nat := 0x2
def tagDeleted : Nat := 0x4
def tagLast : Nat := 0x8

namespace Offset

def blockSize : Nat := 0x0c
def maxLen : Nat := 0x10
def first : Nat := 0x14
def sequence : Nat := 0x18
def start : Nat := 0x1c
def featureCompat : Nat := 0x24
def featureIncompat : Nat := 0x28
def featureRoCompat : Nat := 0x2c
def uuid : Nat := 0x30
def checksumType : Nat := 0x50
def checksum : Nat := 0xfc

end Offset

/-- The checksum a journal superblock's bytes compute to: over the whole record, its own field
read as zero.
-/
def superblockChecksum (superblock : Bytes) : Nat :=
  let c := crc32c 0xffffffff (superblock.take Offset.checksum)
  let c := crc32c c [0, 0, 0, 0]
  crc32c c ((superblock.take superblockSize).drop (Offset.checksum + 4))

end Ferrosys.Ext.Journal

/-! Recovering a jbd2 log without writing it: which home blocks a recovery rewrites, and where
in the image the copy each one takes sits. A log is read through `Log` and nothing else.
-/

namespace Ferrosys.Ext.Journal

open Checked SortedMaps

def maxJournalBlocks : Nat := 10240000
def header : Nat := 12
def tail : Nat := 4
def commitChecksum : Nat := 0x10
def revokeCount : Nat := 0x0c
def revokeRecords : Nat := 0x10
def tagUuid : Nat := 16
def u32Max : Nat := 2 ^ 32 - 1

/-- The blocks of a journal: where in the image a log block sits, and its bytes. -/
structure Log where
  locate : Nat → Except ReadError Nat
  read : Nat → Except ReadError Bytes

/-- The copy a home block takes. -/
structure Copy where
  at_ : Nat
  escaped : Bool
deriving DecidableEq

/-- A copy a recovery skips, because its checksum does not hold. -/
structure Skipped where
  home : Nat
  sequence : Nat
  stored : Nat
  computed : Nat
deriving DecidableEq

/-- What a recovery would apply. -/
structure Replay where
  copies : SortedMap Nat Copy
  transactions : Nat
  skipped : List Skipped

def Replay.default : Replay := ⟨.empty, 0, []⟩

/-- Which checksums the log carries. -/
inductive Checksums where
  | none
  | v2
  | v3
deriving DecidableEq

/-- What the journal superblock says about the log's shape. -/
structure Layout where
  maxLen : Nat
  first : Nat
  checksums : Checksums
  wide : Bool
  seed : Nat
deriving DecidableEq

namespace Layout

variable (self : Layout)

/-- A tag's size, the UUID that may follow it aside. -/
def tagSize : Nat :=
  match self.checksums with
  | .v3 => 16
  | .v2 => 10 + if self.wide then 4 else 0
  | .none => 8 + if self.wide then 4 else 0

/-- Where the room for tags or records ends in a block of `len` bytes. -/
def bodyEnd (len : Nat) : Nat :=
  match self.checksums with
  | .none => len
  | .v2 | .v3 => len - tail

/-- The log block after `n`: the next one, or the first after the journal's last. -/
def next (n : Nat) : Nat :=
  if min (n + 1) u32Max ≥ self.maxLen then self.first else n + 1

theorem tagSize_pos : 0 < self.tagSize := by
  unfold tagSize
  split <;> omega

end Layout

/-- One copy as a descriptor names it. -/
structure Tag where
  home : Nat
  at_ : Nat
  escaped : Bool
  stored : Nat
deriving DecidableEq

/-- A transaction as the log holds it. -/
structure Transaction where
  sequence : Nat
  tags : List Tag
  revokes : List Nat
deriving DecidableEq

def malformed {α : Type} (logBlock : Nat) (detail : String) : Except ReadError α :=
  .error (.journalMalformed logBlock detail)

def unsupported {α : Type} (feature : String) : Except ReadError α :=
  .error (.journalUnsupported feature)

def malformedIf (bad : Bool) (logBlock : Nat) (detail : String) : Except ReadError Unit :=
  refuseIf bad (.journalMalformed logBlock detail)

def unsupportedIf (bad : Bool) (feature : String) : Except ReadError Unit :=
  refuseIf bad (.journalUnsupported feature)

/-- The checksums two feature bits ask for. -/
def checksumsOf (incompat : Nat) : Except ReadError Checksums :=
  match incompat &&& incompatCsumV2 != 0, incompat &&& incompatCsumV3 != 0 with
  | false, false => .ok .none
  | true, false => .ok .v2
  | false, true => .ok .v3
  | true, true => unsupported "both journal checksum versions at once"

/-- A checksummed log's superblock holds its own checksum. -/
def checkSuperblock (superblock : Bytes) (checksums : Checksums) : Except ReadError Unit :=
  if checksums = .none then .ok ()
  else do
    let kind := getU8 superblock Offset.checksumType
    unsupportedIf (kind != crc32cChksum) "a journal checksum other than crc32c"
    let stored := getU32Be superblock Offset.checksum
    let computed := superblockChecksum superblock
    refuseIf (stored != computed) (.checksumMismatch "journal superblock" 0 stored computed)

/-- Read the journal superblock's description of the log, refusing what is not replayed. -/
def layout (superblock : Bytes) (blockSize journalBlocks : Nat) : Except ReadError Layout := do
  malformedIf (superblock.length < superblockSize || getU32Be superblock 0 != jbd2Magic) 0
    "a journal superblock without the jbd2 magic"
  let version := getU32Be superblock 4
  unsupportedIf (version == jbd2SuperblockV1) "a version 1 journal superblock"
  malformedIf (version != jbd2SuperblockV2) 0 "a journal superblock of an unknown version"
  let compat := getU32Be superblock Offset.featureCompat
  let incompat := getU32Be superblock Offset.featureIncompat
  let roCompat := getU32Be superblock Offset.featureRoCompat
  unsupportedIf (compat &&& compatChecksum != 0) "the version 1 commit checksum"
  unsupportedIf (incompat &&& incompatAsyncCommit != 0) "asynchronous commits"
  unsupportedIf (incompat &&& incompatFastCommit != 0) "fast commits"
  let known := incompatRevoke ||| incompat64Bit ||| incompatCsumV2 ||| incompatCsumV3
  unsupportedIf (incompat &&& (u32Max ^^^ known) != 0)
    "an incompatible journal feature it does not know"
  unsupportedIf (roCompat != 0) "a read-only-compatible journal feature it does not know"
  let checksums ← checksumsOf incompat
  checkSuperblock superblock checksums
  malformedIf (getU32Be superblock Offset.blockSize != blockSize) 0
    "a journal block size other than the filesystem's"
  let maxLen := getU32Be superblock Offset.maxLen
  let first := getU32Be superblock Offset.first
  malformedIf (maxLen > maxJournalBlocks || maxLen > journalBlocks) 0
    "a journal longer than the file holding it"
  malformedIf (first == 0 || first ≥ maxLen) 0 "a first log block outside the journal"
  return {
    maxLen := maxLen
    first := first
    checksums := checksums
    wide := incompat &&& incompat64Bit != 0
    seed := crc32c 0xffffffff ((superblock.drop Offset.uuid).take 16)
  }

/-- Refuse a descriptor or revoke block whose checksum tail does not hold. -/
def checkTail (layout : Layout) (block : Bytes) (object : String) (at_ : Nat)
    : Except ReadError Unit :=
  if layout.checksums = .none then .ok ()
  else do
    let tail := block.length - tail
    let stored := getU32Be block tail
    let computed := crc32c (crc32c layout.seed (block.take tail)) [0, 0, 0, 0]
    refuseIf (stored != computed) (.checksumMismatch object at_ stored computed)

/-- A commit block's checksum holds, where the log carries one. -/
def commitHolds (layout : Layout) (block : Bytes) : Bool :=
  if layout.checksums = .none then true
  else
    let stored := getU32Be block commitChecksum
    let c := crc32c layout.seed (block.take commitChecksum)
    let c := crc32c c [0, 0, 0, 0]
    crc32c c (block.drop (commitChecksum + 4)) == stored

/-- The checksum a data block's tag records: over the transaction's sequence number and then
the block as it was logged.
-/
def tagChecksum (layout : Layout) (sequence : Nat) (bytes : Bytes) : Nat :=
  let c := crc32c (crc32c layout.seed (toBeBytes32 sequence)) bytes
  match layout.checksums with
  | .v2 => c &&& 0xffff
  | .v3 | .none => c

/-- A copy's home block, whether it was escaped, and the checksum its tag records. -/
abbrev Named := Nat × Bool × Nat

/-- The flags, the upper half of the home block and the checksum of the tag at `pos`. -/
def tagWords (layout : Layout) (block : Bytes) (pos : Nat) : Nat × Nat × Nat :=
  match layout.checksums with
  | .v3 => (getU32Be block (pos + 4), getU32Be block (pos + 8), getU32Be block (pos + 12))
  | .v2 | .none =>
      let word := getU32Be block (pos + 4)
      let high := if layout.wide then getU32Be block (pos + 8) else 0
      (word &&& 0xffff, high, word >>> 16)

/-- The tags from `pos` on, up to the one flagged as the last or to where no further tag fits.
Each tag shortens what is left of the block.
-/
def tagsFrom (layout : Layout) (block : Bytes)
    : (fuel pos : Nat) → layout.bodyEnd block.length - pos < fuel
      → Except ReadError (List Named)
  | 0, _, enough => absurd enough (Nat.not_lt_zero _)
  | fuel + 1, pos, enough =>
      if fits : pos + layout.tagSize ≤ layout.bodyEnd block.length then do
        let low := getU32Be block pos
        let (flags, high, stored) := tagWords layout block pos
        unsupportedIf (flags &&& tagDeleted != 0) "a tag marking a deleted block"
        let high := if layout.wide then high else 0
        let named : Named := (high * 2 ^ 32 + low, flags &&& tagEscaped != 0, stored)
        let uuid := if flags &&& tagSameUuid = 0 then tagUuid else 0
        if flags &&& tagLast ≠ 0 then return [named]
        else do
          let rest ← tagsFrom layout block fuel (pos + layout.tagSize + uuid)
            (by have := layout.tagSize_pos; omega)
          return named :: rest
      else
        return []

/-- The tags of a descriptor block. -/
def tags (layout : Layout) (block : Bytes) (at_ : Nat) : Except ReadError (List Named) := do
  let out ← tagsFrom layout block (layout.bodyEnd block.length - header + 1) header
    (Nat.lt_succ_self _)
  malformedIf out.isEmpty at_ "a descriptor block with no tag"
  return out

/-- The blocks a revoke block names. -/
def revokes (layout : Layout) (block : Bytes) (at_ : Nat) : Except ReadError (List Nat) := do
  let record := if layout.wide then 8 else 4
  let count := getU32Be block revokeCount
  malformedIf
    (count < revokeRecords || count > layout.bodyEnd block.length
      || (count - revokeRecords) % record != 0)
    at_ "a revoke block whose count runs past its records"
  return (List.range ((count - revokeRecords) / record)).map fun i =>
    let pos := revokeRecords + i * record
    if layout.wide then getU64Be block pos else getU32Be block pos

/-- Where the walk stands: the block it visits next, the copies the last descriptor named that
it has not come to, the transaction it is in, and those before it.
-/
structure Walk where
  at_ : Nat
  pending : List Named
  current : Transaction
  committed : List Transaction
deriving DecidableEq

/-- Walk the log with `left` visits left, one block a turn: the copies a descriptor named, and
then the next record.
-/
def scanFrom (layout : Layout) (blockSize : Nat) (log : Log)
    : (left : Nat) → Walk → Except ReadError (List Transaction)
  | 0, walk => malformed walk.at_ "a log longer than its journal"
  | left + 1, walk =>
      match walk.pending with
      | (home, escaped, stored) :: pending =>
          scanFrom layout blockSize log left
            { walk with
              at_ := layout.next walk.at_
              pending := pending
              current :=
                { walk.current with
                  tags := walk.current.tags ++ [⟨home, walk.at_, escaped, stored⟩] } }
      | [] => do
          let block ← log.read walk.at_
          if block.length ≠ blockSize ∨ getU32Be block 0 ≠ jbd2Magic
              ∨ getU32Be block 8 ≠ walk.current.sequence then
            return walk.committed
          else if getU32Be block 4 = blocktypeDescriptor then do
            checkTail layout block "journal descriptor" walk.at_
            let named ← tags layout block walk.at_
            scanFrom layout blockSize log left
              { walk with at_ := layout.next walk.at_, pending := named }
          else if getU32Be block 4 = blocktypeRevoke then do
            checkTail layout block "journal revoke block" walk.at_
            let homes ← revokes layout block walk.at_
            scanFrom layout blockSize log left
              { walk with
                at_ := layout.next walk.at_
                current := { walk.current with revokes := walk.current.revokes ++ homes } }
          else if getU32Be block 4 = blocktypeCommit then
            if commitHolds layout block then
              scanFrom layout blockSize log left
                {
                  at_ := layout.next walk.at_
                  pending := []
                  current := ⟨(walk.current.sequence + 1) % 2 ^ 32, [], []⟩
                  committed := walk.committed ++ [walk.current]
                }
            else
              return walk.committed
          else
            return walk.committed

/-- Walk the log from `start`, and return the transactions a sound commit record closes, in log
order. The walk visits no more blocks than the journal spans.
-/
def scan (layout : Layout) (start sequence blockSize : Nat) (log : Log)
    : Except ReadError (List Transaction) :=
  scanFrom layout blockSize log (layout.maxLen - layout.first)
    ⟨start, [], ⟨sequence, [], []⟩, []⟩

/-- The last transaction revoking each block, by its position in the log. -/
def revokedBy (committed : List Transaction) : SortedMap Nat Nat :=
  committed.zipIdx.foldl
    (fun revoked (transaction, index) =>
      transaction.revokes.foldl (fun revoked home => revoked.insert home index) revoked)
    .empty

/-- Take the copy a tag names, skip it, or pass over it as revoked. -/
def applyTag (layout : Layout) (fsBlocks : Nat) (log : Log) (revoked : SortedMap Nat Nat)
    (index sequence : Nat) (replay : Replay) (tag : Tag) : Except ReadError Replay :=
  let take : Except ReadError Replay := do
    let at_ ← log.locate tag.at_
    return { replay with copies := replay.copies.insert tag.home ⟨at_, tag.escaped⟩ }
  if (revoked.get? tag.home).any (· ≥ index) then .ok replay
  else do
    malformedIf (tag.home ≥ fsBlocks) tag.at_ "a copy of a block past the filesystem"
    if layout.checksums ≠ .none then do
      let bytes ← log.read tag.at_
      let computed := tagChecksum layout sequence bytes
      if computed ≠ tag.stored then
        return { replay with
          skipped := replay.skipped ++ [⟨tag.home, sequence, tag.stored, computed⟩] }
      else
        take
    else
      take

/-- Decide which copy each home block takes, from the committed transactions in log order. -/
def apply (layout : Layout) (committed : List Transaction) (fsBlocks : Nat) (log : Log)
    : Except ReadError Replay :=
  let revoked := revokedBy committed
  committed.zipIdx.foldlM
    (fun replay (transaction, index) =>
      transaction.tags.foldlM
        (applyTag layout fsBlocks log revoked index transaction.sequence) replay)
    { Replay.default with transactions := min committed.length u32Max }

/-- Decide what recovering the log whose superblock is `superblock` would apply. -/
def plan (superblock : Bytes) (blockSize fsBlocks journalBlocks : Nat) (log : Log)
    : Except ReadError Replay := do
  let layout ← layout superblock blockSize journalBlocks
  let start := getU32Be superblock Offset.start
  if start = 0 then return Replay.default
  else do
    malformedIf (start < layout.first || start ≥ layout.maxLen) 0
      "a log start outside the journal"
    let sequence := getU32Be superblock Offset.sequence
    let committed ← scan layout start sequence blockSize log
    apply layout committed fsBlocks log

end Ferrosys.Ext.Journal
