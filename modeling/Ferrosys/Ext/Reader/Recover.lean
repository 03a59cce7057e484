import Ferrosys.Ext.Geometry
import Ferrosys.Ext.Reader.Map

/-! Finding a group descriptor and an inode, and reading each through the table cache: steps that
move a reader's cache on and change nothing else of it.
-/

namespace Ferrosys.Ext

/-- A step of an open filesystem: what it answers, and the reader as it leaves it. A failed step
leaves the reader as far as it came.
-/
abbrev ReadM := ExceptT ReadError (StateM Reader)

/-- An answer the reader gives without changing. -/
def ReadM.answer {α : Type} (result : Except ReadError α) : ReadM α :=
  ExceptT.mk fun self => (result, self)

/-- A step's out-of-range failures are reported as references to `what`. -/
def ReadM.relabel {α : Type} (what : String) (index : Nat) (step : ReadM α) : ReadM α :=
  ExceptT.mk fun self => ((Reader.relabel what index (step self).1), (step self).2)

def Compat.sparseSuper2 : FeatureWord := 0x0200

/-- Group `g` of an existing filesystem carries a superblock copy, by the rule its own superblock
records.
-/
def carriesSuperblock (g : Nat) (sb : SuperBlock) : Bool :=
  if g = 0 then true
  else if sb.featureCompat &&& Compat.sparseSuper2 != 0 then
    g == sb.backupBgs.1 || g == sb.backupBgs.2
  else
    sb.featureRoCompat &&& RoCompat.sparseSuper == 0 || sparseSuperHasCopy g

namespace Reader

variable (self : Reader)

/-- The stride of one group descriptor on disk. -/
def descSize : Nat :=
  if self.feature.is64bit then max self.sb.descSize GroupDescriptor.size32
  else GroupDescriptor.size32

/-- The block holding group `group`'s descriptor, and where in that block it begins. -/
def descriptorPlace (group : Nat) : Option (Nat × Nat) := do
  let perBlock := max (self.blockSize / self.descSize) 1
  let metaGroup := group / perBlock
  let within := group % perBlock * self.descSize
  if self.feature.incompat.contains Incompat.metaBg && metaGroup ≥ self.sb.firstMetaBg then
    let first := metaGroup * perBlock
    let start ← offsetOf self.sb.firstDataBlock first self.sb.blocksPerGroup
    let block ← offsetOf start (if carriesSuperblock first self.sb then 1 else 0) 1
    return (block, within)
  else
    let block ← offsetOf (self.sb.firstDataBlock + 1) metaGroup 1
    return (block, within)

/-- Where group `group`'s descriptor begins, in bytes into the filesystem. -/
def descriptorOffset (group : Nat) : Option Nat := do
  let (block, within) ← self.descriptorPlace group
  let start ← offsetOf 0 block self.blockSize
  offsetOf start within 1

/-- The descriptor of group `group` exactly as it sits on disk. -/
def groupDescriptorRaw (group : Nat) : ReadM Bytes := do
  let self ← get
  match self.descriptorOffset group with
  | none => throw (.outOfRange "group" group)
  | some off =>
      let lastBlock := (off + self.descSize - 1) / self.blockSize
      if lastBlock ≥ self.sb.blocksCount then throw (.outOfRange "group" group)
      else
        ReadM.relabel "group" group
          (ExceptT.mk fun reader => reader.tableBytes off self.descSize)

/-- The descriptor of group `group`. -/
def groupDescriptor (group : Nat) : ReadM GroupDescriptor := do
  let raw ← groupDescriptorRaw group
  let self ← get
  ReadM.answer (orParse (GroupDescriptor.readFrom raw self.descSize))

/-- Inode `number` exactly as it sits on disk. -/
def inodeRaw (number : Nat) : ReadM Bytes := do
  let self ← get
  let ipg := self.sb.inodesPerGroup
  if number = 0 ∨ number > self.sb.inodesCount then throw (.noSuchInode number)
  else if ipg = 0 then throw (.noSuchInode number)
  else
    let group := (number - 1) / ipg
    let index := (number - 1) % ipg
    let desc ← groupDescriptor group
    let isize := self.sb.inodeSize
    match offsetOf (index * isize) desc.inodeTable self.blockSize with
    | none => throw (.outOfRange "inode" number)
    | some off =>
        let lastBlock := satAdd off (isize - 1) / self.blockSize
        if lastBlock ≥ self.sb.blocksCount then throw (.outOfRange "inode" number)
        else
          ReadM.relabel "inode" number
            (ExceptT.mk fun reader => reader.tableBytes off isize)

/-- Drop the high halves the features leave to other fields, and count an inode's blocks in
sectors whatever unit it keeps.
-/
def maskUngatedHalves (inode : Inode) : Inode :=
  let blocks :=
    if self.feature.hasHugeFile = false then inode.blocks % 2 ^ 32
    else if inode.hasFlag InodeFlags.hugeFile then satMul inode.blocks (self.blockSize / 512)
    else inode.blocks
  let fileAcl := if self.feature.is64bit then inode.fileAcl else inode.fileAcl % 2 ^ 32
  { inode with blocks := blocks, fileAcl := fileAcl }

/-- Inode `number`. -/
def inode (number : Nat) : ReadM Inode := do
  let raw ← inodeRaw number
  let self ← get
  let inode ← ReadM.answer (orParse (Inode.readFrom raw self.sb.inodeSize))
  return self.maskUngatedHalves inode

end Reader

end Ferrosys.Ext

/-! Opening a filesystem: the bounds a superblock is held to, the journal reached through the file
that holds it, and a recovery that plans the replay, installs it, and takes the superblock it
leaves, or undoes it whole.
-/

namespace Ferrosys.Ext

open Arith Checked Splice

def rootIno : Nat := 2
def Incompat.recover : FeatureWord := 0x0004

/-- The incompatible features whose layout the reader follows. -/
def supportedIncompat : FeatureWord :=
  Incompat.filetype ||| Incompat.extents ||| Incompat.sixtyFourBit ||| Incompat.flexBg
    ||| Incompat.csumSeed ||| Incompat.metaBg ||| Incompat.recover

def unsupportedIncompat (incompat : FeatureWord) : FeatureWord := incompat &&& ~~~supportedIncompat

/-- A superblock held to every bound the reader rests on, with what it says of the filesystem. -/
structure CheckedSuperblock where
  sb : SuperBlock
  feature : FeatureSet
  blockSize : Nat
  blockSized : 1024 ≤ blockSize

def badSuperblock (bad : Bool) (field : String) (value : Nat) : Except ReadError Unit :=
  refuseIf bad (.parse (.invalidField "superblock" field value))

/-- The values a revision-0 filesystem fixes by its revision. -/
def SuperBlock.resolveRevision (sb : SuperBlock) : SuperBlock :=
  if sb.revLevel = 0 then
    { sb with inodeSize := goodOldInodeSize, firstIno := goodOldFirstInode }
  else sb

theorem blockSize_of_log (log : Nat) : 1024 ≤ 1024 * 2 ^ log :=
  Nat.le_mul_of_pos_right _ (Nat.two_pow_pos log)

/-- Parse a superblock and hold it to every bound the reader rests on. The inode count's product
is taken in 64 bits.
-/
def checkedSuperblock (sbBytes : Bytes) : Except ReadError CheckedSuperblock := do
  let parsed ← orParse (SuperBlock.readFrom sbBytes)
  let sb := parsed.resolveRevision
  badSuperblock (sb.logBlockSize > 6) "s_log_block_size" sb.logBlockSize
  let blockSize := 1024 * 2 ^ sb.logBlockSize
  badSuperblock (!isPowerOfTwo sb.inodeSize || sb.inodeSize < 128 || sb.inodeSize > blockSize)
    "s_inode_size" sb.inodeSize
  let feature : FeatureSet :=
    ⟨sb.featureCompat, sb.featureIncompat, sb.featureRoCompat, blockSize, sb.inodeSize⟩
  badSuperblock
    (feature.is64bit
      && (!isPowerOfTwo sb.descSize || sb.descSize < GroupDescriptor.size64
        || sb.descSize > blockSize))
    "s_desc_size" sb.descSize
  let perGroupCap := 8 * blockSize
  badSuperblock (sb.blocksPerGroup == 0 || sb.blocksPerGroup > perGroupCap)
    "s_blocks_per_group" sb.blocksPerGroup
  badSuperblock (sb.inodesPerGroup == 0 || sb.inodesPerGroup > perGroupCap)
    "s_inodes_per_group" sb.inodesPerGroup
  badSuperblock (sb.firstDataBlock != if blockSize = 1024 then 1 else 0)
    "s_first_data_block" sb.firstDataBlock
  badSuperblock (sb.blocksCount ≤ sb.firstDataBlock) "s_blocks_count" sb.blocksCount
  let groups := divCeil (sb.blocksCount - sb.firstDataBlock) sb.blocksPerGroup
  badSuperblock
    (sb.inodesCount != sb.inodesPerGroup * groups % 2 ^ 64 || sb.inodesCount < rootIno)
    "s_inodes_count" sb.inodesCount
  return ⟨sb, feature, blockSize, blockSize_of_log sb.logBlockSize⟩

namespace Reader

/-- A journal's log, reached through the file that holds it one mapping window at a time. -/
def journalLocate (self : Reader) (inode : Inode) (n : Nat) : Except ReadError Nat := do
  let start := n - n % mapWindowBlocks
  let map ← self.mapWindow inode start mapWindowBlocks
  let at_ := map[n - start]?.getD 0
  if at_ = 0 then
    throw (.journalMalformed n "a log block the journal file does not map")
  else
    return at_

def journalLog (self : Reader) (inode : Inode) : Journal.Log where
  locate := self.journalLocate inode
  read n := do
    let at_ ← self.journalLocate inode n
    self.block at_

/-- Decide what recovering the journal would apply, reading the log from the homes. -/
def planReplay : ReadM Journal.Replay := do
  let self ← get
  if self.feature.hasJournal = false ∨ self.sb.journalInum = 0 then
    throw (.journalUnsupported "a journal on another device")
  else
    let inode ← inode self.sb.journalInum
    let self ← get
    let journalBlocks := self.fileLen inode / self.blockSize
    let log := self.journalLog inode
    let superblock ← ReadM.answer (log.read 0)
    ReadM.answer
      (Journal.plan superblock self.blockSize self.sb.blocksCount journalBlocks log)

/-- A recovery with what it applied, and a table cache that holds nothing read before it. -/
def install (self : Reader) (recovery : Recovery) : Reader :=
  { self with journal := some recovery, tableCache := Ext.tableCache self.blockSize }

/-- The first skipped copy, where the policy does not read past one. -/
def fatalSkip (policy : ReadPolicy) (skipped : List ReadError) : Except ReadError Unit :=
  match skipped with
  | first :: _ => if policy.isFatal first.severity then .error first else .ok ()
  | [] => .ok ()

/-- The superblock a replayed journal leaves, held to what the home copy was and to the block size
the reader reads by.
-/
def replayedSuperblock (self : Reader) : Except ReadError (CheckedSuperblock × Bytes) := do
  let sbBytes ← self.readAt 1024 SuperBlock.size
  let checked ← checkedSuperblock sbBytes
  refuseIf (checked.blockSize != self.blockSize)
    (.journalMalformed 0 "a replayed superblock naming a different block size")
  let unsupported := unsupportedIncompat checked.feature.incompat
  refuseIf (unsupported != 0 && self.policy.isFatal .structural)
    (.unsupportedIncompat unsupported.toNat)
  return (checked, sbBytes)

/-- Plan the replay, install it, and take the superblock it leaves. -/
def replayJournal : ReadM Unit := do
  let replay ← planReplay
  let skipped := replay.skipped.map fun s =>
    ReadError.journalCopyChecksum s.home s.sequence s.stored s.computed
  let self ← get
  ReadM.answer (fatalSkip self.policy skipped)
  let report : JournalReplay :=
    ⟨replay.transactions, replay.copies.entries.length, min skipped.length Journal.u32Max⟩
  set (self.install ⟨replay.copies, .replayed report skipped⟩)
  let self ← get
  let (checked, sbBytes) ← ReadM.answer self.replayedSuperblock
  set { self with sb := checked.sb, sbRaw := sbBytes, feature := checked.feature }

/-- Replay the journal of a filesystem that needs recovery. What cannot be replayed is refused
under a policy that is fatal at its severity, and otherwise recorded while the reader goes ahead
with the homes as they are.
-/
def recover : ReadM Unit :=
  ExceptT.mk fun self =>
    match replayJournal self with
    | (.ok (), after) => (.ok (), after)
    | (.error fault, after) =>
        let after :=
          { after with journal := none, tableCache := Ext.tableCache after.blockSize }
        if after.policy.isFatal fault.severity then (.error fault, after)
        else (.ok (), { after with journal := some ⟨.empty, .notReplayed fault⟩ })

end Reader

/-- Where a filesystem begins in its source, how strictly to read it, and what one read may
allocate.
-/
structure OpenOptions where
  base : Nat
  policy : ReadPolicy
  maxFileBytes : Nat
deriving DecidableEq

/-- Open a filesystem. -/
def openWith (src : { src : Bytes // src.length < 2 ^ 63 }) (options : OpenOptions)
    : Except ReadError Reader :=
  match offsetOf options.base 1 1024 with
  | none => .error (.outOfRange "bytes" options.base)
  | some sbOffset =>
      if long : options.base ≤ src.val.length ∧ sbOffset + SuperBlock.size ≤ src.val.length then do
        let sbBytes := slice src.val sbOffset SuperBlock.size
        let checked ← checkedSuperblock sbBytes
        let unsupported := unsupportedIncompat checked.feature.incompat
        refuseIf (unsupported != 0 && options.policy.isFatal .structural)
          (.unsupportedIncompat unsupported.toNat)
        let needsRecovery := checked.sb.featureIncompat &&& Incompat.recover != 0
        let reader : Reader := {
          src := src.val
          base := options.base
          sb := checked.sb
          sbRaw := sbBytes
          feature := checked.feature
          blockSize := checked.blockSize
          policy := options.policy
          maxFileBytes := options.maxFileBytes
          tableCache := tableCache checked.blockSize
          needsRecovery := needsRecovery
          stateOnDisk := checked.sb.state
          journal := none
          bounded := src.property
          based := long.1
          blockSized := checked.blockSized
        }
        if needsRecovery then
          match Reader.recover reader with
          | (.ok (), reader) => return reader
          | (.error error, _) => .error error
        else
          return reader
      else
        .error (.io "UnexpectedEof" "failed to fill whole buffer")

end Ferrosys.Ext
