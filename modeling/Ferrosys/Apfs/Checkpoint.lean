import Ferrosys.Apfs.Container
import Ferrosys.Apfs.Geometry
import Mathlib.Data.List.Sort

/-! The checkpoint a container is opened at: the newest whole one in the ring of blocks block zero
names, past every newer one that is torn, another container's, or not loaded.
-/

namespace Ferrosys.Apfs

open Splice Checked Arith

/-- The identifier of the container superblock. -/
def oidNxSuperblock : Nat := 1

/-- The most bytes of checkpoint descriptor area, and of one ephemeral object, that are read. -/
def maxDescriptorBytes : Nat := 16 * 2 ^ 20
def maxEphemeralBytes : Nat := 16 * 2 ^ 20

/-- Why a value that shapes the container is refused, where the format gives it no meaning. -/
def undefined : String := "which the format does not define"

/-- Why opening records a second whole checkpoint of the live one's transaction. -/
def sameTransaction : String := "another whole checkpoint records the same transaction"

/-- Why opening passes over a checkpoint recording another container's identifier. -/
def foreign : String := "it belongs to another container than block zero"

/-- Why opening passes over a checkpoint whose space manager does not load. -/
def queueLimits : String :=
  "its space manager gives a free queue another node limit than a container of its size has"

/-- Whether `header` records the identity of an object stored so with identifier `oid`, with no
subtype and no flag that is not read.
-/
def writtenAs (header : ObjectHeader) (storage : Storage) (oid : Nat) : Bool :=
  header.storage == storage && header.oid == oid && header.subtype == 0 && header.otherFlags == 0

/-- What one block of the checkpoint descriptor area holds, where its checksum covers it. -/
structure Slot where
  kind : Nat
  xid : Nat
  mapping : Bool
deriving DecidableEq

/-- A container superblock in the descriptor area: its transaction, its place in the ring, and its
block.
-/
structure Candidate where
  xid : Nat
  index : Nat
  superblock : ContainerSuperblock
  bytes : Bytes
deriving DecidableEq

/-- A container superblock in the descriptor area which opening did not take, and why. -/
structure PassedOver where
  address : Nat
  xid : Nat
  reason : String
deriving DecidableEq

/-- What the one pass over the area keeps of a block: its slot, its mappings of a space manager where
it is a mapping block, and its superblock where it is one.
-/
structure RingBlock where
  slot : Option Slot
  managers : List CheckpointMapping
  candidate : Option Candidate
deriving DecidableEq

/-- The header of a block whose checksum covers it. -/
def headerOf (bytes : Bytes) : Option ObjectHeader :=
  if verify bytes then (ObjectHeader.readFrom bytes).toOption else none

/-- The mappings of a space manager in a block with this header. -/
def managersIn (header : Option ObjectHeader) (bytes : Bytes) : List CheckpointMapping :=
  match header with
  | none => []
  | some h =>
      if h.kind = Kind.checkpointMap then
        ((checkpointMapReadFrom bytes).toOption.getD []).filter (·.kind == Kind.spaceManager)
      else []

/-- The superblock in a block with this header, at `index` of the ring. -/
def candidateIn (header : Option ObjectHeader) (index : Nat) (bytes : Bytes) : Option Candidate :=
  match header with
  | none => none
  | some h =>
      if h.kind = Kind.containerSuperblock then
        (ContainerSuperblock.readFrom bytes).toOption.map fun sb => ⟨sb.header.xid, index, sb, bytes⟩
      else none

/-- What is kept of block `index` of the ring, which is at `address`. -/
def RingBlock.of (address index : Nat) (bytes : Bytes) : RingBlock :=
  let header := headerOf bytes
  {
    slot := header.map fun h => ⟨h.kind, h.xid, writtenAs h .physical address⟩
    managers := managersIn header bytes
    candidate := candidateIn header index bytes
  }

/-- The checkpoint descriptor area: a ring of blocks, of which there are some. -/
structure Ring where
  blocks : List RingBlock
  nonempty : 0 < blocks.length

/-- The block `at_` blocks on from the ring's first, round and round. -/
def Ring.block (self : Ring) (at_ : Nat) : RingBlock :=
  self.blocks.get ⟨at_ % self.blocks.length, Nat.mod_lt _ self.nonempty⟩

/-- Hold what a block of the ring holds to being a mapping block of transaction `xid`. -/
def checkMappingBlock (xid : Nat) (slot : Option Slot) : Except String Unit :=
  match slot with
  | none => .error "a checkpoint-mapping block of it does not verify"
  | some slot => do
      refuseIf (slot.kind != Kind.checkpointMap || slot.xid != xid)
        "a checkpoint-mapping block of it is from another transaction"
      refuseIf (!slot.mapping)
        "a checkpoint-mapping block of it records another identity than its own"

/-- The size of the space manager of a container of this superblock's size, in whole blocks. -/
def managerSize (sb : ContainerSuperblock) : Nat :=
  let need := (ChunkGeometry.of sb.blockCount sb.blockSize).managerLayout.2
  min (divCeil need sb.blockSize * sb.blockSize) (2 ^ 64 - 1)

/-- What is wrong with an ephemeral object that has this header, where something is. -/
def CheckpointMapping.fault (mapping : CheckpointMapping) (kind live : Nat) (header : ObjectHeader)
    : Option String :=
  if header.kind ≠ kind ∨ header.typeWord ≠ mapping.typeWord then
    some "an object of another type than its mapping says"
  else if header.storage ≠ .ephemeral then some "an object stored another way"
  else if header.oid ≠ mapping.oid then some "an object recording another identifier"
  else if header.xid = 0 ∨ live < header.xid then some "an object from another transaction"
  else none

/-- Newest first. -/
def Candidate.NotOlder (a b : Candidate) : Prop := b.xid ≤ a.xid

instance : DecidableRel Candidate.NotOlder := fun a b => inferInstanceAs (Decidable (b.xid ≤ a.xid))

/-- Take the first of these candidates that will do, which `judge` says, and record the ones passed
over on the way and any other of its transaction.
-/
def select (judge : Candidate → Except String Unit) (base : Nat)
    : (live : Option Candidate) → List PassedOver → List Candidate → Option Candidate × List PassedOver
  | live, passed, [] => (live, passed)
  | live, passed, candidate :: rest =>
      if live.any fun found => decide (candidate.xid < found.xid) then (live, passed)
      else
        let recorded := fun reason => passed ++ [⟨base + candidate.index, candidate.xid, reason⟩]
        match judge candidate, live with
        | .ok (), none => select judge base (some candidate) passed rest
        | .ok (), some _ => select judge base live (recorded sameTransaction) rest
        | .error reason, none => select judge base none (recorded reason) rest
        | .error _, some _ => select judge base live passed rest

/-- What opening finds in the descriptor area. -/
structure Live where
  address : Nat
  superblock : ContainerSuperblock
  bytes : Bytes
  passedOver : List PassedOver
deriving DecidableEq

namespace Container

/-- The ephemeral object `mapping` names, read whole, verified, and held to being of `kind` and
written no later than `live`.
-/
def readEphemeral (self : Container) (mapping : CheckpointMapping) (kind live : Nat)
    : Except ReadError Bytes := do
  let size := mapping.size
  refuseIf (size == 0 || size % self.blockSize != 0 || decide (maxEphemeralBytes < size))
    (.badGeometry "an ephemeral object's size" size
      "not whole blocks, or more than this crate reads")
  let bytes ← self.readBlocks mapping.address size
  refuseIf (!verify bytes) (.badChecksum "ephemeral object" mapping.address)
  let header ← (ObjectHeader.readFrom bytes).mapError .parse
  match mapping.fault kind live header with
  | some fault => throw (.wrongObject mapping.address fault)
  | none => return bytes

/-- Whether the checkpoint whose superblock sits at `index` of the ring is whole: it is the
container's own, the last block of the checkpoint it describes, and every mapping block before it
verifies at its transaction.
-/
def checkpointIsWhole (self : Container) (sb : ContainerSuperblock) (index : Nat) (ring : Ring)
    : Except String Unit := do
  let length := ring.blocks.length
  let start := sb.checkpoint.descIndex
  let len := sb.checkpoint.descLen
  refuseIf (!writtenAs sb.header .ephemeral oidNxSuperblock)
    "it records another identity than a container superblock's"
  refuseIf (sb.uuid != self.superblock.uuid) foreign
  refuseIf (sb.blockSize != self.superblock.blockSize
      || sb.checkpoint.descBase != self.superblock.checkpoint.descBase
      || sb.checkpoint.descBlocks != self.superblock.checkpoint.descBlocks)
    "it describes another geometry than block zero"
  refuseIf (sb.checkpoint.dataBlocks &&& checkpointAreaIsTree != 0)
    "its data area is described by a tree, which this crate does not read"
  refuseIf (len == 0 || decide (length < len) || decide (length ≤ start)
      || (start + len - 1) % length != index)
    "it is not the last block of the checkpoint it describes"
  (List.range (len - 1)).forM fun k =>
    checkMappingBlock sb.header.xid (ring.block (start + k)).slot

/-- Whether the space manager of the checkpoint `sb` ends gives each free queue the node limit of a
container of its size. One that is not found, or does not read, passes no checkpoint over.
-/
def spaceManagerLoads (self : Container) (sb : ContainerSuperblock) (ring : Ring)
    : Except String Unit :=
  let named := (List.range (sb.checkpoint.descLen - 1)).flatMap fun k =>
    (ring.block (sb.checkpoint.descIndex + k)).managers
  let found := named.find? (·.oid == sb.spaceManagerOid)
  match found.filter (·.size == managerSize sb) with
  | none => .ok ()
  | some mapping =>
      let read := (self.readEphemeral mapping Kind.spaceManager sb.header.xid).toOption.bind
        fun object => (SpaceManager.readFrom object).toOption
      match read with
      | none => .ok ()
      | some sm =>
          let given := QueueNodeLimits.of sb.blockCount sb.blockSize
          if (sm.poolNodeLimit, sm.mainNodeLimit) = (given.pool, given.main) then .ok ()
          else .error queueLimits

/-- The length of the descriptor area block zero names, which is one range, is some blocks and no
more than are read, and is inside the container.
-/
def descriptorArea (self : Container) : Except ReadError { ring : Nat // 0 < ring } :=
  let area := self.superblock.checkpoint
  let ring := self.superblock.descAreaBlocks
  let refuse := fun why =>
    Except.error (ReadError.badGeometry "the checkpoint descriptor area, in blocks," ring why)
  if (area.descBlocks ||| area.dataBlocks) &&& checkpointAreaIsTree ≠ 0 then
    .error .unsupportedCheckpoint
  else if some : 0 < ring then
    if maxDescriptorBytes < ring * self.superblock.blockSize then
      refuse "more than the 16 MiB of descriptor area this crate reads"
    else if 2 ^ 64 ≤ area.descBase + ring ∨ self.superblock.blockCount < area.descBase + ring then
      refuse "which runs past the container's last block"
    else .ok ⟨ring, some⟩
  else refuse undefined

/-- What is kept of block `index` of the ring. -/
def readRingBlock (self : Container) (index : Nat) : Except ReadError RingBlock := do
  let address := self.superblock.checkpoint.descBase + index
  return RingBlock.of address index (← self.readBlocks address self.blockSize)

/-- One pass over the ring. -/
def readRing (self : Container) (area : { ring : Nat // 0 < ring }) : Except ReadError Ring :=
  match read : (List.range area.1).mapM self.readRingBlock with
  | .error error => .error error
  | .ok blocks =>
      .ok ⟨blocks, by rw [length_of_mapM_eq_ok read, List.length_range]; exact area.2⟩

/-- Whether a container may be opened at a candidate: it is whole and its space manager loads. -/
def judge (self : Container) (ring : Ring) (candidate : Candidate) : Except String Unit := do
  self.checkpointIsWhole candidate.superblock candidate.index ring
  self.spaceManagerLoads candidate.superblock ring

/-- The descriptor area block zero names, held to the container, and the newest whole checkpoint in
it whose space manager loads: of two at one transaction the one in the lower slot.
-/
def findCheckpoint (self : Container) : Except ReadError Live := do
  let base := self.superblock.checkpoint.descBase
  let ring ← self.readRing (← self.descriptorArea)
  let candidates := (ring.blocks.filterMap RingBlock.candidate).insertionSort Candidate.NotOlder
  let taken := select (self.judge ring) base none [] candidates
  let live ← okOr taken.1 .noCheckpoint
  return ⟨base + live.index, live.superblock, live.bytes, taken.2⟩

end Container

end Ferrosys.Apfs
