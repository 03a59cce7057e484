import Ferrosys.Ext.Reader
import Ferrosys.Fat.Geometry
import Ferrosys.Library.Checked
import Ferrosys.Library.Drain
import Ferrosys.Tree

/-! Reading a FAT volume: its sectors and its clusters, the chain a file's bytes are kept in, the
node a directory entry describes, and the bytes of a regular file.
-/

namespace Ferrosys.Fat

open Checked Splice

inductive ReadError where
  | io (offset : Nat)
  | sectorOutOfRange (sector totalSectors : Nat)
  | clusterOutOfRange (cluster : Nat)
  | badChainEntry (cluster entry : Nat)
  | chainTooLong (start clusters : Nat)
  | chainTooShort (start size read : Nat)
  | directoryWithSize (index size : Nat)
  | sizeWithoutAllocation (index size : Nat)
  | walkTooLarge (limit : Nat)
  | tableMismatch (copy cluster first other : Nat)
  | tablePaddingMismatch (copy : Nat)
deriving DecidableEq

/-- How serious an error is: a length nothing reads, and padding, are matters of form, and copies
that disagree are a volume that does not agree with itself.
-/
def ReadError.severity : ReadError → Severity
  | directoryWithSize _ _ | tablePaddingMismatch _ => .cosmetic
  | tableMismatch _ _ _ _ => .integrity
  | _ => .structural

/-- Where a node's bytes are kept. -/
inductive Storage where
  | none
  | rootRegion
  | chain (start : Nat)
deriving DecidableEq

def volumeId : Nat := 0x08
def directoryAttribute : Nat := 0x10
def longNameAttributes : Nat := 0x0F
def nameEnd : UInt8 := 0x00
def nameDeleted : UInt8 := 0xE5

/-- A handle to what a directory entry points at. -/
structure Node where
  storage : Storage
  attributes : Nat
  size : Fin (2 ^ 32)
deriving DecidableEq

/-- What a 32-byte directory entry records of a node, its name and its times apart from the two
fields that decide whether it is one.
-/
structure DirEntry where
  name : Bytes
  attributes : Nat
  firstClusterHi : Nat
  firstClusterLo : Nat
  size : Fin (2 ^ 32)
deriving DecidableEq

/-- Every bit of `bits` is among the attributes. -/
def hasAttribute (attributes bits : Nat) : Bool := attributes &&& bits == bits

namespace Node

def isDir (self : Node) : Bool :=
  hasAttribute self.attributes directoryAttribute || self.storage == .rootRegion

def isVolumeLabel (self : Node) : Bool :=
  !hasAttribute self.attributes directoryAttribute && hasAttribute self.attributes volumeId

end Node

/-- The first cluster a directory entry names. The high half is no part of it on the smaller two
types.
-/
def firstCluster (entry : DirEntry) : FatType → Nat
  | .fat32 => entry.firstClusterHi * 2 ^ 16 ||| entry.firstClusterLo
  | .fat12 | .fat16 => entry.firstClusterLo

/-- The node a directory entry describes. -/
def nodeOf (entry : DirEntry) (fatType : FatType) : Node where
  storage :=
    if firstCluster entry fatType < 2 then .none else .chain (firstCluster entry fatType)
  attributes := entry.attributes
  size := entry.size

/-- The slot's entry is a name in the tree, rather than a free slot, part of a long name, or a
volume label.
-/
def DirEntry.namesNode (entry : DirEntry) : Bool :=
  entry.name.head? != some nameEnd && entry.name.head? != some nameDeleted
    && entry.attributes &&& 0x3F != longNameAttributes
    && !hasAttribute entry.attributes volumeId

/-- Record a deviation: an error where the policy makes it fatal. -/
def deviation (policy : ReadPolicy) (error : ReadError) : Except ReadError Unit :=
  if policy.isFatal error.severity then .error error else .ok ()

/-- The node of an entry that is a name in the tree, its length held against its first cluster. -/
def entryNode (policy : ReadPolicy) (fatType : FatType) (index : Nat) (entry : DirEntry)
    : Except ReadError Node := do
  let node := nodeOf entry fatType
  if node.size.val ≠ 0 ∧ node.isDir = true then
    deviation policy (.directoryWithSize index node.size)
  else if node.size.val ≠ 0 ∧ node.storage = .none then
    deviation policy (.sizeWithoutAllocation index node.size)
  else .ok ()
  return node

/-- What a walk reports a node as. -/
def treeKind (node : Node) : NodeKind :=
  if node.isDir then .directory else .file (node.size.castLE (by decide))

/-- The node an entry is read as is the one it describes, under either policy. -/
theorem entryNode_eq_ok {policy : ReadPolicy} {fatType : FatType} {index : Nat} {entry : DirEntry}
    {node : Node} (read : entryNode policy fatType index entry = .ok node)
    : node = nodeOf entry fatType := by
  simp only [entryNode] at read
  split at read
  · obtain ⟨-, -, read⟩ := bind_eq_ok.mp read
    cases read
    rfl
  · split at read
    all_goals
      obtain ⟨-, -, read⟩ := bind_eq_ok.mp read
      cases read
      rfl

/-- A name in the tree is no volume label. -/
theorem DirEntry.not_isVolumeLabel {entry : DirEntry} (names : entry.namesNode = true)
    (fatType : FatType) : (nodeOf entry fatType).isVolumeLabel = false := by
  simp only [namesNode, Bool.and_eq_true, Bool.not_eq_true'] at names
  simp only [Node.isVolumeLabel, nodeOf, names.2, Bool.and_false]

/-- A node a walk reports as a file is no directory, and its length is the reported one. -/
theorem treeKind_eq_file {node : Node} {size : Fin (2 ^ 64)} (kind : treeKind node = .file size)
    : node.isDir = false ∧ node.size.val = size.val := by
  simp only [treeKind] at kind
  split at kind
  · cases kind
  · next file =>
      cases kind
      exact ⟨Bool.eq_false_iff.mpr file, rfl⟩

namespace FatLayout

def bytesPerCluster (self : FatLayout) : Nat := self.bytesPerSector * self.sectorsPerCluster

/-- The first sector of cluster `n`, where the volume has it. Clusters number from 2. -/
def clusterStartSector (self : FatLayout) (n : Nat) : Option Nat :=
  if n < 2 ∨ n - 2 ≥ self.clusters then none
  else some (self.firstDataSector + (n - 2) * self.sectorsPerCluster)

/-- The first sector of allocation table `index`. -/
def fatStartSector (self : FatLayout) (index : Nat) : Option Nat :=
  if index ≥ self.fats then none else some (self.reservedSectors + index * self.fatSectors)

/-- The most entries one allocation table indexes. -/
def maxTableEntries (self : FatLayout) : Nat :=
  let bytes := self.fatSectors * self.bytesPerSector
  let entries :=
    match self.fatType with
    | .fat12 => bytes * 2 / 3
    | .fat16 => bytes / 2
    | .fat32 => bytes / 4
  min entries u32Max

end FatLayout

/-- Every bit an entry of the type holds. -/
def entryMask : FatType → Nat
  | .fat12 => 0xFFF
  | .fat16 => 0xFFFF
  | .fat32 => 0x0FFFFFFF

/-- The entry marks the end of a chain. -/
def isEndOfChain (fatType : FatType) (entry : Nat) : Bool := entry ≥ entryMask fatType - 7

/-- The entry names a cluster that could exist. -/
def isCluster (fatType : FatType) (entry : Nat) : Bool := entry ≥ 2 && entry < entryMask fatType - 8

/-- Where the entry for `cluster` begins within a table, in bytes. -/
def entryOffset (fatType : FatType) (cluster : Nat) : Nat :=
  match fatType with
  | .fat12 => cluster + cluster / 2
  | .fat16 => cluster * 2
  | .fat32 => cluster * 4

/-- Bytes one entry's read touches. -/
def entrySpan : FatType → Nat
  | .fat12 | .fat16 => 2
  | .fat32 => 4

/-- The entry at the start of `table`, an odd FAT12 cluster's taken from the high twelve bits of
its pair.
-/
def readEntry (fatType : FatType) (table : Bytes) (cluster : Nat) : Option Nat :=
  if entrySpan fatType ≤ table.length then
    match fatType with
    | .fat12 =>
        if cluster % 2 = 1 then some (getU16 table 0 / 2 ^ 4) else some (getU16 table 0 &&& 0xFFF)
    | .fat16 => some (getU16 table 0)
    | .fat32 => some (getU32 table 0 &&& entryMask .fat32)
  else none

/-- An open FAT volume, whose clusters hold something. -/
structure Reader where
  src : Bytes
  base : Nat
  layout : FatLayout
  activeFat : Nat
  policy : ReadPolicy
  maxFileBytes : Nat
  clustered : 0 < layout.bytesPerCluster

/-- What a reader holds of what it read last: sectors of the live table, and the place a chain was
followed to, as its start, an index, and the cluster there.
-/
structure Held where
  fatWindow : Option (Nat × Bytes)
  chainCursor : Option (Nat × Nat × Nat)
deriving DecidableEq

namespace Reader

variable (self : Reader)

/-- `count` sectors from `first`. A range the volume does not describe is refused. -/
def readSectors (first count : Nat) : Except ReadError Bytes :=
  if first + count ≤ u32Max ∧ first + count ≤ self.layout.totalSectors then
    match Ext.offsetOf self.base first self.layout.bytesPerSector with
    | none => .error (.sectorOutOfRange first self.layout.totalSectors)
    | some offset =>
        let len := count * self.layout.bytesPerSector
        if offset + len ≤ self.src.length then .ok (slice self.src offset len)
        else .error (.io offset)
  else .error (.sectorOutOfRange first self.layout.totalSectors)

/-- How many sectors a read covers to hold the whole entry at a sector of the table. -/
def tableWindowSectors (sectorInTable : Nat) : Nat :=
  if min (sectorInTable + 1) u32Max < self.layout.fatSectors then 2 else 1

/-- The table from `sector` on, read where what is held begins elsewhere or is too short. -/
def tableWindow (held : Held) (sector windowSectors : Nat) : Except ReadError (Bytes × Held) :=
  let reload := do
    let buf ← self.readSectors sector windowSectors
    return (buf, { held with fatWindow := some (sector, buf) })
  match held.fatWindow with
  | some (at_, buf) =>
      if at_ ≠ sector ∨ buf.length < windowSectors * self.layout.bytesPerSector then reload
      else .ok (buf, held)
  | none => reload

/-- The allocation table's entry for `cluster`, from the copy the volume says is live. -/
def tableEntry (held : Held) (cluster : Nat) : Except ReadError (Nat × Held) := do
  Checked.refuseIf (cluster ≥ self.layout.maxTableEntries) (.clusterOutOfRange cluster)
  let offset := entryOffset self.layout.fatType cluster
  let sectorInTable := offset / self.layout.bytesPerSector
  let within := offset % self.layout.bytesPerSector
  Checked.refuseIf (sectorInTable > u32Max) (.clusterOutOfRange cluster)
  let start ← okOr (self.layout.fatStartSector self.activeFat) (.clusterOutOfRange cluster)
  Checked.refuseIf (start + sectorInTable > u32Max) (.clusterOutOfRange cluster)
  let (buf, held) ←
    self.tableWindow held (start + sectorInTable) (self.tableWindowSectors sectorInTable)
  let entry ←
    okOr (readEntry self.layout.fatType (buf.drop within) cluster) (.clusterOutOfRange cluster)
  return (entry, held)

/-- The cluster that follows `cluster` in its chain, or none where the chain ends. -/
def nextCluster (held : Held) (cluster : Nat) : Except ReadError (Option Nat × Held) := do
  let (entry, held) ← self.tableEntry held cluster
  if isEndOfChain self.layout.fatType entry then return (none, held)
  else if isCluster self.layout.fatType entry = false then .error (.badChainEntry cluster entry)
  else if entry - 2 ≥ self.layout.clusters then .error (.clusterOutOfRange entry)
  else return (some entry, held)

/-- The cluster `left` places on from `current`, which is `at_` places along the chain at
`start`.
-/
def followChain (start : Nat)
    : (left : Nat) → (held : Held) → (at_ current : Nat) → Except ReadError (Option Nat × Held)
  | 0, held, at_, current =>
      .ok (some current, { held with chainCursor := some (start, at_, current) })
  | left + 1, held, at_, current =>
      match self.nextCluster held current with
      | .error error => .error error
      | .ok (none, held) => .ok (none, held)
      | .ok (some next, held) =>
          -- A chain longer than the volume has clusters repeats one.
          if at_ + 1 > self.layout.clusters then
            .error (.chainTooLong start self.layout.clusters)
          else followChain start left held (at_ + 1) next

/-- Where following the chain at `start` to `index` begins: the cursor, where it is on the way. -/
def cursorFor (held : Held) (start index : Nat) : Nat × Nat :=
  match held.chainCursor with
  | some (cursorStart, cursorIndex, cursorCluster) =>
      if cursorStart = start ∧ cursorIndex ≤ index then (cursorIndex, cursorCluster)
      else (0, start)
  | none => (0, start)

/-- The cluster at `index` in the chain beginning at `start`, or none where the chain is shorter
than that.
-/
def clusterAt (held : Held) (start index : Nat) : Except ReadError (Option Nat × Held) :=
  if start < 2 ∨ start - 2 ≥ self.layout.clusters then .error (.clusterOutOfRange start)
  else
    let (at_, current) := cursorFor held start index
    self.followChain start (index - at_) held at_ current

/-- The bytes of cluster `n`. -/
def readCluster (n : Nat) : Except ReadError Bytes := do
  let first ← okOr (self.layout.clusterStartSector n) (.clusterOutOfRange n)
  self.readSectors first self.layout.sectorsPerCluster

/-- The part that comes next of a window of `want` bytes from `offset`, which one cluster of the
file's chain holds.
-/
def dataPiece (start size offset want : Nat) (held : Held) (done : Nat)
    : Except ReadError (Bytes × Held) :=
  let at_ := offset + done
  let index := at_ / self.layout.bytesPerCluster
  let within := at_ % self.layout.bytesPerCluster
  match self.clusterAt held start index with
  | .error error => .error error
  | .ok (none, _) => .error (.chainTooShort start size at_)
  | .ok (some cluster, held) =>
      match self.readCluster cluster with
      | .error error => .error error
      | .ok bytes => .ok (slice bytes within (min (bytes.length - within) (want - done)), held)

/-- A cluster that was read is as long as a cluster. -/
theorem length_readCluster {n : Nat} {bytes : Bytes} (read : self.readCluster n = .ok bytes)
    : bytes.length = self.layout.bytesPerCluster := by
  obtain ⟨first, -, read⟩ := bind_eq_ok.mp read
  simp only [readSectors] at read
  split at read
  · split at read
    · cases read
    · split at read
      · next inside =>
          cases read
          rw [length_slice inside, FatLayout.bytesPerCluster, Nat.mul_comm]
      · cases read
  · cases read

/-- What a cluster gives a window is something, and no more than the window wants. -/
theorem dataPiece_pieces (start size offset want : Nat)
    : Drain.Pieces (self.dataPiece start size offset want) want := by
  intro held done bytes held' short placed
  simp only [dataPiece] at placed
  split at placed
  · cases placed
  · cases placed
  · split at placed
    · cases placed
    · next whole read =>
        have inCluster := Nat.mod_lt (offset + done) self.clustered
        have long := self.length_readCluster read
        cases placed
        rw [length_slice (by omega)]
        omega

/-- Fill a window of `len` bytes from `offset` in a regular file. A node that is no regular file,
or has no chain, holds no bytes.
-/
def readInto (node : Node) (held : Held) (offset len : Nat) : Except ReadError (Bytes × Held) :=
  if node.isDir || node.isVolumeLabel then .ok ([], held)
  else
    match node.storage with
    | .chain start =>
        if offset ≥ node.size ∨ len = 0 then .ok ([], held)
        else
          let want := min len (node.size - offset)
          Drain.fill (self.dataPiece start node.size offset want) want
            (self.dataPiece_pieces start node.size offset want) held
    | _ => .ok ([], held)

/-- A file's length is backed by clusters, or there is none to back. -/
def Allocated (node : Node) : Prop := node.storage ≠ .none ∨ node.size.val = 0

instance (node : Node) : Decidable (Allocated node) := inferInstanceAs (Decidable (_ ∨ _))

/-- A file whose length clusters back is read exactly. -/
theorem readInto_exact {node : Node} (file : node.isDir = false) (plain : node.isVolumeLabel = false)
    (allocated : Allocated node) : Drain.Exact (self.readInto node) node.size := by
  intro held offset len bytes held' read
  simp only [readInto, file, plain, Bool.or_self, Bool.false_eq_true, if_false] at read
  split at read
  · split at read
    · cases read
      simp only [List.length_nil]
      omega
    · exact Drain.length_fill _ read
  · next unchained =>
      cases read
      rcases allocated with stored | empty
      · cases kept : node.storage with
        | none => exact absurd kept stored
        | rootRegion =>
            simp only [Node.isDir, kept, beq_self_eq_true, Bool.or_true] at file
            cases file
        | chain start => exact absurd kept (unchained start)
      · simp only [List.length_nil, empty]
        omega

/-- A file with a length and no cluster is read as if it were empty. -/
theorem readInto_empty {node : Node} (bare : node.storage = .none)
    : Drain.Empty (self.readInto node) := by
  intro held offset len
  refine ⟨held, ?_⟩
  simp only [readInto, bare]
  split <;> rfl

end Reader

end Ferrosys.Fat
