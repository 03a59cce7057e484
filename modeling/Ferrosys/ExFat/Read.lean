import Ferrosys.Ext.Reader
import Ferrosys.Library.Checked
import Ferrosys.Library.Drain
import Ferrosys.Tree

/-! Reading an exFAT volume: its sectors and clusters, a stream's consecutive run or chain, and
the bytes of a regular file, of which those past the written length read as zeros.
-/

namespace Ferrosys.ExFat

open Checked Splice

inductive ReadError where
  | io (offset : Nat)
  | badBootSector (sector volumeLength : Nat)
  | clusterOutOfRange (cluster : Nat)
  | badClusterInChain (cluster : Nat)
  | badChainEntry (cluster entry : Nat)
  | chainTooLong (start clusters : Nat)
  | streamTooShort (start declared held : Nat)
deriving DecidableEq

def firstClusterNumber : Nat := 2
def endOfChain : Nat := 0xFFFFFFFF
def badCluster : Nat := 0xFFFFFFF7
def directoryAttribute : Nat := 0x10

/-- Where a stream's bytes are: nowhere, in consecutive clusters, or along a chain. -/
inductive Storage where
  | none
  | contiguous (first : Nat)
  | chain (start : Nat)
deriving DecidableEq

def Storage.firstCluster : Storage → Option Nat
  | none => Option.none
  | contiguous first | chain first => some first

/-- A handle to what an entry set points at. -/
structure Node where
  storage : Storage
  attributes : Nat
  dataLength : Fin (2 ^ 64)
  validDataLength : Nat
deriving DecidableEq

def Node.isDir (self : Node) : Bool := self.attributes &&& directoryAttribute == directoryAttribute

/-- What a walk reports a node as. -/
def treeKind (node : Node) : NodeKind :=
  if node.isDir then .directory else .file node.dataLength

/-- Where a volume keeps its table and its clusters. A cluster is a whole number of sectors. -/
structure Layout where
  volumeLength : Nat
  bytesPerSector : Nat
  bytesPerCluster : Nat
  fatOffset : Nat
  clusterHeapOffset : Nat
  clusterCount : Nat
  clustered : 0 < bytesPerCluster
  whole : bytesPerSector ∣ bytesPerCluster

namespace Layout

variable (self : Layout)

def sectorsPerCluster : Nat := self.bytesPerCluster / self.bytesPerSector

/-- The first sector of cluster `n`, where the volume has it. -/
def clusterStartSector (n : Nat) : Option Nat :=
  if n < firstClusterNumber ∨ n - firstClusterNumber ≥ self.clusterCount then none
  else some (self.clusterHeapOffset + (n - firstClusterNumber) * self.sectorsPerCluster)

end Layout

/-- An open exFAT volume. -/
structure Reader where
  src : Bytes
  base : Nat
  layout : Layout
  maxFileBytes : Nat

/-- What a reader holds of what it read last: a sector of the table, and the place a chain was
followed to, as its start, an index, and the cluster there.
-/
structure Held where
  fatWindow : Option (Nat × Bytes)
  chainCursor : Option (Nat × Nat × Nat)
deriving DecidableEq

namespace Reader

variable (self : Reader)

/-- `count` sectors from `first`. A range the volume does not describe is refused. -/
def readSectors (first count : Nat) : Except ReadError Bytes :=
  if first + count ≤ Ext.u64Max ∧ first + count ≤ self.layout.volumeLength then
    match Ext.offsetOf self.base first self.layout.bytesPerSector with
    | none => .error (.badBootSector first self.layout.volumeLength)
    | some offset =>
        let len := count * self.layout.bytesPerSector
        if offset + len ≤ self.src.length then .ok (slice self.src offset len)
        else .error (.io offset)
  else .error (.badBootSector first self.layout.volumeLength)

/-- The bytes of cluster `n`. -/
def readCluster (n : Nat) : Except ReadError Bytes := do
  let first ← okOr (self.layout.clusterStartSector n) (.clusterOutOfRange n)
  self.readSectors first self.layout.sectorsPerCluster

/-- The table's sector `sector`, read where another is held. -/
def tableWindow (held : Held) (sector : Nat) : Except ReadError (Bytes × Held) :=
  let reload := do
    let buf ← self.readSectors sector 1
    return (buf, { held with fatWindow := some (sector, buf) })
  match held.fatWindow with
  | some (at_, buf) => if at_ ≠ sector then reload else .ok (buf, held)
  | none => reload

/-- The allocation table's entry for `cluster`. -/
def tableEntry (held : Held) (cluster : Nat) : Except ReadError (Nat × Held) := do
  refuseIf (cluster < firstClusterNumber || cluster - firstClusterNumber ≥ self.layout.clusterCount)
    (.clusterOutOfRange cluster)
  let offset := cluster * 4
  let within := offset % self.layout.bytesPerSector
  let (buf, held) ←
    self.tableWindow held (self.layout.fatOffset + offset / self.layout.bytesPerSector)
  refuseIf (within + 4 > buf.length) (.clusterOutOfRange cluster)
  return (getU32 buf within, held)

/-- The cluster that follows `cluster` in its chain, or none where the chain ends. -/
def nextCluster (held : Held) (cluster : Nat) : Except ReadError (Option Nat × Held) := do
  let (entry, held) ← self.tableEntry held cluster
  if entry = endOfChain then return (none, held)
  else if entry = badCluster then .error (.badClusterInChain entry)
  else if entry < firstClusterNumber ∨ entry - firstClusterNumber ≥ self.layout.clusterCount then
    .error (.badChainEntry cluster entry)
  else return (some entry, held)

/-- The cluster `left` places on from `current`, which is `at_` places along the chain at
`start`.
-/
def followChain (start : Nat)
    : (left : Nat) → (held : Held) → (at_ current : Nat) → Except ReadError (Option Nat × Held)
  | 0, held, at_, current =>
      .ok (some current, { held with chainCursor := some (start, at_, current) })
  | left + 1, held, at_, current =>
      match self.nextCluster held current with
      | .error error => .error error
      | .ok (none, held) => .ok (none, held)
      | .ok (some next, held) =>
          -- A chain longer than the volume has clusters repeats one.
          if at_ + 1 > self.layout.clusterCount then
            .error (.chainTooLong start self.layout.clusterCount)
          else followChain start left held (at_ + 1) next

/-- Where following the chain at `start` to `index` begins: the cursor, where it is on the way. -/
def cursorFor (held : Held) (start index : Nat) : Nat × Nat :=
  match held.chainCursor with
  | some (cursorStart, cursorIndex, cursorCluster) =>
      if cursorStart = start ∧ cursorIndex ≤ index then (cursorIndex, cursorCluster)
      else (0, start)
  | none => (0, start)

/-- The cluster at `index` in the chain beginning at `start`, or none where the chain is shorter
than that.
-/
def chainCluster (held : Held) (start index : Nat) : Except ReadError (Option Nat × Held) :=
  if start < firstClusterNumber ∨ start - firstClusterNumber ≥ self.layout.clusterCount then
    .error (.clusterOutOfRange start)
  else
    let (at_, current) := cursorFor held start index
    self.followChain start (index - at_) held at_ current

/-- The cluster holding a stream's byte `index` clusters on, or none where the stream is shorter
than that. A consecutive run that leaves the volume is refused.
-/
def streamCluster (held : Held) (storage : Storage) (index : Nat)
    : Except ReadError (Option Nat × Held) :=
  match storage with
  | .none => .ok (none, held)
  | .contiguous first =>
      let n := first + index
      if n < 2 ^ 32 ∧ firstClusterNumber ≤ n ∧ n - firstClusterNumber < self.layout.clusterCount then
        .ok (some n, held)
      else .error (.clusterOutOfRange (min n (2 ^ 32 - 1)))
  | .chain start => self.chainCluster held start index

/-- The part that comes next of a window of `want` bytes from `offset`: all that is left of it
past the written length, and what one cluster holds of it before.
-/
def dataPiece (node : Node) (offset want : Nat) (held : Held) (done : Nat)
    : Except ReadError (Bytes × Held) :=
  let at_ := offset + done
  if at_ ≥ node.validDataLength then .ok (List.replicate (want - done) 0, held)
  else
    let take := min (want - done) (node.validDataLength - at_)
    let index := at_ / self.layout.bytesPerCluster
    let within := at_ % self.layout.bytesPerCluster
    match self.streamCluster held node.storage index with
    | .error error => .error error
    | .ok (none, _) =>
        .error (.streamTooShort (node.storage.firstCluster.getD 0) node.dataLength
          (index * self.layout.bytesPerCluster))
    | .ok (some cluster, held) =>
        match self.readCluster cluster with
        | .error error => .error error
        | .ok bytes => .ok (slice bytes within (min take (bytes.length - within)), held)

/-- A cluster that was read is as long as a cluster. -/
theorem length_readCluster {n : Nat} {bytes : Bytes} (read : self.readCluster n = .ok bytes)
    : bytes.length = self.layout.bytesPerCluster := by
  obtain ⟨first, -, read⟩ := bind_eq_ok.mp read
  simp only [readSectors] at read
  split at read
  · split at read
    · cases read
    · split at read
      · next inside =>
          cases read
          rw [length_slice inside, Layout.sectorsPerCluster, Nat.div_mul_cancel self.layout.whole]
      · cases read
  · cases read

/-- What a window is given next is something, and no more than the window wants. -/
theorem dataPiece_pieces (node : Node) (offset want : Nat)
    : Drain.Pieces (self.dataPiece node offset want) want := by
  intro held done bytes held' short placed
  simp only [dataPiece] at placed
  split at placed
  · cases placed
    simp only [List.length_replicate]
    omega
  · split at placed
    · cases placed
    · cases placed
    · split at placed
      · cases placed
      · next whole read =>
          have inCluster := Nat.mod_lt (offset + done) self.layout.clustered
          have long := self.length_readCluster read
          cases placed
          rw [length_slice (by omega)]
          omega

/-- Fill a window of `len` bytes from `offset` in a regular file. A directory holds no bytes. -/
def readInto (node : Node) (held : Held) (offset len : Nat) : Except ReadError (Bytes × Held) :=
  if node.isDir then .ok ([], held)
  else if offset ≥ node.dataLength ∨ len = 0 then .ok ([], held)
  else
    let want := min len (node.dataLength - offset)
    Drain.fill (self.dataPiece node offset want) want (self.dataPiece_pieces node offset want) held

/-- A file is read exactly, whatever its allocation holds. -/
theorem readInto_exact {node : Node} (file : node.isDir = false)
    : Drain.Exact (self.readInto node) node.dataLength := by
  intro held offset len bytes held' read
  simp only [readInto, file, Bool.false_eq_true, if_false] at read
  split at read
  · cases read
    simp only [List.length_nil]
    omega
  · exact Drain.length_fill _ read

end Reader

end Ferrosys.ExFat
