import Ferrosys.Library.Checked
import Ferrosys.Library.Drain
import Ferrosys.Library.Splice
import Ferrosys.Tree

/-! The bytes of an APFS file, out of its data stream or out of the chunks of a compressed one.
How a stream's extents, a chunk table and a chunk's stored bytes are found and decoded is left
open: whatever those answer, a read that succeeds fills the whole of its window that the file
reaches.
-/

namespace Ferrosys.Apfs.Contents

open Checked Splice

def modeReg : Nat := 0o100000
def modeLnk : Nat := 0o120000
def bsdCompressed : Nat := 0x20

/-- The content one chunk of a compressed file holds. -/
def chunk : Nat := 64 * 1024

inductive ReadError where
  | volume (message : String)
  | unsupportedCompression (inode method : Nat)
  | badCompressed (inode : Nat) (fault : String)
  | malformed (inode : Nat) (detail : String)
deriving DecidableEq

/-- How a compressed file's content is stored. -/
structure Compression where
  method : Nat
  size : Fin (2 ^ 64)
deriving DecidableEq

/-- One inode of the volume. A file is compressed only where its flags say so, and only a link has
the length of a target.
-/
structure Node where
  inode : Nat
  mode : Nat
  bsdFlags : Nat
  privateId : Nat
  links : Int
  device : Option (Nat × Nat)
  stream : Option (Fin (2 ^ 64))
  compression : Option (Except ReadError Compression)
  linkSize : Option (Fin (2 ^ 64))
  linked : linkSize.isSome → mode &&& 0o170000 = modeLnk

namespace Node

def fileType (self : Node) : Nat := self.mode &&& 0o170000
def isFile (self : Node) : Bool := self.fileType == modeReg

/-- The size of the inode's content: a compressed file's uncompressed size, a link's target length,
or its data stream's.
-/
def size (self : Node) : Fin (2 ^ 64) :=
  match self.compression, self.linkSize, self.stream with
  | some (.ok compression), _, _ => compression.size
  | some (.error _), _, _ => 0
  | none, some link, _ => link
  | none, none, some stream => stream
  | none, none, none => 0

end Node

/-- A run of a stream's bytes and the block they begin at. -/
structure FileExtent where
  logical : Nat
  length : Nat
  physicalBlock : Nat
deriving DecidableEq

/-- Where a compressed file keeps its chunks. -/
inductive Layout where
  | inline
  | offsets
  | blocks
deriving DecidableEq

/-- What reading a file asks of the volume: the extents of a stream that meet a range, bytes within
blocks, where a compressed file keeps its chunks and where each chunk lies, the bytes stored
there, and what they decode to.
-/
structure Volume (σ Encoding Table : Type) where
  maxFileBytes : Nat
  lenient : Bool
  blockSize : Nat
  streamRuns : σ → (stream offset stop : Nat) → Except ReadError (List FileExtent × σ)
  readWithin : σ → (block within len : Nat) → Except ReadError (Bytes × σ)
  layout : (method : Nat) → Option (Layout × Encoding)
  available : Encoding → Bool
  chunkTable : σ → (inode : Nat) → Layout → (size : Nat) → Except ReadError (Table × σ)
  tableLayout : Table → Layout
  chunkRuns : σ → (inode : Nat) → Table → (first count : Nat)
    → Except ReadError (List (Nat × Nat) × σ)
  storedRead : σ → (inode : Nat) → Table → (start len : Nat) → Except ReadError (Bytes × σ)
  keptInline : Encoding → Bytes → Option Bytes
  decodeChunk : Encoding → Bytes → (expect : Nat) → Except String Bytes

/-- The content chunk `index` of content of `size` bytes decodes to. -/
def chunkLen (size index : Nat) : Nat :=
  let start := index * chunk
  if start ≥ size then 0 else if size - start < chunk then size - start else chunk

section

variable {σ Encoding Table : Type} (volume : Volume σ Encoding Table)

/-- Copy one extent's share of the window that begins at `offset`. -/
def placeRun (offset stop : Nat) (window : Bytes × σ) (extent : FileExtent)
    : Except ReadError (Bytes × σ) :=
  let lo := max extent.logical offset
  let hi := min (extent.logical + extent.length) stop
  if lo ≥ hi then .ok window
  else do
    let within := lo - extent.logical
    let (bytes, state) ←
      volume.readWithin window.2 (extent.physicalBlock + within / volume.blockSize)
        (within % volume.blockSize) (hi - lo)
    return (splice window.1 (lo - offset) bytes, state)

/-- Fill a window of `len` bytes from `offset` in a stream of `size` bytes, whose holes are
zeros.
-/
def readStreamInto (stream size : Nat) (state : σ) (offset len : Nat)
    : Except ReadError (Bytes × σ) :=
  if offset ≥ size ∨ len = 0 then .ok ([], state)
  else do
    let want := min len (size - offset)
    let (runs, state) ← volume.streamRuns state stream offset (offset + want)
    runs.foldlM (placeRun volume offset (offset + want)) (List.replicate want 0, state)

/-- Content kept after the header at another length than the header states, which a read past what
is refused takes cut there or followed by zeros.
-/
def keptOf (table : Table) (encoding : Encoding) (stored : Bytes) (expect : Nat)
    : Option Bytes :=
  if volume.tableLayout table = .inline then
    (volume.keptInline encoding stored).filter fun content =>
      volume.lenient && content.length != expect
  else none

/-- The content one chunk decodes to, held to the share of the content its place gives it. -/
def chunkContent (inode index : Nat) (table : Table) (encoding : Encoding) (size : Nat)
    (stored : Bytes) : Except ReadError Bytes := do
  let expect := chunkLen size index
  let content ←
    match keptOf volume table encoding stored expect with
    | some content => .ok (splice (List.replicate expect 0) 0 (content.take expect))
    | none =>
        match volume.decodeChunk encoding stored expect with
        | .ok content => .ok content
        | .error fault => .error (.badCompressed inode fault)
  refuseIf (content.length ≠ expect)
    (.badCompressed inode "a chunk decodes to another length than its place gives it")
  return content

/-- Copy one chunk's share of the window that begins at `offset`. -/
def placeChunk (inode size : Nat) (table : Table) (encoding : Encoding) (offset want : Nat)
    (window : Bytes × σ) (place : Nat × Nat × Nat) : Except ReadError (Bytes × σ) := do
  let (index, start, stop) := place
  let (stored, state) ← volume.storedRead window.2 inode table start (stop - start)
  let content ← chunkContent volume inode index table encoding size stored
  let lo := max offset (index * chunk)
  let hi := min (offset + want) (index * chunk + chunkLen size index)
  return (splice window.1 (lo - offset) (slice content (lo - index * chunk) (hi - lo)), state)

/-- Fill a window of `len` bytes from `offset` in a compressed file's content, decoding the chunks
the window meets.
-/
def readChunks (inode size : Nat) (table : Table) (encoding : Encoding) (state : σ)
    (offset len : Nat) : Except ReadError (Bytes × σ) := do
  let want := min len (size - offset)
  let first := offset / chunk
  let last := (offset + want - 1) / chunk
  let (runs, state) ← volume.chunkRuns state inode table first (last - first + 1)
  ((List.range' first (last - first + 1)).zip runs).foldlM
    (placeChunk volume inode size table encoding offset want) (List.replicate want 0, state)

/-- Fill a window of a compressed file's content. The table that finds its chunks is the one held
from the last read, which was of the same file, or is read again.
-/
def readCompressed (inode : Nat) (compression : Compression) (state : σ) (offset len : Nat)
    : Except ReadError (Bytes × σ) :=
  match (volume.layout compression.method).filter fun found => volume.available found.2 with
  | none => .error (.unsupportedCompression inode compression.method)
  | some (layout, encoding) =>
      if offset ≥ compression.size ∨ len = 0 then .ok ([], state)
      else do
        let (table, state) ← volume.chunkTable state inode layout compression.size
        readChunks volume inode compression.size table encoding state offset len

/-- Fill a window of `len` bytes from `offset` in a file. A node that is not a regular file holds
no bytes, whatever stream it records.
-/
def readInto (node : Node) (state : σ) (offset len : Nat) : Except ReadError (Bytes × σ) :=
  if node.isFile = false then .ok ([], state)
  else
    match node.compression with
    | some (.error error) => .error error
    | some (.ok compression) => readCompressed volume node.inode compression state offset len
    | none =>
        match node.stream with
        | none => .ok ([], state)
        | some size => readStreamInto volume node.privateId size state offset len

/-- What a walk reports a node as. A compressed file whose header could not be read has no size to
give, and a mode that names no kind of node is refused.
-/
def nodeKind (node : Node) : Except ReadError NodeKind :=
  let device := node.device.getD (0, 0)
  match node.fileType with
  | 0o040000 => .ok .directory
  | 0o100000 =>
      match node.compression with
      | some (.error error) => .error error
      | _ => .ok (.file node.size)
  | 0o120000 => .ok .symlink
  | 0o020000 => .ok (.charDevice device.1 device.2)
  | 0o060000 => .ok (.blockDevice device.1 device.2)
  | 0o010000 => .ok .fifo
  | 0o140000 => .ok .socket
  | _ => .error (.malformed node.inode "the mode names no file type")

/-- A node a walk reports as a file is one, and its length is the reported one. -/
theorem nodeKind_eq_file {node : Node} {size : Fin (2 ^ 64)} (kind : nodeKind node = .ok (.file size))
    : node.fileType = modeReg ∧ node.size = size := by
  simp only [nodeKind] at kind
  split at kind
  case h_2 file =>
    split at kind
    · cases kind
    · cases kind
      exact ⟨file, rfl⟩
  all_goals cases kind

/-- A stream is read exactly, whatever its extents hold. -/
theorem readStreamInto_exact (stream size : Nat)
    : Drain.Exact (readStreamInto volume stream size) size := by
  intro state offset len bytes state' read
  simp only [readStreamInto] at read
  split at read
  · cases read
    simp only [List.length_nil]
    omega
  · obtain ⟨⟨runs, found⟩, -, read⟩ := bind_eq_ok.mp read
    have kept : ∀ before extent after, before.1.length = min len (size - offset)
        → placeRun volume offset (offset + min len (size - offset)) before extent = .ok after
        → after.1.length = min len (size - offset) := by
      intro before extent after sized placed
      simp only [placeRun] at placed
      split at placed
      · cases placed
        exact sized
      · obtain ⟨⟨bytes, read⟩, -, placed⟩ := bind_eq_ok.mp placed
        cases placed
        exact (length_splice _ _ _).trans sized
    exact foldlM_invariant kept (List.length_replicate ..) read

/-- A chunk leaves the window as long as it was. -/
theorem length_placeChunk {inode size : Nat} {table : Table} {encoding : Encoding}
    {offset want : Nat} {before after : Bytes × σ} {place : Nat × Nat × Nat}
    (placed : placeChunk volume inode size table encoding offset want before place = .ok after)
    : after.1.length = before.1.length := by
  obtain ⟨⟨stored, read⟩, -, placed⟩ := bind_eq_ok.mp placed
  obtain ⟨content, -, placed⟩ := bind_eq_ok.mp placed
  cases placed
  exact length_splice _ _ _

/-- A compressed file is read exactly, whatever its chunks hold. -/
theorem readCompressed_exact (inode : Nat) (compression : Compression)
    : Drain.Exact (readCompressed volume inode compression) compression.size := by
  intro state offset len bytes state' read
  simp only [readCompressed] at read
  split at read
  · cases read
  · next layout encoding _ =>
      split at read
      · cases read
        simp only [List.length_nil]
        omega
      · obtain ⟨⟨table, held⟩, -, read⟩ := bind_eq_ok.mp read
        obtain ⟨⟨runs, found⟩, -, read⟩ := bind_eq_ok.mp read
        have kept : ∀ before place after,
            before.1.length = min len (compression.size - offset)
            → placeChunk volume inode compression.size table encoding offset
                (min len (compression.size - offset)) before place = .ok after
            → after.1.length = min len (compression.size - offset) :=
          fun _ _ _ sized placed => (length_placeChunk volume placed).trans sized
        exact foldlM_invariant kept (List.length_replicate ..) read

/-- A file a walk reports with a length is read exactly, whatever the volume holds of it. -/
theorem readInto_exact {node : Node} {size : Fin (2 ^ 64)} (kind : nodeKind node = .ok (.file size))
    : Drain.Exact (readInto volume node) size := by
  have ⟨file, sized⟩ := nodeKind_eq_file kind
  intro state offset len bytes state' read
  simp only [readInto, Node.isFile, file, beq_self_eq_true, Bool.true_eq_false, if_false] at read
  have unlinked : node.linkSize = none := by
    by_contra linked
    have link := node.linked (Option.isSome_iff_ne_none.mpr linked)
    exact absurd (file.symm.trans link) (by decide)
  simp only [Node.size, unlinked] at sized
  split at read
  · cases read
  · next compression compressed =>
      simp only [compressed] at sized
      exact sized ▸ readCompressed_exact volume _ _ _ _ _ _ _ read
  · next plain =>
      simp only [plain] at sized
      split at read
      · next bare =>
          simp only [bare] at sized
          cases read
          simp [← sized]
      · next stream kept =>
          simp only [kept] at sized
          exact sized ▸ readStreamInto_exact volume _ _ _ _ _ _ _ read

end

end Ferrosys.Apfs.Contents
