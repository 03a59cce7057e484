import Ferrosys.Ext.Reader
import Ferrosys.Library.Checked
import Ferrosys.Library.Drain
import Ferrosys.Library.Splice
import Ferrosys.Tree

/-! The bytes of a btrfs file, placed record by record over a window that begins as zeros. How a
record is found, read off the volume and expanded is left open: whatever those answer, a read
that succeeds fills the whole of its window that the file reaches.
-/

namespace Ferrosys.Btrfs.Contents

open Checked Splice

def modeDir : Nat := 0o040000
def modeReg : Nat := 0o100000
def modeLnk : Nat := 0o120000

/-- What an inode item records of a node's kind, its length and its names. -/
structure InodeItem where
  mode : Nat
  size : Fin (2 ^ 64)
  nlink : Nat
  device : Nat × Nat
deriving DecidableEq

def InodeItem.modeType (self : InodeItem) : Nat := self.mode &&& 0o170000

/-- One inode of one subvolume. -/
structure Node where
  tree : Nat
  inode : Nat
  item : InodeItem
deriving DecidableEq

def Node.isFile (self : Node) : Bool := self.item.modeType == modeReg
def Node.isSymlink (self : Node) : Bool := self.item.modeType == modeLnk

inductive ExtentKind where
  | inline
  | regular
  | prealloc
  | unknown (kind : Nat)
deriving DecidableEq

/-- How an extent's bytes are encoded on the volume. -/
inductive Compression where
  | none
  | zlib
  | lzo
  | zstd
  | unknown (kind : Nat)
deriving DecidableEq

inductive Algorithm where
  | zlib
  | lzo
  | zstd
deriving DecidableEq

/-- What undoes an encoding, where there is one to undo: no algorithm where the format has not
defined it.
-/
def algorithm : Compression → Option (Option Algorithm)
  | .none => Option.none
  | .zlib => some (some .zlib)
  | .lzo => some (some .lzo)
  | .zstd => some (some .zstd)
  | .unknown _ => some Option.none

structure FileExtentItem where
  ramBytes : Nat
  compression : Compression
  encryption : Nat
  otherEncoding : Nat
  kind : ExtentKind
  diskBytenr : Nat
  diskNumBytes : Nat
  offset : Nat
  numBytes : Nat
deriving DecidableEq

def FileExtentItem.isHole (self : FileExtentItem) : Bool :=
  self.kind != .inline && self.diskBytenr == 0

inductive ReadError where
  | volume (message : String)
  | badExtent (tree inode at_ : Nat) (fault : String)
  | unsupportedCompression (tree inode : Nat) (compression : Compression)
  | unsupportedEncoding (tree inode encryption other : Nat)
  | malformed (inode : Nat) (detail : String)
deriving DecidableEq

def maxCompressed : Nat := 128 * 2 ^ 10

/-- What reading a file asks of the volume: the records of a file that meet a range, the bytes an
inline record holds, the bytes at an address, which algorithms this build can undo, and a stored
extent expanded.
-/
structure Volume (σ : Type) where
  maxFileBytes : Nat
  available : Algorithm → Bool
  extentRecords : σ → Node → (offset stop : Nat)
    → Except ReadError (List (Nat × FileExtentItem × Bytes) × σ)
  inlineData : FileExtentItem → Bytes → Except ReadError Bytes
  readAt : σ → (logical len : Nat) → Except ReadError (Bytes × σ)
  expand : σ → Node → (at_ : Nat) → FileExtentItem → Algorithm → Bytes → Except ReadError Bytes

section

variable {σ : Type} (volume : Volume σ) (node : Node)

/-- The algorithm that undoes a record's encoding, where there is one to undo. -/
def encodingOf (item : FileExtentItem) : Except ReadError (Option Algorithm) :=
  match algorithm item.compression with
  | none => .ok none
  | some (some algorithm) =>
      if volume.available algorithm then .ok (some algorithm)
      else .error (.unsupportedCompression node.tree node.inode item.compression)
  | some none => .error (.unsupportedCompression node.tree node.inode item.compression)

/-- A sum that stays in the 64-bit range. -/
def addOr (a b : Nat) (error : ReadError) : Except ReadError Nat :=
  if a + b ≤ Ext.u64Max then .ok (a + b) else .error error

/-- Copy what an inline record contributes to a window. -/
def placeInline (at_ : Nat) (item : FileExtentItem) (raw : Bytes) (encoding : Option Algorithm)
    (state : σ) (within into len : Nat) (out : Bytes) : Except ReadError (Bytes × σ) := do
  let stored ← volume.inlineData item raw
  match encoding with
  | some algorithm =>
      let whole ← volume.expand state node at_ item algorithm stored
      return (splice out into (slice whole within len), state)
  | none =>
      refuseIf (stored.length < item.ramBytes)
        (.badExtent node.tree node.inode at_
          "the record claims more bytes than the item holds")
      return (splice out into (slice stored within len), state)

/-- Copy what an addressed record contributes to a window: a compressed extent is undone whole,
and the run must stay inside the extent the record names.
-/
def placeAddressed (at_ : Nat) (item : FileExtentItem) (encoding : Option Algorithm)
    (state : σ) (within into len : Nat) (out : Bytes) : Except ReadError (Bytes × σ) := do
  let bad := ReadError.badExtent node.tree node.inode at_
  match encoding with
  | some algorithm =>
      refuseIf (item.diskNumBytes > maxCompressed)
        (bad "the extent stores more than this format compresses into")
      let (stored, state) ← volume.readAt state item.diskBytenr item.diskNumBytes
      let whole ← volume.expand state node at_ item algorithm stored
      let skip ← addOr item.offset within (bad "the record begins past the end of the extent it names")
      let last ← addOr skip len (bad "the record's run leaves the extent it names")
      refuseIf (last > whole.length) (bad "the record's run leaves the extent it names")
      return (splice out into (slice whole skip len), state)
  | none =>
      let skip ← addOr item.offset within (bad "the record begins past the end of the extent it names")
      let last ← addOr skip len (bad "the record's run leaves the extent it names")
      refuseIf (last > item.diskNumBytes) (bad "the record's run leaves the extent it names")
      let logical ← addOr item.diskBytenr skip
        (bad "the record's address runs past the end of the address space")
      let (bytes, state) ← volume.readAt state logical len
      return (splice out into bytes, state)

/-- Copy whatever one extent record contributes to a window that begins at `offset`. -/
def placeExtent (offset : Nat) (window : Bytes × σ) (record : Nat × FileExtentItem × Bytes)
    : Except ReadError (Bytes × σ) := do
  let (out, state) := window
  let (at_, item, raw) := record
  let bad := ReadError.badExtent node.tree node.inode at_
  let encoding ← encodingOf volume node item
  refuseIf (item.encryption != 0 || item.otherEncoding != 0)
    (.unsupportedEncoding node.tree node.inode item.encryption item.otherEncoding)
  let covers := if item.kind = .inline then item.ramBytes else item.numBytes
  let recordEnd ←
    addOr at_ covers (bad "the record's length runs past the end of the address space")
  let start := max at_ offset
  let stop := min recordEnd (offset + out.length)
  if stop ≤ start then return window
  else if item.kind = .inline then
    placeInline volume node at_ item raw encoding state (start - at_) (start - offset)
      (stop - start) out
  else if item.isHole ∨ item.kind = .prealloc then return window
  else if item.kind ≠ .regular then
    .error (bad "the record is of a shape this reader does not define")
  else
    placeAddressed volume node at_ item encoding state (start - at_) (start - offset)
      (stop - start) out

/-- Fill a window of `len` bytes from `offset` in a file. A node that is neither a file nor a
link holds no bytes.
-/
def readInto (state : σ) (offset len : Nat) : Except ReadError (Bytes × σ) :=
  if !node.isFile && !node.isSymlink then .ok ([], state)
  else if offset ≥ node.item.size ∨ len = 0 then .ok ([], state)
  else do
    let want := min len (node.item.size - offset)
    let (records, state) ← volume.extentRecords state node offset (offset + want)
    records.foldlM (placeExtent volume node offset) (List.replicate want 0, state)

/-- What a walk reports a node as, or none where its mode names no kind of node. -/
def treeKind : Option NodeKind :=
  match node.item.modeType with
  | 0o040000 => some .directory
  | 0o100000 => some (.file node.item.size)
  | 0o120000 => some .symlink
  | 0o020000 => some (.charDevice node.item.device.1 node.item.device.2)
  | 0o060000 => some (.blockDevice node.item.device.1 node.item.device.2)
  | 0o010000 => some .fifo
  | 0o140000 => some .socket
  | _ => none

/-- A node a walk reports as a file is one, and its length is the reported one. -/
theorem treeKind_eq_file {node : Node} {size : Fin (2 ^ 64)}
    (kind : treeKind node = some (.file size))
    : node.isFile = true ∧ node.item.size = size := by
  simp only [treeKind] at kind
  split at kind
  case h_2 regular =>
    cases kind
    exact ⟨beq_iff_eq.mpr regular, rfl⟩
  all_goals cases kind

/-- An inline record leaves the window as long as it was. -/
theorem length_placeInline {at_ : Nat} {item : FileExtentItem} {raw : Bytes}
    {encoding : Option Algorithm} {state : σ} {within into len : Nat} {out : Bytes}
    {after : Bytes × σ}
    (placed : placeInline volume node at_ item raw encoding state within into len out = .ok after)
    : after.1.length = out.length := by
  obtain ⟨stored, -, placed⟩ := bind_eq_ok.mp placed
  cases encoding with
  | some algorithm =>
      obtain ⟨whole, -, placed⟩ := bind_eq_ok.mp placed
      cases placed
      exact length_splice _ _ _
  | none =>
      obtain ⟨-, -, placed⟩ := bind_eq_ok.mp placed
      cases placed
      exact length_splice _ _ _

/-- An addressed record leaves the window as long as it was. -/
theorem length_placeAddressed {at_ : Nat} {item : FileExtentItem} {encoding : Option Algorithm}
    {state : σ} {within into len : Nat} {out : Bytes} {after : Bytes × σ}
    (placed : placeAddressed volume node at_ item encoding state within into len out = .ok after)
    : after.1.length = out.length := by
  simp only [placeAddressed] at placed
  cases encoding with
  | some algorithm =>
      obtain ⟨-, -, placed⟩ := bind_eq_ok.mp placed
      obtain ⟨⟨stored, read⟩, -, placed⟩ := bind_eq_ok.mp placed
      obtain ⟨whole, -, placed⟩ := bind_eq_ok.mp placed
      obtain ⟨skip, -, placed⟩ := bind_eq_ok.mp placed
      obtain ⟨last, -, placed⟩ := bind_eq_ok.mp placed
      obtain ⟨-, -, placed⟩ := bind_eq_ok.mp placed
      cases placed
      exact length_splice _ _ _
  | none =>
      obtain ⟨skip, -, placed⟩ := bind_eq_ok.mp placed
      obtain ⟨last, -, placed⟩ := bind_eq_ok.mp placed
      obtain ⟨-, -, placed⟩ := bind_eq_ok.mp placed
      obtain ⟨logical, -, placed⟩ := bind_eq_ok.mp placed
      obtain ⟨⟨bytes, read⟩, -, placed⟩ := bind_eq_ok.mp placed
      cases placed
      exact length_splice _ _ _

/-- A record leaves the window as long as it was. -/
theorem length_placeExtent {offset : Nat} {before after : Bytes × σ}
    {record : Nat × FileExtentItem × Bytes}
    (placed : placeExtent volume node offset before record = .ok after)
    : after.1.length = before.1.length := by
  obtain ⟨encoding, -, placed⟩ := bind_eq_ok.mp placed
  obtain ⟨-, -, placed⟩ := bind_eq_ok.mp placed
  obtain ⟨recordEnd, -, placed⟩ := bind_eq_ok.mp placed
  dsimp only at placed
  split at placed
  · cases placed
    rfl
  · split at placed
    · exact length_placeInline volume node placed
    · split at placed
      · cases placed
        rfl
      · split at placed
        · cases placed
        · exact length_placeAddressed volume node placed

/-- A regular file is read exactly, whatever its records hold. -/
theorem readInto_exact (file : node.isFile = true)
    : Drain.Exact (readInto volume node) node.item.size := by
  intro state offset len bytes state' read
  simp only [readInto, file, Bool.not_true, Bool.false_and, Bool.false_eq_true, if_false] at read
  split at read
  · cases read
    simp only [List.length_nil]
    omega
  · obtain ⟨⟨records, found⟩, -, read⟩ := bind_eq_ok.mp read
    have kept : ∀ before record after, before.1.length = min len (node.item.size - offset)
        → placeExtent volume node offset before record = .ok after
        → after.1.length = min len (node.item.size - offset) :=
      fun _ _ _ sized placed => (length_placeExtent volume node placed).trans sized
    exact foldlM_invariant kept (List.length_replicate ..) read

end

end Ferrosys.Btrfs.Contents
