import Ferrosys.Btrfs.Feature
import Ferrosys.Btrfs.Ondisk
import Ferrosys.Cache
import Ferrosys.Ext.ReadError
import Ferrosys.Library.Checked

/-! A btrfs image as the layer below a filesystem view reads it: the map from logical addresses
to the device, the blocks of its trees, and the checks on the way to one.
-/

namespace Ferrosys.Btrfs

open Splice Checked

inductive ReadError where
  | io (kind message : String)
  | parse (error : ParseError)
  | badChecksum (object : String) (at_ : Nat)
  | unmappedLogical (logical len : Nat)
  | wrongGeneration (logical generation expected : Nat)
  | badTreeBlock (logical : Nat) (fault : String)
  | badItem (logical index : Nat) (fault : String)
  | treeCycle (logical : Nat)
  | badTreeLevel (logical level parent : Nat)
  | tooManyEntries (objectid limit : Nat)
deriving DecidableEq

/-- Whether another copy of the block may be read where this one failed so. -/
def ReadError.isCopyFault : ReadError → Bool
  | .badChecksum .. | .badTreeBlock .. | .wrongGeneration .. => true
  | _ => false

/-- A run of logical space, what it holds, and where its copies begin on the device: at least
one.
-/
structure MappedChunk where
  logical : Nat
  length : Nat
  flags : FlagWord
  copies : List Nat
  copies_ne_nil : copies ≠ []
deriving DecidableEq

def MappedChunk.logicalEnd (self : MappedChunk) : Nat := self.logical + self.length

/-- The chunks of a device, by logical address and apart. -/
structure ChunkMap where
  chunks : List MappedChunk
  apart : chunks.Pairwise fun a b => a.logicalEnd ≤ b.logical

namespace ChunkMap

/-- The chunk covering `logical`. -/
def chunkAt (self : ChunkMap) (logical : Nat) : Option MappedChunk :=
  let at_ := (self.chunks.takeWhile (·.logical ≤ logical)).length
  if at_ = 0 then none
  else self.chunks[at_ - 1]?.filter (logical < ·.logicalEnd)

/-- Where on the device every copy of a run begins, the whole of which is in one chunk. -/
def copiesOf (self : ChunkMap) (logical len : Nat) : Except ReadError (List Nat) :=
  match self.chunkAt logical with
  | none => .error (.unmappedLogical logical len)
  | some chunk =>
      if logical - chunk.logical + len < 2 ^ 64 ∧ logical - chunk.logical + len ≤ chunk.length then
        .ok (chunk.copies.map (· + (logical - chunk.logical)))
      else .error (.unmappedLogical logical len)

end ChunkMap

/-- One tree block, held whole. -/
structure TreeBlock where
  header : Header
  bytes : Bytes
  parsed : Header.readFrom bytes = .ok header
deriving DecidableEq

/-- The block these bytes are. -/
def TreeBlock.parse (bytes : Bytes) : Except ReadError TreeBlock :=
  match parsed : Header.readFrom bytes with
  | .error error => .error (.parse error)
  | .ok header => .ok ⟨header, bytes, parsed⟩

theorem TreeBlock.parse_of_readFrom {bytes : Bytes} {header : Header}
    (read : Header.readFrom bytes = .ok header)
    : TreeBlock.parse bytes = .ok ⟨header, bytes, read⟩ := by
  unfold TreeBlock.parse
  split
  next error failed => cases failed.symm.trans read
  next other parsed =>
    obtain rfl := Except.ok.inj (parsed.symm.trans read)
    rfl

/-- Where a tree begins, and which tree it is. -/
structure TreeRoot where
  objectid : Nat
  bytenr : Nat
  level : Nat
  generation : Nat
deriving DecidableEq

/-- An opened image: its bytes, what of its superblock a read of a block consults, and its
chunks.
-/
structure Volume where
  src : Bytes
  base : Nat
  policy : ReadPolicy
  maxWalkEntries : Nat
  nodesize : Nat
  csumType : Nat
  metadataId : Bytes
  chunks : ChunkMap

/-- Where byte `within` of an image that starts at `base` is. -/
def offsetOf (base within : Nat) : Option Nat :=
  if base + within < 2 ^ 64 then some (base + within) else none

def readExactAt (src : Bytes) (offset len : Nat) : Except ReadError Bytes :=
  if offset + len ≤ src.length then .ok (slice src offset len)
  else .error (.io "UnexpectedEof" "failed to fill whole buffer")

namespace Volume

/-- One copy of the tree block at `logical`, checked. -/
def readCopy (self : Volume) (logical physical len : Nat) (generation : Option Nat)
    : Except ReadError TreeBlock := do
  let offset ← okOr (offsetOf self.base physical) (.unmappedLogical logical len)
  let bytes ← readExactAt self.src offset len
  refuseIf (!checksumHolds bytes self.csumType) (.badChecksum "tree block" logical)
  let block ← TreeBlock.parse bytes
  refuseIf (block.header.bytenr != logical)
    (.badTreeBlock logical "the block records another logical address as its own")
  refuseIf (block.header.fsid != self.metadataId)
    (.badTreeBlock logical "the block belongs to another filesystem")
  refuseIf (maxLevel < block.header.level)
    (.badTreeBlock logical "the block is at a height the format does not define")
  refuseIf (generation.any (block.header.generation != ·))
    (.wrongGeneration logical block.header.generation (generation.getD 0))
  return block

/-- The first of `copies` that passes its checks. A lenient read takes the next where one does
not, and answers what the first failed where none does: a mapped run has at least one.
-/
def readCopies (self : Volume) (logical : Nat) (generation : Option Nat)
    : (copies : List Nat) → (first : Option ReadError) → Except ReadError TreeBlock
  | [], first => .error (first.getD (.unmappedLogical logical self.nodesize))
  | physical :: rest, first =>
      match self.readCopy logical physical self.nodesize generation with
      | .ok block => .ok block
      | .error fault =>
          if fault.isCopyFault && self.policy == .lenient then
            self.readCopies logical generation rest (first.or (some fault))
          else .error (first.getD fault)

/-- The tree block at `logical`, read from the device. -/
def readThrough (self : Volume) (logical : Nat) (generation : Option Nat)
    : Except ReadError TreeBlock := do
  let copies ← self.chunks.copiesOf logical self.nodesize
  self.readCopies logical generation copies none

/-- The tree block at `logical`, through the blocks already held: one answers where it is from
the generation asked for.
-/
def fetch (self : Volume) (cache : BlockCache TreeBlock) (logical : Nat)
    (generation : Option Nat) : Except ReadError TreeBlock × BlockCache TreeBlock :=
  let held := cache.get logical
  match held.1.filter fun block => generation.all (block.header.generation == ·) with
  | some block => (.ok block, held.2)
  | none =>
      match self.readThrough logical generation with
      | .ok block => (.ok block, held.2.insert logical block)
      | .error error => (.error error, held.2)

/-- The tree block at `logical` as a tree reaches it: from the transaction that what led there
records.
-/
def readTreeBlock (self : Volume) (logical generation : Nat) : Except ReadError TreeBlock :=
  self.readThrough logical (some generation)

/-- A copy that passes its checks is the block asked for, and passes them from the transaction it
records.
-/
theorem readCopy_eq_ok {self : Volume} {logical physical len : Nat} {generation : Option Nat}
    {block : TreeBlock} (read : self.readCopy logical physical len generation = .ok block)
    : block.header.bytenr = logical ∧ block.bytes.length = len
      ∧ (∀ expected ∈ generation, block.header.generation = expected)
      ∧ self.readCopy logical physical len (some block.header.generation) = .ok block := by
  unfold readCopy at read ⊢
  obtain ⟨offset, reached, read⟩ := bind_eq_ok.mp read
  obtain ⟨bytes, held, read⟩ := bind_eq_ok.mp read
  obtain ⟨_, covered, read⟩ := bind_eq_ok.mp read
  obtain ⟨other, parsed, read⟩ := bind_eq_ok.mp read
  obtain ⟨_, address, read⟩ := bind_eq_ok.mp read
  obtain ⟨_, filesystem, read⟩ := bind_eq_ok.mp read
  obtain ⟨_, height, read⟩ := bind_eq_ok.mp read
  obtain ⟨_, written, read⟩ := bind_eq_ok.mp read
  obtain rfl := Except.ok.inj read
  have whole : other.bytes = bytes := by
    unfold TreeBlock.parse at parsed
    split at parsed
    · cases parsed
    · obtain rfl := Except.ok.inj parsed
      rfl
  refine ⟨by simpa using address, ?_, ?_, ?_⟩
  · unfold readExactAt at held
    split at held
    next inside =>
      rw [whole, ← Except.ok.inj held, length_slice inside]
    next => cases held
  · rintro expected ⟨⟩
    simpa using written
  · rw [reached, ok_bind, held, ok_bind, covered, ok_bind, parsed, ok_bind, address, ok_bind,
      filesystem, ok_bind, height, ok_bind]
    simp [refuseIf, bind, Except.bind, pure, Except.pure]

/-- A copy that is the block asked for passes its checks. -/
theorem readCopy_of {self : Volume} {logical physical len offset : Nat} {generation : Option Nat}
    {bytes : Bytes} {block : TreeBlock} (reached : offsetOf self.base physical = some offset)
    (held : readExactAt self.src offset len = .ok bytes)
    (covered : checksumHolds bytes self.csumType = true)
    (parsed : TreeBlock.parse bytes = .ok block) (address : block.header.bytenr = logical)
    (filesystem : block.header.fsid = self.metadataId) (height : block.header.level ≤ maxLevel)
    (written : ∀ expected ∈ generation, block.header.generation = expected)
    : self.readCopy logical physical len generation = .ok block := by
  have any : generation.any (block.header.generation != ·) = false := by
    cases generation with
    | none => rfl
    | some expected => simpa using written expected rfl
  simp [readCopy, reached, okOr, held, covered, parsed, address, filesystem, any, refuseIf,
    Nat.not_lt.mpr height, bind, Except.bind, pure, Except.pure]

/-- The transaction is checked last. -/
theorem readCopy_eq (self : Volume) (logical physical len : Nat) (generation : Option Nat)
    : self.readCopy logical physical len generation
      = self.readCopy logical physical len none >>= fun block => do
          refuseIf (generation.any (block.header.generation != ·))
            (.wrongGeneration logical block.header.generation (generation.getD 0))
          return block := by
  simp [readCopy, refuseIf]
  rfl

/-- What a read of the copies answers is from the transaction asked for, and is what a read from
the transaction it records answers: a copy that failed before it fails so either way. By induction
on the copies.
-/
theorem readCopies_eq_ok {self : Volume} {logical : Nat} {generation : Option Nat}
    {copies : List Nat} {first : Option ReadError} {block : TreeBlock}
    (read : self.readCopies logical generation copies first = .ok block)
    : block.header.bytenr = logical ∧ block.bytes.length = self.nodesize
      ∧ (∀ expected ∈ generation, block.header.generation = expected)
      ∧ self.readCopies logical (some block.header.generation) copies first = .ok block := by
  induction copies generalizing first with
  | nil => cases read
  | cons physical rest ih =>
      rw [readCopies] at read ⊢
      cases answered : self.readCopy logical physical self.nodesize generation with
      | ok other =>
          rw [answered] at read
          obtain rfl := Except.ok.inj read
          obtain ⟨address, length, written, again⟩ := readCopy_eq_ok answered
          exact ⟨address, length, written, by rw [again]⟩
      | error fault =>
          simp only [answered] at read
          split at read
          next lenient =>
            obtain ⟨address, length, written, again⟩ := ih read
            refine ⟨address, length, written, ?_⟩
            have failed : self.readCopy logical physical self.nodesize
                (some block.header.generation) = .error fault := by
              cases generation with
              | none => rw [readCopy_eq, answered]; rfl
              | some expected => rw [written expected rfl, answered]
            simp only [failed, if_pos lenient]
            exact again
          next => cases read

/-- What a block read from the device says of itself. -/
theorem readThrough_eq_ok {self : Volume} {logical : Nat} {generation : Option Nat}
    {block : TreeBlock} (read : self.readThrough logical generation = .ok block)
    : block.header.bytenr = logical ∧ block.bytes.length = self.nodesize
      ∧ (∀ expected ∈ generation, block.header.generation = expected)
      ∧ self.readTreeBlock logical block.header.generation = .ok block := by
  obtain ⟨copies, mapped, read⟩ := bind_eq_ok.mp read
  obtain ⟨address, length, written, again⟩ := readCopies_eq_ok read
  refine ⟨address, length, written, ?_⟩
  rw [readTreeBlock, readThrough, mapped, ok_bind, again]

/-- Every block held is what a read of its address answers from the transaction it records. -/
def Holds (self : Volume) (cache : BlockCache TreeBlock) : Prop :=
  cache.Holds fun logical block => self.readTreeBlock logical block.header.generation = .ok block

/-- The blocks held make no difference to a tree: a block is what the device has at its address
from the transaction asked for, and stays so whatever was read before.
-/
theorem fetch_eq_readTreeBlock {self : Volume} {cache : BlockCache TreeBlock}
    (holds : self.Holds cache) (logical : Nat) (generation : Option Nat)
    : self.Holds (self.fetch cache logical generation).2
      ∧ ∀ expected ∈ generation,
        (self.fetch cache logical generation).1 = self.readTreeBlock logical expected := by
  obtain ⟨kept, answers⟩ := BlockCache.Holds.get holds logical
  simp only [fetch]
  split
  next block held =>
    obtain ⟨found, same⟩ := Option.filter_eq_some_iff.mp held
    refine ⟨kept, ?_⟩
    rintro expected ⟨⟩
    have written : block.header.generation = expected := by simpa using same
    rw [← written, answers block found]
  next =>
    cases read : self.readThrough logical generation with
    | ok block =>
        obtain ⟨-, -, -, again⟩ := readThrough_eq_ok read
        refine ⟨kept.insert again, ?_⟩
        rintro expected ⟨⟩
        exact read.symm
    | error error =>
        refine ⟨kept, ?_⟩
        rintro expected ⟨⟩
        exact read.symm

end Volume

end Ferrosys.Btrfs
