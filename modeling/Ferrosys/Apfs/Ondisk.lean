import Ferrosys.Bytes
import Ferrosys.Library.Checked

/-! The structures an APFS container is made of below its trees: the header and the checksum of
every object, the container superblock, the object map's records, and the mappings of a
checkpoint's ephemeral objects.
-/

namespace Ferrosys.Apfs

open Splice Checked

inductive ParseError where
  | tooShort (structure_ : String) (need got : Nat)
  | badMagic (structure_ : String) (found : Bytes)
  | unterminated (structure_ : String)
deriving DecidableEq

/-- Hold a buffer to the bytes a structure takes. -/
def ParseError.need (structure_ : String) (need : Nat) (buf : Bytes) : Except ParseError Unit :=
  if buf.length < need then .error (.tooShort structure_ need buf.length) else .ok ()

theorem ParseError.need_eq_ok {structure_ : String} {need : Nat} {buf : Bytes} {u : Unit}
    : ParseError.need structure_ need buf = .ok u ↔ need ≤ buf.length := by
  unfold ParseError.need
  split <;> simp <;> omega

namespace Kind

-- The object types, as the low 16 bits of the type word carry them.

def containerSuperblock : Nat := 0x01
def btreeRoot : Nat := 0x02
def btreeNode : Nat := 0x03
def spaceManager : Nat := 0x05
def objectMap : Nat := 0x0B
def checkpointMap : Nat := 0x0C

end Kind

/-- How an object is found from its identifier. -/
inductive Storage where
  | virtual
  | ephemeral
  | physical
  | invalid
deriving DecidableEq

/-- The 32 bytes every object begins with. -/
structure ObjectHeader where
  checksum : Nat
  oid : Nat
  xid : Nat
  typeWord : Nat
  subtype : Nat
deriving DecidableEq

namespace ObjectHeader

def size : Nat := 32

def readFrom (buf : Bytes) : Except ParseError ObjectHeader := do
  ParseError.need "object header" size buf
  return {
    checksum := getU64 buf 0
    oid := getU64 buf 8
    xid := getU64 buf 16
    typeWord := getU32 buf 24
    subtype := getU32 buf 28
  }

def kind (self : ObjectHeader) : Nat := self.typeWord % 2 ^ 16

/-- The top two bits of the type word. -/
def storage (self : ObjectHeader) : Storage :=
  match self.typeWord / 2 ^ 30 with
  | 0 => .virtual
  | 2 => .ephemeral
  | 1 => .physical
  | _ => .invalid

/-- The type word's flags other than storage. -/
def otherFlags (self : ObjectHeader) : Nat := self.typeWord % 2 ^ 30 / 2 ^ 16 * 2 ^ 16

end ObjectHeader

/-- The modulus both running sums are kept under. -/
def modulus : Nat := 0xFFFFFFFF

/-- One addition under the modulus, of what is below it already. -/
def wrap (sum : Nat) : Nat := if modulus ≤ sum then sum - modulus else sum

/-- Both sums, over every whole word of `buf` in turn. -/
def sums : (sum sumOfSums : Nat) → Bytes → Nat × Nat
  | sum, sumOfSums, a :: b :: c :: d :: rest =>
      let sum := wrap (sum + getU32 [a, b, c, d] 0)
      sums sum (wrap (sumOfSums + sum)) rest
  | sum, sumOfSums, _ => (sum, sumOfSums)

/-- The checksum an object of these bytes carries: its own field is not covered. -/
def checksum (object : Bytes) : Nat :=
  let both := sums 0 0 (object.drop 8)
  let first := modulus - (both.1 + both.2) % modulus
  let second := modulus - (both.1 + first) % modulus
  second * 2 ^ 32 + first

/-- Whether `object`'s stored checksum is the one its bytes carry. -/
def verify (object : Bytes) : Bool :=
  decide (ObjectHeader.size ≤ object.length) && getU64 object 0 == checksum object

/-- The object with the checksum its bytes carry. -/
def seal_ (object : Bytes) : Bytes := toLeBytes64 (checksum object) ++ object.drop 8

theorem checksum_lt (object : Bytes) : checksum object < 2 ^ 64 := by
  simp only [checksum, modulus]
  omega

theorem length_seal {object : Bytes} (room : 8 ≤ object.length)
    : (seal_ object).length = object.length := by
  rw [seal_, List.length_append, List.length_drop]
  have : (toLeBytes64 (checksum object)).length = 8 := rfl
  omega

theorem drop_seal (object : Bytes) : (seal_ object).drop 8 = object.drop 8 :=
  List.drop_left' rfl

/-- A sealed object verifies. -/
theorem verify_seal {object : Bytes} (room : ObjectHeader.size ≤ object.length)
    : verify (seal_ object) = true := by
  have covered : checksum (seal_ object) = checksum object := by
    simp only [checksum, drop_seal]
  have stored : getU64 (seal_ object) 0 = checksum object := by
    rw [seal_, getU64_toLeBytes64_append, Nat.mod_eq_of_lt (checksum_lt object)]
  have length := length_seal (Nat.le_trans (by decide) room)
  simp [verify, covered, stored, length, room]

/-- Where the two checkpoint areas are, and which part of the descriptor area the newest
checkpoint uses.
-/
structure CheckpointAreas where
  descBlocks : Nat
  dataBlocks : Nat
  descBase : Nat
  descIndex : Nat
  descLen : Nat
deriving DecidableEq

/-- The high bit of an area's block count: set where the area is a tree of block ranges. -/
def checkpointAreaIsTree : Nat := 0x80000000

/-- What opening a container and reading its trees consult of its superblock. -/
structure ContainerSuperblock where
  header : ObjectHeader
  blockSize : Nat
  blockCount : Nat
  uuid : Bytes
  checkpoint : CheckpointAreas
  spaceManagerOid : Nat
deriving DecidableEq

namespace ContainerSuperblock

def size : Nat := 1408

/-- The four bytes at offset 32 of every container superblock: `NXSB`. -/
def magic : Bytes := [0x4E, 0x58, 0x53, 0x42]

def readFrom (buf : Bytes) : Except ParseError ContainerSuperblock := do
  ParseError.need "container superblock" size buf
  refuseIf (slice buf 32 4 != magic) (.badMagic "container superblock" (slice buf 32 4))
  return {
    header := ← ObjectHeader.readFrom buf
    blockSize := getU32 buf 36
    blockCount := getU64 buf 40
    uuid := slice buf 72 16
    checkpoint := {
      descBlocks := getU32 buf 104
      dataBlocks := getU32 buf 108
      descBase := getU64 buf 112
      descIndex := getU32 buf 136
      descLen := getU32 buf 140
    }
    spaceManagerOid := getU64 buf 152
  }

/-- The descriptor area's length in blocks, without its tree bit. -/
def descAreaBlocks (self : ContainerSuperblock) : Nat :=
  self.checkpoint.descBlocks % checkpointAreaIsTree

end ContainerSuperblock

/-- A mapping record's key: an identifier and the transaction its version was written in. -/
structure MapKey where
  oid : Nat
  xid : Nat
deriving DecidableEq

namespace MapKey

def size : Nat := 16

def readFrom (buf : Bytes) : Except ParseError MapKey := do
  ParseError.need "object map key" size buf
  return ⟨getU64 buf 0, getU64 buf 8⟩

/-- By identifier and then by transaction. -/
def cmp (self other : MapKey) : Ordering :=
  (compare self.oid other.oid).then (compare self.xid other.xid)

end MapKey

/-- The flag of a record that names the encryption configuration the object was last written
under.
-/
def cryptoGeneration : Nat := 0x10

/-- A mapping record's value: where that version of the object is. -/
structure MapValue where
  flags : Nat
  size : Nat
  address : Nat
deriving DecidableEq

namespace MapValue

def sizeOnDisk : Nat := 16

def readFrom (buf : Bytes) : Except ParseError MapValue := do
  ParseError.need "object map value" sizeOnDisk buf
  return ⟨getU32 buf 0, getU32 buf 4, getU64 buf 8⟩

end MapValue

/-- One ephemeral object of a checkpoint: what it is and where it is kept. -/
structure CheckpointMapping where
  typeWord : Nat
  subtype : Nat
  size : Nat
  oid : Nat
  address : Nat
deriving DecidableEq

namespace CheckpointMapping

def sizeOnDisk : Nat := 40

def readFrom (buf : Bytes) : Except ParseError CheckpointMapping := do
  ParseError.need "checkpoint mapping" sizeOnDisk buf
  return {
    typeWord := getU32 buf 0
    subtype := getU32 buf 4
    size := getU32 buf 8
    oid := getU64 buf 24
    address := getU64 buf 32
  }

def kind (self : CheckpointMapping) : Nat := self.typeWord % 2 ^ 16

end CheckpointMapping

/-- Where the first mapping of a checkpoint-mapping block begins. -/
def mappingsAt : Nat := 40

/-- The mappings of a checkpoint-mapping block, one whole block. -/
def checkpointMapReadFrom (block : Bytes) : Except ParseError (List CheckpointMapping) := do
  ParseError.need "checkpoint-mapping block" mappingsAt block
  let count := getU32 block 36
  ParseError.need "checkpoint-mapping block" (mappingsAt + count * CheckpointMapping.sizeOnDisk)
    block
  (List.range count).mapM fun i =>
    CheckpointMapping.readFrom (block.drop (mappingsAt + i * CheckpointMapping.sizeOnDisk))

/-- What the space manager says of its free queues that opening a container consults: how many nodes
the tree of the internal pool's and of the main device's may grow to.
-/
structure SpaceManager where
  poolNodeLimit : Nat
  mainNodeLimit : Nat
deriving DecidableEq

namespace SpaceManager

/-- The bytes up to the allocation zones. -/
def size : Nat := 344

/-- Where the free queues begin, and the bytes one takes. -/
def freeQueuesAt : Nat := 200
def freeQueueSize : Nat := 40

/-- Where a free queue keeps its tree's node limit. -/
def treeNodeLimitAt : Nat := 24

def readFrom (buf : Bytes) : Except ParseError SpaceManager := do
  ParseError.need "space manager" size buf
  return {
    poolNodeLimit := getU16 buf (freeQueuesAt + treeNodeLimitAt)
    mainNodeLimit := getU16 buf (freeQueuesAt + freeQueueSize + treeNodeLimitAt)
  }

end SpaceManager

end Ferrosys.Apfs
