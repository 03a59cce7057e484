import Ferrosys.Apfs.Node
import Ferrosys.Cache

/-! A container as the layers above read it: blocks of it, objects held to what led to them, and
where the live checkpoint keeps its ephemeral objects.
-/

namespace Ferrosys.Apfs

open Splice Checked

inductive ReadError where
  | io (kind message : String)
  | parse (error : ParseError)
  | badGeometry (field : String) (value : Nat) (why : String)
  | unsupportedCheckpoint
  | noCheckpoint
  | outOfRange (block : Nat)
  | badChecksum (object : String) (block : Nat)
  | wrongObject (block : Nat) (fault : String)
  | missingObject (oid xid : Nat)
  | badMapValue (oid flags : Nat)
  | badNode (block : Nat) (fault : NodeFault)
  | badTree (block : Nat) (fault : String)
  | tooManyEntries (limit : Nat)
deriving DecidableEq

/-- A transaction an object must record. -/
inductive Xid where
  | atMost (xid : Nat)
  | exactly (xid : Nat)
deriving DecidableEq

/-- What an object read expects of the object it reaches. -/
structure Expect where
  kinds : List Nat
  subtype : Option Nat
  storage : Storage
  oid : Nat
  xid : Xid
deriving DecidableEq

/-- What an object of the first of these types is called in an error. -/
def objectName (kinds : List Nat) : String :=
  if kinds.head? = some Kind.containerSuperblock then "container superblock"
  else if kinds.head? = some Kind.btreeRoot ∨ kinds.head? = some Kind.btreeNode then "tree node"
  else if kinds.head? = some Kind.objectMap then "object map"
  else "object"

/-- Whether an object recording `xid` is of a transaction expected. -/
def Xid.admits (self : Xid) (xid : Nat) : Bool :=
  match self with
  | .atMost newest => xid ≤ newest
  | .exactly expected => xid = expected

/-- What is wrong with an object that has this header, where something is. -/
def Expect.fault (self : Expect) (header : ObjectHeader) : Option String :=
  if header.kind ∉ self.kinds then some "an object of another type"
  else if self.subtype.any (header.subtype != ·) then some "an object of another subtype"
  else if header.storage ≠ self.storage then some "an object stored another way"
  else if header.oid ≠ self.oid then some "an object recording another identifier"
  else if header.xid = 0 ∨ self.xid.admits header.xid = false then
    some "an object from another transaction"
  else if header.otherFlags ≠ 0 then some "an object carrying flags this crate does not read"
  else none

/-- A container over a source, which ends where the caller's region of it does: what block zero or
the live superblock says of it, and how many records a walk may visit.
-/
structure Container where
  src : Bytes
  base : Nat
  superblock : ContainerSuperblock
  maxWalkEntries : Nat

/-- Where unit `index` of an image that starts at `base` is. -/
def offsetOf (base index unit : Nat) : Option Nat :=
  if base + index * unit < 2 ^ 64 then some (base + index * unit) else none

def readExactAt (src : Bytes) (offset len : Nat) : Except ReadError Bytes :=
  if offset + len ≤ src.length then .ok (slice src offset len)
  else .error (.io "UnexpectedEof" "failed to fill whole buffer")

namespace Container

def blockSize (self : Container) : Nat := self.superblock.blockSize

/-- The live transaction. -/
def xid (self : Container) : Nat := self.superblock.header.xid

/-- `len` bytes from the start of `block`, every block of them inside the container. -/
def readBlocks (self : Container) (block len : Nat) : Except ReadError Bytes := do
  let blocks := (len + self.blockSize - 1) / self.blockSize
  refuseIf (2 ^ 64 ≤ block + blocks || self.superblock.blockCount < block + blocks)
    (.outOfRange block)
  let offset ← okOr (offsetOf self.base block self.blockSize) (.outOfRange block)
  readExactAt self.src offset len

/-- The bytes of the object at `address`, verified. -/
def readVerified (self : Container) (address : Nat) (kinds : List Nat)
    : Except ReadError Bytes := do
  let bytes ← self.readBlocks address self.blockSize
  refuseIf (!verify bytes) (.badChecksum (objectName kinds) address)
  return bytes

/-- Hold an object to what is expected of it. -/
def checkObject (address : Nat) (expect : Expect) (object : Bytes) : Except ReadError Bytes := do
  let header ← (ObjectHeader.readFrom object).mapError .parse
  match expect.fault header with
  | some fault => throw (.wrongObject address fault)
  | none => return object

/-- The object at block `address`, verified and held against `expect`. -/
def readObject (self : Container) (address : Nat) (expect : Expect) : Except ReadError Bytes := do
  let object ← self.readVerified address expect.kinds
  checkObject address expect object

/-- The object at block `address`, through the objects already held. -/
def fetchObject (self : Container) (cache : BlockCache Bytes) (address : Nat) (expect : Expect)
    : Except ReadError Bytes × BlockCache Bytes :=
  let held := cache.get address
  match held.1 with
  | some object => (checkObject address expect object, held.2)
  | none =>
      match self.readVerified address expect.kinds with
      | .ok object => (checkObject address expect object, held.2.insert address object)
      | .error error => (.error error, held.2)

/-- A block inside the container reads as the bytes the source has there. -/
theorem readBlocks_of {self : Container} {block offset : Nat} {bytes : Bytes}
    (size : 0 < self.blockSize) (inside : block < self.superblock.blockCount)
    (small : block + 1 < 2 ^ 64) (at_ : offsetOf self.base block self.blockSize = some offset)
    (stored : readExactAt self.src offset self.blockSize = .ok bytes)
    : self.readBlocks block self.blockSize = .ok bytes := by
  have one : (self.blockSize + self.blockSize - 1) / self.blockSize = 1 := by
    rw [Nat.add_sub_assoc size, Nat.add_div_left _ size, Nat.div_eq_of_lt (by omega)]
  have held : refuseIf (2 ^ 64 ≤ block + 1 || self.superblock.blockCount < block + 1)
      (ReadError.outOfRange block) = .ok () := by
    rw [refuseIf_eq_ok, Bool.or_eq_false_iff, decide_eq_false_iff_not, decide_eq_false_iff_not]
    omega
  rw [readBlocks]
  simp only [one, held, ok_bind, at_, okOr, Option.elim_some, stored]

/-- A block that verifies and is what was expected is the object. -/
theorem readObject_of {self : Container} {address : Nat} {expect : Expect} {object : Bytes}
    {header : ObjectHeader} (stored : self.readBlocks address self.blockSize = .ok object)
    (covered : verify object = true) (headed : ObjectHeader.readFrom object = .ok header)
    (expected : expect.fault header = none) : self.readObject address expect = .ok object := by
  have held : refuseIf (!verify object) (ReadError.badChecksum (objectName expect.kinds) address)
      = .ok () := by
    rw [refuseIf_eq_ok, covered]
    rfl
  have verified : self.readVerified address expect.kinds = .ok object := by
    rw [readVerified, stored, ok_bind, held]
    rfl
  rw [readObject, verified, ok_bind]
  simp only [checkObject, headed, Except.mapError, ok_bind, expected]
  rfl

/-- The live checkpoint's mappings of its ephemeral objects: those of every mapping block before
its superblock in the ring, in order. A container that was opened has a ring.
-/
def checkpointMappings (self : Container) : Except ReadError (List CheckpointMapping) := do
  let areas := self.superblock.checkpoint
  let ring := self.superblock.descAreaBlocks
  let maps ← (List.range (areas.descLen - 1)).mapM fun k => do
    let block ← self.readBlocks (areas.descBase + (areas.descIndex + k) % ring) self.blockSize
    (checkpointMapReadFrom block).mapError .parse
  return maps.flatten

/-- The block the live checkpoint keeps ephemeral object `oid` at: the one mapping of it says. -/
def ephemeralAddress (self : Container) (oid : Nat) : Except ReadError Nat := do
  match (← self.checkpointMappings).filter (·.oid == oid) with
  | [] => throw (.missingObject oid self.xid)
  | first :: [] => return first.address
  | _ :: second :: _ =>
      throw (.wrongObject second.address "an identifier another mapping of the checkpoint names")

end Container

end Ferrosys.Apfs
