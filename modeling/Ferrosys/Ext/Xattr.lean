import Ferrosys.Bytes
import Ferrosys.Ext.ReadError
import Ferrosys.Library.Loop
import Ferrosys.Library.Machine

/-! Extended attributes, in the form an inode holds and in the form a block of their own does: a
list of entries growing up from a header, and their values growing down from the end.
-/

namespace Ferrosys.Ext

open Splice Machine

/-- An extended attribute. -/
structure Xattr where
  name : Bytes
  value : Bytes
deriving DecidableEq

namespace Xattr

def magic : Nat := 0xEA020000
def ibodyHeaderLen : Nat := 4
def blockHeaderLen : Nat := 32
def entryHeaderLen : Nat := 16

/-- Round up to the boundary of four bytes entries and values are aligned to. -/
def align4 (n : Nat) : Nat := (n + 3) / 4 * 4

/-- The namespace prefixes with their name indices, longest first. -/
def prefixes : List (Nat × Bytes) :=
  [(2, "system.posix_acl_access".toUTF8.toList),
    (3, "system.posix_acl_default".toUTF8.toList),
    (8, "system.richacl".toUTF8.toList),
    (1, "user.".toUTF8.toList),
    (7, "system.".toUTF8.toList),
    (4, "trusted.".toUTF8.toList),
    (6, "security.".toUTF8.toList)]

/-- The indices that stand for a whole name. -/
def isWhole (index : Nat) : Bool := index == 2 || index == 3 || index == 8

/-- What is stored of a name whose index and prefix these are. -/
def stripIndexed (name : Bytes) (indexed : Nat × Bytes) : Option (Nat × Bytes) :=
  if isWhole indexed.1 then
    if name = indexed.2 then some (indexed.1, []) else none
  else
    (indexed.2.isPrefixOf? name).map fun rest => (indexed.1, rest)

/-- A full name as its index and the rest stored on disk. -/
def splitName (name : Bytes) : Nat × Bytes :=
  (prefixes.findSome? (stripIndexed name)).getD (0, name)

/-- The name stored on disk would be empty where it has to say something. -/
def hasEmptyName (name : Bytes) : Bool :=
  let (index, stored) := splitName name
  stored.isEmpty && !isWhole index

/-- The full name of an index and a stored name. -/
def joinName (index : Nat) (stored : Bytes) : Bytes :=
  match prefixes.find? fun indexed => indexed.1 == index with
  | some indexed => indexed.2 ++ stored
  | none => stored

/-- A byte of a name as its hash reads it. -/
def nameByte (signed : Bool) (byte : UInt8) : UInt32 :=
  if signed && 0x80 ≤ byte then byte.toUInt32 ||| 0xffffff00 else byte.toUInt32

/-- The hash of one attribute, over its stored name and its value padded to words. -/
def hashEntry (name value : Bytes) (signed : Bool) : UInt32 :=
  let hash : UInt32 := name.foldl
    (fun hash byte => (hash <<< 5) ^^^ (hash >>> 27) ^^^ nameByte signed byte) 0
  -- A read past the end of the value is the zero the last word is filled up with.
  (List.range ((value.length + 3) / 4)).foldl
    (fun hash i => (hash <<< 16) ^^^ (hash >>> 16) ^^^ UInt32.ofNat (getU32 value (i * 4))) hash

/-- The hash of a block, which an entry whose own is zero makes zero. -/
def blockHash (entryHashes : List UInt32) : UInt32 :=
  if entryHashes.any (· == 0) then 0
  else entryHashes.foldl (fun hash e => (hash <<< 16) ^^^ (hash >>> 16) ^^^ e) 0

/-- What an attribute's entry occupies. -/
def entryLen (x : Xattr) : Nat := align4 (entryHeaderLen + (splitName x.name).2.length)

/-- What an attribute's value occupies. -/
def valueLen (x : Xattr) : Nat := align4 x.value.length

/-- The storage a set of attributes occupies past its header, with the end of the list. -/
def packedLen (attrs : List Xattr) : Nat :=
  attrs.foldl (fun total x => total + entryLen x + valueLen x) 4

/-- The storage a block of its own needs to hold a set of attributes. -/
def blockLen (attrs : List Xattr) : Nat := blockHeaderLen + packedLen attrs

/-- The storage one attribute occupies. -/
def attrLen (x : Xattr) : Nat := entryLen x + valueLen x

/-- The order of stored attributes: by index, then the stored name's length, then the name. -/
def order (a b : Xattr) : Ordering :=
  let (ia, na) := splitName a.name
  let (ib, nb) := splitName b.name
  (compare ia ib).then ((compare na.length nb.length).then (compare na nb))

/-- Attributes in the order they are stored in. -/
def sorted (attrs : List Xattr) : List Xattr := attrs.mergeSort fun a b => (order a b).isLE

/-- What splitting a set of attributes has placed. -/
structure Split where
  inlineFree : Nat
  inlined : List Xattr
  spilled : List Xattr

/-- Place one attribute: inline where it still fits there. -/
def Split.place (self : Split) (x : Xattr) : Split :=
  if attrLen x ≤ self.inlineFree then
    { self with inlineFree := self.inlineFree - attrLen x, inlined := self.inlined ++ [x] }
  else
    { self with spilled := self.spilled ++ [x] }

/-- Attributes split between an inode's region of `regionLen` bytes and a block. -/
def splitForStorage (attrs : List Xattr) (regionLen : Nat) : List Xattr × List Xattr :=
  let split := (sorted attrs).foldl Split.place ⟨regionLen - (ibodyHeaderLen + 4), [], []⟩
  (split.inlined, split.spilled)

/-- Write one entry at `off`, and its stored name behind it. A longer name than its length has room
for panics.
-/
def writeEntry (buf : Bytes) (off nameIndex : Nat) (stored : Bytes)
    (valueSize valueOffs eHash : Nat) : Except (Fault ParseError) Bytes :=
  if 255 < stored.length then .error .panicked
  else
    let buf := putU8 buf off stored.length
    let buf := putU8 buf (off + 1) nameIndex
    let buf := putU16 buf (off + 2) valueOffs
    let buf := putU32 buf (off + 4) 0
    let buf := putU32 buf (off + 8) valueSize
    let buf := putU32 buf (off + 12) eHash
    .ok (splice buf (off + entryHeaderLen) stored)

/-- A region being filled: its bytes, where the next entry begins, and where the last value does. -/
structure Filling where
  buf : Bytes
  entryOff : Nat
  valueOff : Nat
deriving DecidableEq

/-- Store one attribute, its value's place counted from `base`. The room for the whole set is
checked before the first is stored, so the place never runs below the start.
-/
def Filling.store (base : Nat) (hash : Xattr → UInt32) (self : Filling) (x : Xattr)
    : Except (Fault ParseError) Filling := do
  let (index, stored) := splitName x.name
  let valueOff := self.valueOff - valueLen x
  let buf := splice self.buf valueOff x.value
  -- An empty value occupies nothing, and records the place zero.
  let valueOffs := if x.value.isEmpty then 0 else valueOff - base
  let buf ← writeEntry buf self.entryOff index stored x.value.length valueOffs (hash x).toNat
  return ⟨buf, self.entryOff + entryLen x, valueOff⟩

/-- The region of `regionLen` bytes an inode holds attributes in, where they fit it. -/
def encodeInline (attrs : List Xattr) (regionLen : Nat)
    : Except (Fault ParseError) (Option Bytes) := do
  if attrs.isEmpty then return some (List.replicate regionLen 0)
  let attrs := sorted attrs
  if regionLen < ibodyHeaderLen + packedLen attrs then return none
  let buf := putU32 (List.replicate regionLen 0) 0 magic
  let filling ← attrs.foldlM (Filling.store ibodyHeaderLen fun _ => 0)
    ⟨buf, ibodyHeaderLen, regionLen⟩
  return some filling.buf

/-- The hash a block's entry carries. -/
def entryHash (signed : Bool) (x : Xattr) : UInt32 := hashEntry (splitName x.name).2 x.value signed

/-- A block of attributes. A set that does not fit panics. -/
def encodeBlock (attrs : List Xattr) (blockSize : Nat) (signed : Bool)
    : Except (Fault ParseError) Bytes := do
  let attrs := sorted attrs
  if blockSize < blockLen attrs then .error .panicked
  let filling ← attrs.foldlM (Filling.store 0 (entryHash signed))
    ⟨List.replicate blockSize 0, blockHeaderLen, blockSize⟩
  if filling.valueOff < filling.entryOff + 4 then .error .panicked
  let buf := putU32 filling.buf 0 magic
  let buf := putU32 buf 4 1
  let buf := putU32 buf 8 1
  return putU32 buf 12 (blockHash (attrs.map (entryHash signed))).toNat

/-- A walk over entries: where the next one is, what the values come to, and what was read. -/
structure Parsing where
  off : Nat
  valueBytes : Nat
  out : List Xattr
deriving DecidableEq

/-- The value of the entry at `off`, with what the values come to then. -/
def readValue (buf : Bytes) (valueBase off valueBytes : Nat)
    : Except (Fault ParseError) (Bytes × Nat) := do
  let valueOffs := getU16 buf (off + 2)
  let valueSize := getU32 buf (off + 8)
  -- A value held in an inode of its own reads as empty.
  if getU32 buf (off + 4) ≠ 0 then return ([], valueBytes)
  let vstart := valueBase + valueOffs
  refuseIf (wordMax < vstart + valueSize)
    (.invalidField "XattrEntry" "e_value_size" valueSize)
  let valueBytes := min (valueBytes + valueSize) wordMax
  refuseIf (buf.length < valueBytes) (.invalidField "XattrEntry" "e_value_size" valueBytes)
  refuseIf (buf.length < vstart + valueSize)
    (.invalidField "XattrEntry" "e_value_offs" valueOffs)
  return (slice buf vstart valueSize, valueBytes)

/-- One turn: the end of the list, or one entry. -/
def parseTurn (buf : Bytes) (valueBase : Nat) (self : Parsing)
    : Except (Fault ParseError) (Loop.Next Parsing (Except (Fault ParseError) (List Xattr))) := do
  refuseIf (buf.length < self.off + entryHeaderLen)
    (.tooShort "XattrEntry" (self.off + entryHeaderLen) buf.length)
  if getU32 buf self.off = 0 then return .stop (.ok self.out)
  let nameLen := getU8 buf self.off
  let nameIndex := getU8 buf (self.off + 1)
  let nameEnd := self.off + entryHeaderLen + nameLen
  refuseIf (buf.length < nameEnd) (.tooShort "XattrName" nameEnd buf.length)
  let stored := slice buf (self.off + entryHeaderLen) nameLen
  let (value, valueBytes) ← readValue buf valueBase self.off self.valueBytes
  return .go ⟨align4 nameEnd, valueBytes, self.out ++ [⟨joinName nameIndex stored, value⟩]⟩

/-- Walk the entries from `firstEntry` on. Every turn goes sixteen bytes on, so as many turns as
there are bytes are enough.
-/
def parseEntries (buf : Bytes) (firstEntry valueBase : Nat)
    : Except (Fault ParseError) (List Xattr) :=
  (Loop.run (fun self => Loop.orStop (parseTurn buf valueBase self)) (buf.length + 1)
    ⟨firstEntry, 0, []⟩).getD (.error .panicked)

/-- The attributes an inode's region holds, none where it carries no magic. -/
def parseInline (region : Bytes) : Except (Fault ParseError) (List Xattr) :=
  if region.length < ibodyHeaderLen ∨ getU32 region 0 ≠ magic then .ok []
  else parseEntries region ibodyHeaderLen ibodyHeaderLen

/-- The attributes a block holds, none where it carries no magic. -/
def parseBlock (block : Bytes) : Except (Fault ParseError) (List Xattr) :=
  if block.length < blockHeaderLen ∨ getU32 block 0 ≠ magic then .ok []
  else parseEntries block blockHeaderLen 0

end Xattr

end Ferrosys.Ext
