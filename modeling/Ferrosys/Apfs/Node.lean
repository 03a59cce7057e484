import Ferrosys.Apfs.Ondisk

/-! One B-tree node, framed: where its table, its keys and its values are, and every entry read
within them.
-/

namespace Ferrosys.Apfs

open Splice Checked

/-- Where a node's storage area begins. -/
def nodeDataStart : Nat := 56

/-- The bytes a root node's tree information takes at its end. -/
def treeInfoSize : Nat := 40

/-- The value offset a table entry carries where its key has no value. -/
def noValue : Nat := 0xFFFF

/-- The bytes an index node's value takes: the child's identifier. -/
def childPointerSize : Nat := 8

namespace NodeFlags

def root : Nat := 0x1
def leaf : Nat := 0x2
def fixedSize : Nat := 0x4

/-- Every flag a node is read carrying. -/
def understood : Nat := root ||| leaf ||| fixedSize

end NodeFlags

/-- The node fields after the object header, of which the free lists are left out. -/
structure NodeHeader where
  header : ObjectHeader
  flags : Nat
  level : Nat
  keyCount : Nat
  table : Nat × Nat
  freeSpace : Nat × Nat
deriving DecidableEq

namespace NodeHeader

def size : Nat := nodeDataStart

def readFrom (buf : Bytes) : Except ParseError NodeHeader := do
  ParseError.need "node header" size buf
  return {
    header := ← ObjectHeader.readFrom buf
    flags := getU16 buf 32
    level := getU16 buf 34
    keyCount := getU32 buf 36
    table := (getU16 buf 40, getU16 buf 42)
    freeSpace := (getU16 buf 44, getU16 buf 46)
  }

def isRoot (self : NodeHeader) : Bool := self.flags &&& NodeFlags.root != 0

def isLeaf (self : NodeHeader) : Bool := self.flags &&& NodeFlags.leaf != 0

def isFixedSize (self : NodeHeader) : Bool := self.flags &&& NodeFlags.fixedSize != 0

/-- A header that was read counts fewer than 2³² entries. -/
theorem keyCount_lt {buf : Bytes} {header : NodeHeader} (read : readFrom buf = .ok header)
    : header.keyCount < 2 ^ 32 := by
  obtain ⟨_, -, read⟩ := bind_eq_ok.mp read
  obtain ⟨object, -, read⟩ := bind_eq_ok.mp read
  obtain rfl := Except.ok.inj read
  exact getU32_lt _ _

end NodeHeader

/-- What a root node records about its whole tree that reading the tree consults. -/
structure TreeInfo where
  flags : Nat
  nodeSize : Nat
  keySize : Nat
  valueSize : Nat
deriving DecidableEq

def TreeInfo.readFrom (buf : Bytes) : Except ParseError TreeInfo := do
  ParseError.need "tree information" treeInfoSize buf
  return ⟨getU32 buf 0, getU32 buf 4, getU32 buf 8, getU32 buf 12⟩

/-- Why a node's bytes do not frame as the node they claim to be. -/
inductive NodeFault where
  | tooShort (len : Nat)
  | tableOutside (offset len : Nat)
  | tableTooSmall (count len : Nat)
  | badFixedSize (keySize valueSize : Nat)
  | varyingInFixedTree (keySize : Nat)
  | keyOutside (index offset len : Nat)
  | valueOutside (index offset len : Nat)
  | freeSpaceOutside (offset len : Nat)
  | noEntry (index count : Nat)
  | overlap (index : Nat) (part : String)
deriving DecidableEq

/-- The bytes of a node's key area and value area that no entry holds. -/
structure Unused where
  key : Nat
  value : Nat
deriving DecidableEq

/-- The sizes the entries of one tree take, zero where they vary. -/
structure EntrySizes where
  key : Nat
  value : Nat
deriving DecidableEq

/-- A run of a node's bytes. -/
structure Range where
  start : Nat
  stop : Nat
deriving DecidableEq

def Range.len (self : Range) : Nat := self.stop - self.start

/-- Bytes one table entry takes: offsets alone where the node's entries are of fixed size. -/
def entrySize (fixed : Option (Nat × Nat)) : Nat := if fixed.isSome then 4 else 8

/-- One node's bytes, framed: the table holds every entry the node counts, the keys follow it, the
values end where the node does, and none of them leaves the bytes.
-/
structure Node where
  bytes : Bytes
  header : NodeHeader
  tableStart : Nat
  keyArea : Nat
  freeStart : Nat
  valueStart : Nat
  valueEnd : Nat
  fixed : Option (Nat × Nat)
  parsed : NodeHeader.readFrom bytes = .ok header
  table_fits : tableStart + header.keyCount * entrySize fixed ≤ keyArea
  keys_fit : keyArea ≤ freeStart
  free_fits : freeStart ≤ valueStart
  values_fit : valueStart ≤ valueEnd
  fits : valueEnd ≤ bytes.length
deriving DecidableEq

namespace Node

/-- The sizes the entries of a node with this header take, where it fixes them. -/
def fixedSizes (header : NodeHeader) (sizes : EntrySizes)
    : Except NodeFault (Option (Nat × Nat)) :=
  if header.isFixedSize then
    let value := if header.isLeaf then sizes.value else childPointerSize
    let fits := fun n => n ≠ 0 ∧ n ≤ 0xFFFF
    if fits sizes.key ∧ fits value then .ok (some (sizes.key, value))
    else .error (.badFixedSize sizes.key value)
  else if sizes.key ≠ 0 then .error (.varyingInFixedTree sizes.key)
  else .ok none

/-- Where the values of a node end: before a root's tree information. -/
def valuesEnd (header : NodeHeader) (len : Nat) : Except NodeFault Nat :=
  if header.isRoot then
    if treeInfoSize ≤ len ∧ nodeDataStart ≤ len - treeInfoSize then .ok (len - treeInfoSize)
    else .error (.tooShort len)
  else .ok len

theorem valuesEnd_le {header : NodeHeader} {len end_ : Nat}
    (ends : valuesEnd header len = .ok end_) : end_ ≤ len := by
  unfold valuesEnd at ends
  split at ends
  · split at ends
    · exact Except.ok.inj ends ▸ Nat.sub_le _ _
    · cases ends
  · exact Nat.le_of_eq (Except.ok.inj ends).symm

/-- Frame `bytes`, which have this header. -/
def frameWith (bytes : Bytes) (sizes : EntrySizes) (header : NodeHeader)
    (parsed : NodeHeader.readFrom bytes = .ok header) : Except NodeFault Node :=
  match ends : valuesEnd header bytes.length with
  | .error fault => .error fault
  | .ok valueEnd =>
      let tableStart := nodeDataStart + header.table.1
      let keyArea := tableStart + header.table.2
      if keyArea ≤ valueEnd then
        let freeStart := keyArea + header.freeSpace.1
        let valueStart := freeStart + header.freeSpace.2
        if room : valueStart ≤ valueEnd then
          match fixedSizes header sizes with
          | .error fault => .error fault
          | .ok fixed =>
              if table : header.keyCount * entrySize fixed ≤ header.table.2 then
                .ok {
                  bytes, header, tableStart, keyArea, freeStart, valueStart, valueEnd, fixed,
                  parsed
                  table_fits := Nat.add_le_add_left table _
                  keys_fit := Nat.le_add_right _ _
                  free_fits := Nat.le_add_right _ _
                  values_fit := room
                  fits := valuesEnd_le ends
                }
              else .error (.tableTooSmall header.keyCount header.table.2)
        else .error (.freeSpaceOutside header.freeSpace.1 header.freeSpace.2)
      else .error (.tableOutside header.table.1 header.table.2)

/-- Frame `bytes` as a node of a tree whose entries take `sizes`. -/
def frame (bytes : Bytes) (sizes : EntrySizes) : Except NodeFault Node :=
  match parsed : NodeHeader.readFrom bytes with
  | .error _ => .error (.tooShort bytes.length)
  | .ok header => frameWith bytes sizes header parsed

/-- A framed node has the bytes it was framed from. -/
theorem frame_eq_ok {bytes : Bytes} {sizes : EntrySizes} {node : Node}
    (framed : frame bytes sizes = .ok node) : node.bytes = bytes := by
  unfold frame at framed
  split at framed
  next => cases framed
  next header parsed =>
    unfold frameWith at framed
    split at framed
    next => cases framed
    next =>
      dsimp only at framed
      split at framed
      next =>
        split at framed
        next =>
          split at framed
          next => cases framed
          next =>
            split at framed
            next =>
              obtain rfl := Except.ok.inj framed
              rfl
            next => cases framed
        next => cases framed
      next => cases framed

/-- Bytes frame as the node they have every part of. -/
theorem frame_of {sizes : EntrySizes} {node : Node}
    (ends : valuesEnd node.header node.bytes.length = .ok node.valueEnd)
    (table : node.tableStart = nodeDataStart + node.header.table.1)
    (keys : node.keyArea = node.tableStart + node.header.table.2)
    (free : node.freeStart = node.keyArea + node.header.freeSpace.1)
    (values : node.valueStart = node.freeStart + node.header.freeSpace.2)
    (fixed : fixedSizes node.header sizes = .ok node.fixed)
    : frame node.bytes sizes = .ok node := by
  have parsed := node.parsed
  have table_fits := node.table_fits
  have keys_fit := node.keys_fit
  have free_fits := node.free_fits
  have values_fit := node.values_fit
  have same (header : NodeHeader) (read : NodeHeader.readFrom node.bytes = .ok header)
      : header = node.header := Except.ok.inj (read.symm.trans parsed)
  unfold frame
  split
  next error read =>
    rw [read] at parsed
    cases parsed
  next header read =>
    obtain rfl := same header read
    unfold frameWith
    split
    next fault ended =>
      rw [ended] at ends
      cases ends
    next valueEnd ended =>
      obtain rfl := Except.ok.inj (ended.symm.trans ends)
      dsimp only
      rw [if_pos (by omega), dif_pos (by omega)]
      split
      next fault sized =>
        rw [sized] at fixed
        cases fixed
      next fixed_ sized =>
        obtain rfl := Except.ok.inj (sized.symm.trans fixed)
        rw [dif_pos (by omega)]
        simp only [← table, ← keys, ← free, ← values]

/-- Entries in the node. -/
def len (self : Node) : Nat := self.header.keyCount

def isEmpty (self : Node) : Bool := self.header.keyCount == 0

/-- A node counts fewer than 2³² entries. -/
theorem len_lt (self : Node) : self.len < 2 ^ 32 := NodeHeader.keyCount_lt self.parsed

/-- The key's offset and length and the value's, as the table gives them. -/
def tableEntry (self : Node) (i : Nat) : (Nat × Nat) × (Nat × Nat) :=
  match self.fixed with
  | some (keyLen, valueLen) =>
      let at_ := self.tableStart + 4 * i
      ((getU16 self.bytes at_, keyLen), (getU16 self.bytes (at_ + 2), valueLen))
  | none =>
      let at_ := self.tableStart + 8 * i
      ((getU16 self.bytes at_, getU16 self.bytes (at_ + 2)),
        (getU16 self.bytes (at_ + 4), getU16 self.bytes (at_ + 6)))

/-- Where entry `index`'s key and value are in the node's bytes. -/
def locate (self : Node) (index : Nat) : Except NodeFault (Range × Option Range) := do
  refuseIf (self.header.keyCount ≤ index) (.noEntry index self.header.keyCount)
  let entry := self.tableEntry index
  let keyStart := self.keyArea + entry.1.1
  let keyEnd := keyStart + entry.1.2
  refuseIf (self.freeStart < keyEnd) (.keyOutside index entry.1.1 entry.1.2)
  if entry.2.1 = noValue then return (⟨keyStart, keyEnd⟩, none)
  let outside := NodeFault.valueOutside index entry.2.1 entry.2.2
  refuseIf (self.valueEnd < entry.2.1 || self.valueEnd - entry.2.1 < self.valueStart) outside
  let valueStart := self.valueEnd - entry.2.1
  let valueEnd := valueStart + entry.2.2
  refuseIf (self.valueEnd < valueEnd) outside
  return (⟨keyStart, keyEnd⟩, some ⟨valueStart, valueEnd⟩)

/-- The bytes of a range of the node. -/
def read (self : Node) (range : Range) : Bytes := slice self.bytes range.start range.len

/-- Entry `index`: its key, and its value where the key has one. -/
def entry (self : Node) (index : Nat) : Except NodeFault (Bytes × Option Bytes) := do
  let located ← self.locate index
  return (self.read located.1, located.2.map self.read)

/-- Take the bytes of a range for one entry's key or value, where no other entry has any of them. -/
def claim (taken : List Nat) (range : Range) (index : Nat) (part : String)
    : Except NodeFault (List Nat) :=
  let bytes := List.range' range.start range.len
  if bytes.any taken.contains then .error (.overlap index part) else .ok (bytes ++ taken)

/-- Place entry `index` among those before it. -/
def place (self : Node) (state : List Nat × Unused) (index : Nat)
    : Except NodeFault (List Nat × Unused) := do
  let located ← self.locate index
  let taken ← claim state.1 located.1 index "key"
  let held := { state.2 with key := state.2.key + located.1.len }
  match located.2 with
  | none => return (taken, held)
  | some value =>
      let taken ← claim taken value index "value"
      return (taken, { held with value := held.value + value.len })

/-- Place every entry, and say how many bytes of each area no entry holds. -/
def checkLayout (self : Node) : Except NodeFault Unused := do
  let placed ← (List.range self.header.keyCount).foldlM self.place ([], ⟨0, 0⟩)
  return {
    key := self.freeStart - self.keyArea - placed.2.key
    value := self.valueEnd - self.valueStart - placed.2.value
  }

/-- Whether every byte a read of entry `index` looks at is one of the node's: those of its table
entry, its key and its value.
-/
def Inside (self : Node) (index : Nat) : Prop :=
  self.tableStart + (index + 1) * entrySize self.fixed ≤ self.bytes.length
  ∧ ∀ located, self.locate index = .ok located →
    located.1.stop ≤ self.bytes.length ∧ ∀ value ∈ located.2, value.stop ≤ self.bytes.length

/-- No entry is read outside its node. -/
theorem inside (self : Node) {index : Nat} (counted : index < self.len) : self.Inside index := by
  have values := self.fits
  have free := self.values_fit
  have keys := self.free_fits
  have table := self.keys_fit
  constructor
  · have entries : (index + 1) * entrySize self.fixed ≤ self.len * entrySize self.fixed :=
      Nat.mul_le_mul_right _ counted
    have := self.table_fits
    rw [len] at entries
    omega
  · intro located found
    obtain ⟨_, -, found⟩ := bind_eq_ok.mp found
    obtain ⟨_, key, found⟩ := bind_eq_ok.mp found
    rw [refuseIf_eq_ok, decide_eq_false_iff_not] at key
    split at found
    next =>
      obtain rfl := Except.ok.inj found
      exact ⟨by dsimp only; omega, nofun⟩
    next =>
      obtain ⟨_, -, found⟩ := bind_eq_ok.mp found
      obtain ⟨_, value, found⟩ := bind_eq_ok.mp found
      rw [refuseIf_eq_ok, decide_eq_false_iff_not] at value
      obtain rfl := Except.ok.inj found
      refine ⟨by dsimp only; omega, ?_⟩
      rintro _ ⟨⟩
      dsimp only
      omega

/-- Whether no read of an entry leaves the node: one it counts is inside it, and no other is read. -/
def Bounded (self : Node) : Prop :=
  ∀ index, (index < self.len → self.Inside index)
    ∧ (self.len ≤ index → self.locate index = .error (.noEntry index self.len))

/-- Every node that frames is read within its bytes. -/
theorem bounded (self : Node) : self.Bounded := by
  intro index
  refine ⟨self.inside, fun past => ?_⟩
  have past : self.header.keyCount ≤ index := past
  simp only [locate, refuseIf, past, decide_true, if_true]
  rfl

/-- An entry is one the node counts. -/
theorem lt_of_entry {self : Node} {index : Nat} {found : Bytes × Option Bytes}
    (read : self.entry index = .ok found) : index < self.len := by
  obtain ⟨located, placed, -⟩ := bind_eq_ok.mp read
  obtain ⟨_, counted, -⟩ := bind_eq_ok.mp placed
  rw [refuseIf_eq_ok, decide_eq_false_iff_not] at counted
  exact Nat.lt_of_not_le counted

end Node

/-- The child identifier an index entry's value holds. -/
def childOid (value : Bytes) : Except ParseError Nat := do
  ParseError.need "index value" childPointerSize value
  return getU64 value 0

end Ferrosys.Apfs
