import Ferrosys.Btrfs.Volume
import Mathlib.Data.List.Chain

/-! The entries of a tree block, read within the room the block has, and the checks over all of
them: that a leaf's data is packed and that a block's keys stand in order and in place.
-/

namespace Ferrosys.Btrfs.TreeBlock

open Splice Checked

/-- How many entries the block has room for. -/
def room (self : TreeBlock) : Nat :=
  let each := if self.header.isLeaf then Item.sizeOnDisk else KeyPtr.size
  (self.bytes.length - Header.size) / each

/-- How many entries the block claims, held to what it has room for. -/
def count (self : TreeBlock) : Except ReadError Nat :=
  if self.room < self.header.nritems then
    .error (.badTreeBlock self.header.bytenr "the block claims more entries than it has room for")
  else .ok self.header.nritems

/-- The child pointer at `index` of a node. -/
def keyPtr (self : TreeBlock) (index : Nat) : Except ReadError KeyPtr := do
  refuseIf self.header.isLeaf
    (.badTreeBlock self.header.bytenr "a leaf holds items rather than child pointers")
  refuseIf ((← self.count) ≤ index)
    (.badTreeBlock self.header.bytenr "a child pointer past the block's own count")
  (KeyPtr.readFrom (self.bytes.drop (Header.size + index * KeyPtr.size))).mapError .parse

/-- The item at `index` of a leaf. -/
def item (self : TreeBlock) (index : Nat) : Except ReadError Item := do
  refuseIf (!self.header.isLeaf)
    (.badTreeBlock self.header.bytenr "an internal node holds child pointers rather than items")
  refuseIf ((← self.count) ≤ index)
    (.badTreeBlock self.header.bytenr "an item past the block's own count")
  (Item.readFrom (self.bytes.drop (Header.size + index * Item.sizeOnDisk))).mapError .parse

/-- Whether a leaf's data is one run up to the end of the block, each item's ending where the one
before it begins.
-/
def checkLeafPacking (self : TreeBlock) : Except ReadError Unit :=
  if !self.header.isLeaf then .ok ()
  else do
    let count ← self.count
    let _ ← (List.range count).foldlM (fun abuts index => do
      let item ← self.item index
      refuseIf (item.offset + item.size != abuts)
        (.badItem self.header.bytenr index
          "the item's data does not end where the item before it begins")
      return item.offset) (self.bytes.length - Header.size)
    return ()

/-- The key of entry `index`, whichever the block holds. -/
def keyAt (self : TreeBlock) (index : Nat) : Except ReadError DiskKey :=
  if self.header.isLeaf then do return (← self.item index).key
  else do return (← self.keyPtr index).key

/-- Whether the first of `count` keys is another than the one the block's parent records. -/
def firstDiffers (self : TreeBlock) (first : Option DiskKey) (count : Nat)
    : Except ReadError Bool :=
  match first with
  | none => .ok false
  | some first => if count = 0 then .ok true else do return (← self.keyAt 0) != first

/-- Hold the block's keys against each other, its first against `first` and its last against
`below`.
-/
def checkKeys (self : TreeBlock) (first below : Option DiskKey) : Except ReadError Unit := do
  let logical := self.header.bytenr
  let count ← self.count
  let previous ← (List.range count).foldlM (fun (previous : Option DiskKey) index => do
    let key ← self.keyAt index
    refuseIf (previous.any fun last => key ≤ last)
      (.badTreeBlock logical "a key is not above the one before it")
    return some key) none
  refuseIf (← self.firstDiffers first count)
    (.badTreeBlock logical "the block's first key is not the key its parent records for it")
  refuseIf (previous.any fun last => below.any fun below => below ≤ last)
    (.badTreeBlock logical
      "the block holds a key at or above the key its parent records for the block after it")

/-- The bytes of the item at `index`, past the array describing it and within the block. -/
def itemData (self : TreeBlock) (index : Nat) : Except ReadError Bytes := do
  let count ← self.count
  let item ← self.item index
  let arrayEnd := Header.size + count * Item.sizeOnDisk
  let start := Header.size + item.offset
  let end_ := start + item.size
  refuseIf (start < arrayEnd)
    (.badItem self.header.bytenr index "the item's data begins inside the array describing it")
  refuseIf (self.bytes.length < end_)
    (.badItem self.header.bytenr index "the item's data runs past the end of the block")
  return slice self.bytes start (end_ - start)

/-- The key of an entry that reads. -/
def keyOf (self : TreeBlock) (index : Nat) : DiskKey :=
  match self.keyAt index with
  | .ok key => key
  | .error _ => DiskKey.min

/-- The keys of a block whose entries read. -/
def keys (self : TreeBlock) : List DiskKey := (List.range self.header.nritems).map self.keyOf

theorem keyOf_eq {self : TreeBlock} {index : Nat} {key : DiskKey}
    (read : self.keyAt index = .ok key) : self.keyOf index = key := by
  rw [keyOf, read]

/-- A count that holds is the one claimed. -/
theorem count_eq_ok {self : TreeBlock} {count : Nat} (counted : self.count = .ok count)
    : count = self.header.nritems := by
  unfold TreeBlock.count at counted
  split at counted
  · cases counted
  · exact (Except.ok.inj counted).symm

/-- Keys read one after another are each above the one before, and the last is what is remembered.
By induction on the entries left.
-/
theorem keys_in_order {self : TreeBlock} {logical : Nat} {fault : String} (indices : List Nat)
    {previous last : Option DiskKey}
    (checked : indices.foldlM (fun (previous : Option DiskKey) index => do
      let key ← self.keyAt index
      refuseIf (previous.any fun last => key ≤ last) (ReadError.badTreeBlock logical fault)
      return some key) previous = .ok last)
    : (∀ index ∈ indices, self.keyAt index = .ok (self.keyOf index))
      ∧ (previous.toList ++ indices.map self.keyOf).IsChain (· < ·)
      ∧ last = ((indices.map self.keyOf).getLast?).or previous := by
  induction indices generalizing previous with
  | nil =>
      obtain rfl := Except.ok.inj checked
      refine ⟨nofun, ?_, rfl⟩
      cases previous <;> simp
  | cons index rest ih =>
      rw [List.foldlM_cons] at checked
      obtain ⟨step, taken, checked⟩ := bind_eq_ok.mp checked
      obtain ⟨key, read, taken⟩ := bind_eq_ok.mp taken
      obtain ⟨_, above, taken⟩ := bind_eq_ok.mp taken
      obtain rfl := Except.ok.inj taken
      obtain ⟨later, chain, same⟩ := ih checked
      have here := keyOf_eq read
      refine ⟨?_, ?_, ?_⟩
      · intro other member
        rcases List.mem_cons.mp member with rfl | member
        · rw [here, read]
        · exact later other member
      · rw [List.map_cons, here]
        cases previous with
        | none => exact chain
        | some last =>
            rw [refuseIf_eq_ok] at above
            exact List.IsChain.cons_cons (by simpa using above) chain
      · rw [same, List.map_cons, List.getLast?_cons, here]
        cases (rest.map self.keyOf).getLast? <;> rfl

/-- A block whose keys were held to their place reads every one of them; they ascend to below the
bound, from the key the parent records.
-/
theorem checkKeys_eq_ok {self : TreeBlock} {first below : Option DiskKey} {u : Unit}
    (checked : self.checkKeys first below = .ok u)
    : self.count = .ok self.header.nritems
      ∧ (∀ index < self.header.nritems, self.keyAt index = .ok (self.keyOf index))
      ∧ (self.keys ++ below.toList).IsChain (· < ·)
      ∧ ∀ key ∈ first, self.keys.head? = some key := by
  obtain ⟨count, counted, checked⟩ := bind_eq_ok.mp checked
  obtain ⟨previous, ordered, checked⟩ := bind_eq_ok.mp checked
  obtain ⟨misplaced, compared, checked⟩ := bind_eq_ok.mp checked
  obtain ⟨_, placed, bounded⟩ := bind_eq_ok.mp checked
  obtain rfl := count_eq_ok counted
  obtain ⟨reads, chain, last⟩ := keys_in_order _ ordered
  rw [refuseIf_eq_ok] at placed bounded
  subst placed
  refine ⟨counted, fun index inside => reads index (List.mem_range.mpr inside), ?_, ?_⟩
  · apply List.IsChain.append chain (by cases below <;> simp)
    intro top isTop bound isBound
    obtain rfl : below = some bound := by simpa using isBound
    have isTop : (self.keys).getLast? = some top := isTop
    rw [last, ← keys, isTop] at bounded
    simpa using bounded
  · rintro key ⟨⟩
    simp only [firstDiffers] at compared
    split at compared
    next => cases compared
    next some =>
      obtain ⟨actual, read, same⟩ := bind_eq_ok.mp compared
      obtain rfl : actual = key := by simpa [pure, Except.pure] using same
      obtain ⟨more, split⟩ := Nat.exists_eq_succ_of_ne_zero some
      rw [keys, split, List.range_succ_eq_map, List.map_cons, List.head?_cons, keyOf_eq read]

theorem checkLeafPacking_of_node {self : TreeBlock} (node : self.header.isLeaf = false)
    : self.checkLeafPacking = .ok () := by
  simp [checkLeafPacking, node]

/-- A block without an entry has no key out of place, where no parent records one for it. -/
theorem checkKeys_of_empty {self : TreeBlock} (empty : self.header.nritems = 0)
    (below : Option DiskKey)
    : self.checkKeys none below = .ok () := by
  simp [checkKeys, count, empty, firstDiffers, refuseIf, bind, Except.bind, pure, Except.pure]

end Ferrosys.Btrfs.TreeBlock
