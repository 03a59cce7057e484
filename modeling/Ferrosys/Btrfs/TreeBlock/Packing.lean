import Ferrosys.Btrfs.TreeBlock

/-! What the checks over a whole tree block come to: its keys ascend, and a leaf's data is one run
down from the end of the block, each item's in front of the one before it.
-/

namespace Ferrosys.Btrfs.TreeBlock

open Splice Checked

variable {self : TreeBlock}

/-- The item of a leaf whose items read. -/
def itemOf (self : TreeBlock) (index : Nat) : Item :=
  match self.item index with
  | .ok item => item
  | .error _ => ⟨DiskKey.min, 0, 0⟩

/-- Bytes of one entry of the block. -/
def entrySize (self : TreeBlock) : Nat :=
  if self.header.isLeaf then Item.sizeOnDisk else KeyPtr.size

/-- The second item's data ends where the first one's begins, or before. -/
def InFront (first second : Item) : Prop := second.offset + second.size ≤ first.offset

/-- Data in front of data that is in front of some is in front of that. -/
theorem InFront.trans {a b c : Item} (first : InFront a b) (second : InFront b c) : InFront a c :=
  Nat.le_trans second (Nat.le_trans (Nat.le_add_right _ _) first)

instance : Trans InFront InFront InFront := ⟨InFront.trans⟩

/-- Items held to abut one another each read, the first ends where the run does, and each later one
is in front of the one before: by induction on the entries left.
-/
theorem items_in_front {logical : Nat} {fault : String} (indices : List Nat) {abuts last : Nat}
    (checked : indices.foldlM (fun abuts index => do
      let item ← self.item index
      refuseIf (item.offset + item.size != abuts) (ReadError.badItem logical index fault)
      return item.offset) abuts = .ok last)
    : (∀ index ∈ indices, self.item index = .ok (self.itemOf index))
      ∧ (indices.map self.itemOf).IsChain InFront
      ∧ ∀ item ∈ (indices.map self.itemOf).head?, item.offset + item.size = abuts := by
  induction indices generalizing abuts with
  | nil => exact ⟨nofun, List.IsChain.nil, nofun⟩
  | cons index rest ih =>
      rw [List.foldlM_cons] at checked
      obtain ⟨step, taken, checked⟩ := bind_eq_ok.mp checked
      obtain ⟨item, read, taken⟩ := bind_eq_ok.mp taken
      obtain ⟨_, abut, taken⟩ := bind_eq_ok.mp taken
      obtain rfl := Except.ok.inj taken
      obtain ⟨later, chain, first⟩ := ih checked
      have here : self.itemOf index = item := by rw [itemOf, read]
      have ends : item.offset + item.size = abuts := by
        rw [refuseIf_eq_ok] at abut
        simpa using abut
      refine ⟨?_, ?_, ?_⟩
      · intro other member
        rcases List.mem_cons.mp member with rfl | member
        · rw [here, read]
        · exact later other member
      · rw [List.map_cons, here]
        refine List.isChain_cons.mpr ⟨fun next isNext => ?_, chain⟩
        exact Nat.le_of_eq (first next isNext)
      · rintro other ⟨⟩
        rw [here]
        exact ends

/-- The entries a block counts are within it. -/
theorem entry_within {count : Nat} (counted : self.count = .ok count) {index : Nat}
    (inside : index < count)
    : Header.size + (index + 1) * self.entrySize ≤ self.bytes.length := by
  have least := (Header.of_readFrom self.parsed).1
  unfold TreeBlock.count at counted
  split at counted
  · cases counted
  next within =>
    obtain rfl := Except.ok.inj counted
    have fits : index + 1 ≤ (self.bytes.length - Header.size) / self.entrySize := by
      change ¬(self.bytes.length - Header.size) / self.entrySize < _ at within
      omega
    have pos : 0 < self.entrySize := by
      unfold entrySize Item.sizeOnDisk KeyPtr.size
      split <;> decide
    have := (Nat.le_div_iff_mul_le pos).mp fits
    omega

/-- The data of a leaf whose items were held to abut: in the block behind the header, and each
item's in front of those before it.
-/
theorem checkLeafPacking_eq_ok (leaf : self.header.isLeaf = true) {count : Nat}
    (counted : self.count = .ok count) (packed : self.checkLeafPacking = .ok ())
    : (∀ index < count, self.item index = .ok (self.itemOf index))
      ∧ ((List.range count).map self.itemOf).Pairwise InFront
      ∧ ∀ index < count,
          Header.size + (self.itemOf index).offset + (self.itemOf index).size
            ≤ self.bytes.length := by
  have least := (Header.of_readFrom self.parsed).1
  unfold checkLeafPacking at packed
  rw [leaf, counted] at packed
  obtain ⟨_, same, packed⟩ := bind_eq_ok.mp packed
  obtain rfl := Except.ok.inj same
  obtain ⟨last, walked, -⟩ := bind_eq_ok.mp packed
  obtain ⟨reads, chain, first⟩ := items_in_front _ walked
  have apart := List.isChain_iff_pairwise.mp chain
  refine ⟨fun index inside => reads index (List.mem_range.mpr inside), apart,
    fun index inside => ?_⟩
  cases count with
  | zero => cases inside
  | succ more =>
      rw [List.range_succ_eq_map, List.map_cons] at apart first
      have ends := first _ rfl
      cases index with
      | zero => omega
      | succ index =>
          have member : self.itemOf (index + 1)
              ∈ ((List.range more).map Nat.succ).map self.itemOf :=
            List.mem_map_of_mem (List.mem_map_of_mem (List.mem_range.mpr
              (Nat.lt_of_succ_lt_succ inside)))
          have front : InFront (self.itemOf 0) (self.itemOf (index + 1)) :=
            (List.pairwise_cons.mp apart).1 _ member
          unfold InFront at front
          omega

/-- Data is the item's own bytes where it begins past the array describing it, and is refused where
it begins inside.
-/
theorem itemData_eq {count index : Nat} {item : Item} (counted : self.count = .ok count)
    (read : self.item index = .ok item)
    (within : Header.size + item.offset + item.size ≤ self.bytes.length)
    : self.itemData index
      = if count * Item.sizeOnDisk ≤ item.offset then
          .ok (slice self.bytes (Header.size + item.offset) item.size)
        else .error (.badItem self.header.bytenr index
          "the item's data begins inside the array describing it") := by
  simp only [itemData, counted, ok_bind, read, Nat.add_lt_add_iff_left]
  by_cases past : count * Item.sizeOnDisk ≤ item.offset
  · rw [if_pos past, decide_eq_false (Nat.not_lt.mpr past),
      decide_eq_false (Nat.not_lt.mpr within)]
    change Except.ok _ = _
    rw [Nat.add_sub_cancel_left]
  · rw [if_neg past, decide_eq_true (Nat.not_le.mp past)]
    rfl

/-- A block that passes the checks over its count, its keys and its packing: its keys ascend and
every entry is within it, and where it is a leaf its data is in the block behind the header, no
two items' ranges meet, and an item's data is its range, where that begins past the array of items.
-/
theorem checked_block {first below : Option DiskKey} {count : Nat}
    (counted : self.count = .ok count) (ordered : self.checkKeys first below = .ok ())
    (packed : self.checkLeafPacking = .ok ())
    : (∀ index < count, self.keyAt index = .ok (self.keyOf index))
      ∧ ((List.range count).map self.keyOf).Pairwise (· < ·)
      ∧ (∀ index < count, Header.size + (index + 1) * self.entrySize ≤ self.bytes.length)
      ∧ (self.header.isLeaf = true →
        ((List.range count).map self.itemOf).Pairwise InFront
        ∧ ∀ index < count, self.item index = .ok (self.itemOf index)
          ∧ Header.size + (self.itemOf index).offset + (self.itemOf index).size
            ≤ self.bytes.length
          ∧ self.itemData index
            = if count * Item.sizeOnDisk ≤ (self.itemOf index).offset then
                .ok (slice self.bytes (Header.size + (self.itemOf index).offset)
                  (self.itemOf index).size)
              else .error (.badItem self.header.bytenr index
                "the item's data begins inside the array describing it")) := by
  obtain ⟨-, reads, chain, -⟩ := checkKeys_eq_ok ordered
  obtain rfl := count_eq_ok counted
  refine ⟨reads, ?_, fun index inside => entry_within counted inside, fun leaf => ?_⟩
  · exact (List.isChain_iff_pairwise.mp chain).sublist (List.sublist_append_left _ _)
  · obtain ⟨items, apart, within⟩ := checkLeafPacking_eq_ok leaf counted packed
    exact ⟨apart, fun index inside => ⟨items index inside, within index inside,
      itemData_eq counted (items index inside) (within index inside)⟩⟩

/-- A leaf of one item with `offset` and `size`, at the end of a block of `room` bytes past the
item.
-/
def leafBytes (offset size room : Nat) : Bytes :=
  List.replicate 96 0 ++ toLeBytes32 1 ++ [0] ++ List.replicate 17 0 ++ toLeBytes32 offset
    ++ toLeBytes32 size ++ List.replicate room 7

/-- A leaf whose one item's data is the item itself. -/
def overlappingLeaf : TreeBlock :=
  (TreeBlock.parse (leafBytes 0 25 0)).toOption.get (by decide +kernel)

/-- It passes every check, and its data is refused. -/
theorem checked_overlapping
    : overlappingLeaf.count = .ok 1 ∧ overlappingLeaf.checkKeys none none = .ok ()
      ∧ overlappingLeaf.checkLeafPacking = .ok ()
      ∧ overlappingLeaf.itemData 0 = .error (.badItem 0 0
        "the item's data begins inside the array describing it") := by
  decide +kernel

def packedLeaf : TreeBlock := (TreeBlock.parse (leafBytes 25 3 3)).toOption.get (by decide +kernel)

/-- A leaf of one item of three bytes is read as them. -/
theorem checked_block_of_one : packedLeaf.itemData 0 = .ok [7, 7, 7] := by
  have checked := @checked_block packedLeaf none none 1 (by decide +kernel) (by decide +kernel)
    (by decide +kernel)
  rw [((checked.2.2.2 (by decide +kernel)).2 0 (by decide)).2.2]
  decide +kernel

end Ferrosys.Btrfs.TreeBlock
