import Ferrosys.Apfs.Btree.Agreement
import Mathlib.Data.List.Perm.Subperm

/-! What a node's checks promise of its layout: a frame holds every read of an entry inside, and
placing every entry holds them apart.
-/

namespace Ferrosys.Apfs

open Checked

section

variable {bytes : Bytes} {sizes : EntrySizes} {node : Node}

/-- What framing a node found each part of it to be. -/
theorem Node.frame_parts (framed : Node.frame bytes sizes = .ok node)
    : Node.valuesEnd node.header node.bytes.length = .ok node.valueEnd
      ∧ node.tableStart = nodeDataStart + node.header.table.1
      ∧ node.keyArea = node.tableStart + node.header.table.2
      ∧ node.freeStart = node.keyArea + node.header.freeSpace.1
      ∧ node.valueStart = node.freeStart + node.header.freeSpace.2
      ∧ Node.fixedSizes node.header sizes = .ok node.fixed := by
  unfold Node.frame at framed
  split at framed
  next => cases framed
  next header parsed =>
    unfold Node.frameWith at framed
    split at framed
    next => cases framed
    next valueEnd ends =>
      dsimp only at framed
      split at framed
      next =>
        split at framed
        next =>
          split at framed
          next => cases framed
          next fixed sized =>
            split at framed
            next =>
              obtain rfl := Except.ok.inj framed
              exact ⟨ends, rfl, rfl, rfl, rfl, sized⟩
            next => cases framed
        next => cases framed
      next => cases framed

/-- The sizes a node fixes for its entries fit two bytes. -/
theorem Node.fixedSizes_le {header : NodeHeader} {fixed : Option (Nat × Nat)}
    (sized : Node.fixedSizes header sizes = .ok fixed)
    : ∀ found ∈ fixed, found.1 ≤ 0xFFFF ∧ found.2 ≤ 0xFFFF := by
  unfold Node.fixedSizes at sized
  split at sized
  next =>
    dsimp only at sized
    generalize (if header.isLeaf = true then sizes.value else childPointerSize) = value at sized
    split at sized
    next fits =>
      obtain rfl := Except.ok.inj sized
      rintro _ ⟨⟩
      exact ⟨fits.1.2, fits.2.2⟩
    next => cases sized
  next =>
    split at sized
    next => cases sized
    next =>
      obtain rfl := Except.ok.inj sized
      rintro _ ⟨⟩

end

/-- A byte is one of a run's. -/
def Range.Holds (self : Range) (byte : Nat) : Prop := self.start ≤ byte ∧ byte < self.stop

theorem Range.mem_range' {self : Range} {byte : Nat}
    : byte ∈ List.range' self.start self.len ↔ self.Holds byte := by
  rw [List.mem_range'_1, Range.Holds, Range.len]
  omega

namespace Node

variable (self : Node)

/-- The sums framing a node and locating one of its entries make: where its table, its keys and its
values begin, where the last word of the entry's slot is read, and where its key ends and a value of
its length would.
-/
def sums (index : Nat) : List Nat :=
  let entry := self.tableEntry index
  [
    self.tableStart, self.keyArea, self.freeStart, self.valueStart,
    self.header.keyCount * entrySize self.fixed,
    self.tableStart + entrySize self.fixed * index + entrySize self.fixed,
    self.keyArea + entry.1.1, self.keyArea + entry.1.1 + entry.1.2,
    self.valueEnd - entry.2.1 + entry.2.2
  ]

/-- No sum of a node's passes what 64 bits hold, whatever its table says. -/
def Unwrapped (index : Nat) : Prop := ∀ sum ∈ self.sums index, sum < 2 ^ 64

variable {self}

/-- What a node's table says of an entry fits two bytes. -/
theorem tableEntry_lt (fixed : ∀ found ∈ self.fixed, found.1 ≤ 0xFFFF ∧ found.2 ≤ 0xFFFF)
    (index : Nat)
    : (self.tableEntry index).1.1 < 2 ^ 16 ∧ (self.tableEntry index).1.2 < 2 ^ 16
      ∧ (self.tableEntry index).2.1 < 2 ^ 16 ∧ (self.tableEntry index).2.2 < 2 ^ 16 := by
  unfold tableEntry
  split
  next keyLen valueLen sized =>
    obtain ⟨key, value⟩ := fixed _ sized
    exact ⟨getU16_lt _ _, Nat.lt_succ_of_le key, getU16_lt _ _, Nat.lt_succ_of_le value⟩
  next => exact ⟨getU16_lt _ _, getU16_lt _ _, getU16_lt _ _, getU16_lt _ _⟩

/-- A frame leaves no sum to wrap: a block of bytes is shorter than 2⁶³. -/
theorem unwrapped {bytes : Bytes} {sizes : EntrySizes} (framed : frame bytes sizes = .ok self)
    (short : bytes.length < 2 ^ 63) {index : Nat} (counted : index < self.len)
    : self.Unwrapped index := by
  obtain ⟨-, table, keys, free, values, sized⟩ := frame_parts framed
  obtain ⟨keyOff, keyLen, valueOff, valueLen⟩ := tableEntry_lt (fixedSizes_le sized) index
  have inside := (self.inside counted).1
  have same := frame_eq_ok framed
  have fits := self.fits
  have valuesFit := self.values_fit
  have freeFits := self.free_fits
  have keysFit := self.keys_fit
  have tableFits := self.table_fits
  rw [same] at fits inside
  have slot : self.tableStart + entrySize self.fixed * index + entrySize self.fixed
      = self.tableStart + (index + 1) * entrySize self.fixed := by
    rw [Nat.add_assoc, ← Nat.mul_succ, Nat.mul_comm]
  intro sum member
  simp only [sums, List.mem_cons, List.not_mem_nil, or_false] at member
  rcases member with rfl | rfl | rfl | rfl | rfl | rfl | rfl | rfl | rfl <;> omega


/-- The bytes an entry's key takes, and the bytes its value takes. -/
def keyLen (self : Node) (index : Nat) : Nat :=
  match self.locate index with
  | .ok at_ => at_.1.len
  | .error _ => 0

def valueLen (self : Node) (index : Nat) : Nat :=
  match self.locate index with
  | .ok at_ => (at_.2.map Range.len).getD 0
  | .error _ => 0

/-- The bytes the keys of the first entries take together, and those their values take. -/
def keysHeld (self : Node) (count : Nat) : Nat := ((List.range count).map self.keyLen).sum

def valuesHeld (self : Node) (count : Nat) : Nat := ((List.range count).map self.valueLen).sum

/-- What placing every entry found: the table, the keys and the values are one behind the other, no
byte is in the keys of two entries or in the values of two, and the bytes no entry holds are what
is left of each area.
-/
structure Apart (node : Node) (unused : Unused) : Prop where
  table : node.tableStart + node.len * entrySize node.fixed ≤ node.keyArea
  areas : node.keyArea ≤ node.freeStart ∧ node.freeStart ≤ node.valueStart
    ∧ node.valueStart ≤ node.valueEnd ∧ node.valueEnd ≤ node.bytes.length
  located : ∀ index < node.len, ∃ at_, node.locate index = .ok at_
    ∧ (node.keyArea ≤ at_.1.start ∧ at_.1.start ≤ at_.1.stop ∧ at_.1.stop ≤ node.freeStart)
    ∧ ∀ value ∈ at_.2, node.valueStart ≤ value.start ∧ value.start ≤ value.stop
      ∧ value.stop ≤ node.valueEnd
  keys : ∀ i j at_ at', i ≠ j → node.locate i = .ok at_ → node.locate j = .ok at' →
    ∀ byte, at_.1.Holds byte → ¬ at'.1.Holds byte
  values : ∀ i j at_ at', i ≠ j → node.locate i = .ok at_ → node.locate j = .ok at' →
    ∀ value ∈ at_.2, ∀ value' ∈ at'.2, ∀ byte, value.Holds byte → ¬ value'.Holds byte
  keysHeld : unused.key + node.keysHeld node.len = node.freeStart - node.keyArea
  valuesHeld : unused.value + node.valuesHeld node.len = node.valueEnd - node.valueStart

/-- What locating an entry found: its key in the key area, and its value in the value area. -/
theorem locate_eq_ok {index : Nat} {at_ : Range × Option Range}
    (found : self.locate index = .ok at_)
    : index < self.len
      ∧ (self.keyArea ≤ at_.1.start ∧ at_.1.start ≤ at_.1.stop ∧ at_.1.stop ≤ self.freeStart)
      ∧ ∀ value ∈ at_.2, self.valueStart ≤ value.start ∧ value.start ≤ value.stop
        ∧ value.stop ≤ self.valueEnd := by
  obtain ⟨_, counted, found⟩ := bind_eq_ok.mp found
  obtain ⟨_, key, found⟩ := bind_eq_ok.mp found
  rw [refuseIf_eq_ok, decide_eq_false_iff_not] at counted key
  refine ⟨Nat.lt_of_not_le counted, ?_⟩
  split at found
  next =>
    obtain rfl := Except.ok.inj found
    exact ⟨⟨Nat.le_add_right _ _, Nat.le_add_right _ _, Nat.le_of_not_lt key⟩,
      fun _ absent => absurd absent (Option.not_mem_none _)⟩
  next =>
    obtain ⟨_, reach, found⟩ := bind_eq_ok.mp found
    obtain ⟨_, value, found⟩ := bind_eq_ok.mp found
    rw [refuseIf_eq_ok, Bool.or_eq_false_iff, decide_eq_false_iff_not,
      decide_eq_false_iff_not] at reach
    rw [refuseIf_eq_ok, decide_eq_false_iff_not] at value
    obtain rfl := Except.ok.inj found
    refine ⟨⟨Nat.le_add_right _ _, Nat.le_add_right _ _, Nat.le_of_not_lt key⟩, ?_⟩
    rintro _ ⟨⟩
    exact ⟨Nat.le_of_not_lt reach.2, Nat.le_add_right _ _, Nat.le_of_not_lt value⟩

section Placing

variable {taken after : List Nat} {range : Range} {index : Nat} {part : String}

/-- A run is claimed where none of its bytes was. -/
theorem claim_eq_ok (claimed : claim taken range index part = .ok after)
    : after = List.range' range.start range.len ++ taken
      ∧ ∀ byte, range.Holds byte → byte ∉ taken := by
  unfold claim at claimed
  dsimp only at claimed
  split at claimed
  next => cases claimed
  next free =>
    refine ⟨(Except.ok.inj claimed).symm, fun byte holds held => free ?_⟩
    rw [List.any_eq_true]
    exact ⟨byte, Range.mem_range'.mpr holds, List.contains_iff_mem.mpr held⟩

theorem keysHeld_succ (self : Node) (count : Nat)
    : self.keysHeld (count + 1) = self.keysHeld count + self.keyLen count := by
  simp [keysHeld, List.range_succ]

theorem valuesHeld_succ (self : Node) (count : Nat)
    : self.valuesHeld (count + 1) = self.valuesHeld count + self.valueLen count := by
  simp [valuesHeld, List.range_succ]

/-- What is claimed of a node: bytes of its two areas, each once, so many of either. -/
structure Taken (node : Node) (taken : List Nat) (keys values : Nat) : Prop where
  nodup : taken.Nodup
  inside : ∀ byte ∈ taken, node.keyArea ≤ byte ∧ byte < node.freeStart
    ∨ node.valueStart ≤ byte ∧ byte < node.valueEnd
  keyCount : (taken.filter (· < node.freeStart)).length = keys
  valueCount : (taken.filter (node.valueStart ≤ ·)).length = values

section

variable {node : Node} {keys values : Nat}

theorem nodup_claimed (nodup : taken.Nodup) (free : ∀ byte, range.Holds byte → byte ∉ taken)
    : (List.range' range.start range.len ++ taken).Nodup :=
  List.nodup_append'.mpr ⟨List.nodup_range', nodup, fun byte member held =>
    free byte (Range.mem_range'.mp member) held⟩

/-- Bytes that are claimed count once each where they are counted. -/
theorem filter_claimed {p : Nat → Bool} (taken : List Nat) {range : Range}
    (all : ∀ byte, range.Holds byte → p byte = true)
    : ((List.range' range.start range.len ++ taken).filter p).length
      = (taken.filter p).length + range.len := by
  rw [List.filter_append, List.length_append, List.filter_eq_self.mpr, List.length_range',
    Nat.add_comm]
  exact fun byte member => all byte (Range.mem_range'.mp member)

/-- Bytes that are claimed count nowhere else. -/
theorem filter_unclaimed {p : Nat → Bool} (taken : List Nat) {range : Range}
    (none_ : ∀ byte, range.Holds byte → p byte = false)
    : ((List.range' range.start range.len ++ taken).filter p).length
      = (taken.filter p).length := by
  rw [List.filter_append, List.length_append, List.filter_eq_nil_iff.mpr, List.length_nil,
    Nat.zero_add]
  intro byte member
  rw [none_ byte (Range.mem_range'.mp member)]
  exact Bool.false_ne_true

/-- A key that is claimed is one of the key area. -/
theorem Taken.key (held : Taken node taken keys values) (from_ : node.keyArea ≤ range.start)
    (to_ : range.stop ≤ node.freeStart) (free : ∀ byte, range.Holds byte → byte ∉ taken)
    : Taken node (List.range' range.start range.len ++ taken) (keys + range.len) values where
  nodup := nodup_claimed held.nodup free
  inside byte member := by
    rcases List.mem_append.mp member with member | member
    · obtain ⟨low, high⟩ := Range.mem_range'.mp member
      exact .inl ⟨Nat.le_trans from_ low, Nat.lt_of_lt_of_le high to_⟩
    · exact held.inside byte member
  keyCount := by
    rw [filter_claimed taken fun byte holds => decide_eq_true
      (Nat.lt_of_lt_of_le holds.2 to_), held.keyCount]
  valueCount := by
    have between := node.free_fits
    rw [filter_unclaimed taken fun byte holds => decide_eq_false ?_, held.valueCount]
    have := holds.2
    omega

/-- A value that is claimed is one of the value area. -/
theorem Taken.value (held : Taken node taken keys values) (from_ : node.valueStart ≤ range.start)
    (to_ : range.stop ≤ node.valueEnd) (free : ∀ byte, range.Holds byte → byte ∉ taken)
    : Taken node (List.range' range.start range.len ++ taken) keys (values + range.len) where
  nodup := nodup_claimed held.nodup free
  inside byte member := by
    rcases List.mem_append.mp member with member | member
    · obtain ⟨low, high⟩ := Range.mem_range'.mp member
      exact .inr ⟨Nat.le_trans from_ low, Nat.lt_of_lt_of_le high to_⟩
    · exact held.inside byte member
  keyCount := by
    have between := node.free_fits
    rw [filter_unclaimed taken fun byte holds => decide_eq_false ?_, held.keyCount]
    have := holds.1
    omega
  valueCount := by
    rw [filter_claimed taken fun byte holds => decide_eq_true
      (Nat.le_trans from_ holds.1), held.valueCount]

/-- What is claimed of an area is no more than the area. -/
theorem Taken.le (held : Taken node taken keys values)
    : keys ≤ node.freeStart - node.keyArea ∧ values ≤ node.valueEnd - node.valueStart := by
  have between := node.free_fits
  constructor
  · rw [← held.keyCount, ← @List.length_range' node.keyArea 1 (node.freeStart - node.keyArea)]
    refine (List.subperm_of_subset (held.nodup.filter _) fun byte member => ?_).length_le
    obtain ⟨member, below⟩ := List.mem_filter.mp member
    have below := of_decide_eq_true below
    have := held.inside byte member
    rw [List.mem_range'_1]
    omega
  · rw [← held.valueCount,
      ← @List.length_range' node.valueStart 1 (node.valueEnd - node.valueStart)]
    refine (List.subperm_of_subset (held.nodup.filter _) fun byte member => ?_).length_le
    obtain ⟨member, above⟩ := List.mem_filter.mp member
    have above := of_decide_eq_true above
    have := held.inside byte member
    rw [List.mem_range'_1]
    omega

end

/-- What placing an entry did: its key's bytes and its value's are claimed, and were not before. -/
theorem place_eq_ok {count : Nat} {state next : List Nat × Unused}
    (held : Taken self state.1 state.2.key state.2.value)
    (placed : self.place state count = .ok next)
    : ∃ at_, self.locate count = .ok at_ ∧ Taken self next.1 next.2.key next.2.value
      ∧ (∀ byte ∈ state.1, byte ∈ next.1)
      ∧ (∀ byte, at_.1.Holds byte → byte ∉ state.1 ∧ byte ∈ next.1)
      ∧ (∀ value ∈ at_.2, ∀ byte, value.Holds byte → byte ∉ state.1 ∧ byte ∈ next.1)
      ∧ next.2.key = state.2.key + at_.1.len
      ∧ next.2.value = state.2.value + (at_.2.map Range.len).getD 0 := by
  obtain ⟨at_, found, placed⟩ := bind_eq_ok.mp placed
  obtain ⟨-, ⟨keyFrom, -, keyTo⟩, valueInside⟩ := locate_eq_ok found
  obtain ⟨taken, claimed, placed⟩ := bind_eq_ok.mp placed
  obtain ⟨rfl, keyFree⟩ := claim_eq_ok claimed
  have withKey := held.key keyFrom keyTo keyFree
  refine ⟨at_, found, ?_⟩
  cases value : at_.2 with
  | none =>
      rw [value] at placed
      obtain rfl := Except.ok.inj placed
      exact ⟨withKey, fun byte member => List.mem_append_right _ member,
        fun byte holds => ⟨keyFree byte holds, List.mem_append_left _ (Range.mem_range'.mpr holds)⟩,
        fun _ absent => absurd absent (Option.not_mem_none _), rfl, rfl⟩
  | some range =>
      rw [value] at placed
      obtain ⟨both, claimed, placed⟩ := bind_eq_ok.mp placed
      obtain ⟨rfl, valueFree⟩ := claim_eq_ok claimed
      obtain rfl := Except.ok.inj placed
      obtain ⟨valueFrom, -, valueTo⟩ := valueInside range value
      refine ⟨withKey.value valueFrom valueTo valueFree,
        fun byte member => List.mem_append_right _ (List.mem_append_right _ member),
        fun byte holds => ⟨keyFree byte holds,
          List.mem_append_right _ (List.mem_append_left _ (Range.mem_range'.mpr holds))⟩,
        ?_, rfl, rfl⟩
      rintro _ ⟨⟩ byte holds
      exact ⟨fun member => valueFree byte holds (List.mem_append_right _ member),
        List.mem_append_left _ (Range.mem_range'.mpr holds)⟩

/-- What is held once the first entries are placed: their bytes, and no byte for two of them. -/
structure Placing (node : Node) (count : Nat) (state : List Nat × Unused) : Prop where
  taken : Taken node state.1 state.2.key state.2.value
  located : ∀ index < count, ∃ at_, node.locate index = .ok at_
    ∧ (∀ byte, at_.1.Holds byte → byte ∈ state.1)
    ∧ ∀ value ∈ at_.2, ∀ byte, value.Holds byte → byte ∈ state.1
  keys : ∀ i j at_ at', i < j → j < count → node.locate i = .ok at_ → node.locate j = .ok at' →
    ∀ byte, at_.1.Holds byte → ¬ at'.1.Holds byte
  values : ∀ i j at_ at', i < j → j < count → node.locate i = .ok at_ → node.locate j = .ok at' →
    ∀ value ∈ at_.2, ∀ value' ∈ at'.2, ∀ byte, value.Holds byte → ¬ value'.Holds byte
  keySum : state.2.key = node.keysHeld count
  valueSum : state.2.value = node.valuesHeld count

/-- Placing an entry holds its bytes too, apart from those of the entries before it. -/
theorem Placing.place {node : Node} {count : Nat} {state next : List Nat × Unused}
    (placing : Placing node count state) (placed : node.place state count = .ok next)
    : Placing node (count + 1) next := by
  obtain ⟨at_, found, taken, kept, key, value, keyLen, valueLen⟩ :=
    place_eq_ok placing.taken placed
  have earlier {i : Nat} (below : i < count) {other : Range × Option Range}
      (here : node.locate i = .ok other)
      : (∀ byte, other.1.Holds byte → byte ∈ state.1)
        ∧ ∀ value ∈ other.2, ∀ byte, value.Holds byte → byte ∈ state.1 := by
    obtain ⟨known, same, held⟩ := placing.located i below
    obtain rfl := Except.ok.inj (same.symm.trans here)
    exact held
  refine ⟨taken, ?_, ?_, ?_, ?_, ?_⟩
  · intro i below
    rcases Nat.lt_succ_iff_lt_or_eq.mp below with before | rfl
    · obtain ⟨known, here, keys, values⟩ := placing.located i before
      exact ⟨known, here, fun byte holds => kept byte (keys byte holds),
        fun value member byte holds => kept byte (values value member byte holds)⟩
    · exact ⟨at_, found, fun byte holds => (key byte holds).2,
        fun range member byte holds => (value range member byte holds).2⟩
  · intro i j one two before below first second byte holds
    rcases Nat.lt_succ_iff_lt_or_eq.mp below with earlier' | rfl
    · exact placing.keys i j one two before earlier' first second byte holds
    · obtain rfl := Except.ok.inj (found.symm.trans second)
      exact fun both => (key byte both).1 ((earlier before first).1 byte holds)
  · intro i j one two before below first second range member range' member' byte holds
    rcases Nat.lt_succ_iff_lt_or_eq.mp below with earlier' | rfl
    · exact placing.values i j one two before earlier' first second range member range' member'
        byte holds
    · obtain rfl := Except.ok.inj (found.symm.trans second)
      exact fun both => (value range' member' byte both).1
        ((earlier before first).2 range member byte holds)
  · rw [keyLen, placing.keySum, keysHeld_succ, Node.keyLen, found]
  · rw [valueLen, placing.valueSum, valuesHeld_succ, Node.valueLen, found]

/-- Placing every entry holds them apart. -/
theorem checkLayout_eq_ok {unused : Unused} (checked : self.checkLayout = .ok unused)
    : Apart self unused := by
  obtain ⟨last, ran, same⟩ := bind_eq_ok.mp checked
  have start : Placing self 0 ([], ⟨0, 0⟩) :=
    ⟨⟨.nil, fun _ member => absurd member List.not_mem_nil, rfl, rfl⟩,
      fun _ below => absurd below (Nat.not_lt_zero _),
      fun _ _ _ _ _ below => absurd below (Nat.not_lt_zero _),
      fun _ _ _ _ _ below => absurd below (Nat.not_lt_zero _), rfl, rfl⟩
  have all : Placing self self.len last :=
    foldlM_range_invariant (fun i _ before after holds step => holds.place step) start ran
  obtain ⟨keysFit, valuesFit⟩ := all.taken.le
  obtain rfl := Except.ok.inj same
  refine ⟨self.table_fits, ⟨self.keys_fit, self.free_fits, self.values_fit, self.fits⟩, ?_, ?_, ?_,
    ?_, ?_⟩
  · intro index counted
    obtain ⟨at_, found, -⟩ := all.located index counted
    exact ⟨at_, found, (locate_eq_ok found).2⟩
  · intro i j one two other first second byte holds
    rcases Nat.lt_or_gt_of_ne other with before | after
    · exact all.keys i j one two before (locate_eq_ok second).1 first second byte holds
    · exact fun both =>
        all.keys j i two one after (locate_eq_ok first).1 second first byte both holds
  · intro i j one two other first second range member range' member' byte holds
    rcases Nat.lt_or_gt_of_ne other with before | after
    · exact all.values i j one two before (locate_eq_ok second).1 first second range member range'
        member' byte holds
    · exact fun both => all.values j i two one after (locate_eq_ok first).1 second first range'
        member' range member byte both holds
  · rw [← all.keySum]
    exact Nat.sub_add_cancel keysFit
  · rw [← all.valueSum]
    exact Nat.sub_add_cancel valuesFit

end Placing

/-- A block of bytes that frames is read inside it and no sum of it wraps, and once every entry is
placed no two hold a byte together.
-/
theorem frame_safe {bytes : Bytes} {sizes : EntrySizes} {node : Node}
    (framed : frame bytes sizes = .ok node)
    : node.bytes = bytes
      ∧ (∀ index < node.len, node.Inside index
        ∧ (bytes.length < 2 ^ 63 → node.Unwrapped index))
      ∧ ∀ unused, node.checkLayout = .ok unused → Apart node unused :=
  ⟨frame_eq_ok framed,
    fun _ counted => ⟨node.inside counted, fun short => unwrapped framed short counted⟩,
    fun _ checked => checkLayout_eq_ok checked⟩

/-- A root leaf with a key twice is as safe to read, and its entries are apart. -/
theorem frame_safe_of_unordered
    : (∀ index < 3, unorderedNode.Inside index ∧ unorderedNode.Unwrapped index)
      ∧ Apart unorderedNode ⟨0, 0⟩ := by
  obtain ⟨-, safe, apart⟩ := frame_safe unorderedNode_framed
  refine ⟨fun index counted => ?_, apart _ rfl⟩
  obtain ⟨inside, unwrapped⟩ := safe index counted
  exact ⟨inside, unwrapped (by rw [unorderedLeaf_length]; decide)⟩

end Node

end Ferrosys.Apfs
