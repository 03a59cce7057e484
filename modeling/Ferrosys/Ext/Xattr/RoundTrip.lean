import Ferrosys.Ext.Xattr.Parsing

/-! When attributes read back as they were stored, and how a set of them is split between an inode's
region and a block.
-/

namespace Ferrosys.Ext.Xattr

open Splice Machine

/-- Wherever a region is no longer than a place can say, every attribute is addressed, by induction
on the attributes.
-/
theorem addressed_of_le {base stop : Nat} {attrs : List Xattr} (within : stop ≤ 2 ^ 16 + base)
    (fits : base + valuesLen attrs ≤ stop) : Addressed base stop attrs := by
  induction attrs generalizing stop with
  | nil => trivial
  | cons x rest ih =>
      have long := (align4_spec x.value.length).1
      change _ ≤ valueLen x at long
      rw [valuesLen_cons] at fits
      refine ⟨?_, by omega, ih (by omega) (by omega)⟩
      unfold placeOf
      split
      next => exact Nat.two_pow_pos 16
      next some_ =>
        have pos := List.length_pos_iff.mpr fun empty => some_ (List.isEmpty_iff.mpr empty)
        omega

/-- A set of attributes stored in an inode's region reads back as it was, in order. -/
def InlineRoundTrips (attrs : List Xattr) (regionLen : Nat) : Prop :=
  ∃ region, encodeInline attrs regionLen = .ok (some region)
    ∧ parseInline region = .ok (sorted attrs)

/-- A set of attributes stored in a block reads back as it was, in order. -/
def BlockRoundTrips (attrs : List Xattr) (blockSize : Nat) (signed : Bool) : Prop :=
  ∃ block, encodeBlock attrs blockSize signed = .ok block
    ∧ parseBlock block = .ok (sorted attrs)

/-- What an encoder is promised of the attributes: each says its name, in a byte's length. -/
structure Storable (attrs : List Xattr) : Prop where
  named : ∀ x ∈ attrs, hasEmptyName x.name = false
  short : ∀ x ∈ attrs, (splitName x.name).2.length ≤ 255

theorem Storable.sorted {attrs : List Xattr} (storable : Storable attrs)
    : Storable (sorted attrs) :=
  ⟨fun x member => storable.named x ((sorted_perm attrs).mem_iff.mp member),
    fun x member => storable.short x ((sorted_perm attrs).mem_iff.mp member)⟩

/-- An empty region reads as no attributes. -/
theorem inlineRoundTrips_nil (regionLen : Nat) : InlineRoundTrips [] regionLen := by
  refine ⟨List.replicate regionLen 0, rfl, ?_⟩
  rw [parseInline, if_pos]
  · exact congrArg Except.ok List.mergeSort_nil.symm
  · right
    rw [getU32_replicate]
    decide

/-- An inode's region reads back exactly where there is room for the header of one more entry. -/
theorem inlineRoundTrips_iff {attrs : List Xattr} {regionLen : Nat} (storable : Storable attrs)
    (some_ : attrs ≠ []) (fits : ibodyHeaderLen + packedLen attrs ≤ regionLen)
    (addressed : Addressed ibodyHeaderLen regionLen (Xattr.sorted attrs))
    : InlineRoundTrips attrs regionLen
      ↔ ibodyHeaderLen + entriesLen attrs + entryHeaderLen ≤ regionLen := by
  have packed := packedLen_eq attrs
  have encoded := encodeInline_eq some_ storable.short fits
  generalize made : toLeBytes32 magic
    ++ records ibodyHeaderLen (fun _ => 0) regionLen (Xattr.sorted attrs)
    ++ zeros (regionLen - (ibodyHeaderLen + entriesLen attrs + valuesLen attrs))
    ++ values (Xattr.sorted attrs) = region at encoded
  have long : region.length = regionLen := by
    rw [← made]
    simp only [List.length_append, length_toLeBytes32, length_records, length_zeros, length_values,
      entriesLen_sorted, valuesLen_sorted]
    unfold ibodyHeaderLen at fits ⊢
    omega
  have opened : parseInline region = parseEntries region ibodyHeaderLen ibodyHeaderLen := by
    rw [parseInline, if_neg]
    rintro (short | foreign)
    · omega
    · apply foreign
      rw [← made, List.append_assoc, List.append_assoc, getU32_toLeBytes32_append]
      rfl
  have parsed := @parseEntries_eq ibodyHeaderLen (fun _ => 0) region (toLeBytes32 magic) _
    (Xattr.sorted attrs) (by decide) (by decide) (Nat.le_refl _) (long ▸ made.symm) (by omega)
    storable.sorted.short storable.sorted.named (long ▸ addressed)
  rw [entriesLen_sorted, long] at parsed
  change parseEntries region ibodyHeaderLen ibodyHeaderLen = _ at parsed
  constructor
  · rintro ⟨other, encoded', parsed'⟩
    obtain rfl := Option.some.inj (Except.ok.inj (encoded.symm.trans encoded'))
    rw [opened, parsed] at parsed'
    by_contra short
    rw [length_toLeBytes32, if_pos (by unfold ibodyHeaderLen at short; omega)] at parsed'
    cases parsed'
  · intro room
    refine ⟨region, encoded, ?_⟩
    rw [opened, parsed, if_neg]
    rw [length_toLeBytes32]
    unfold ibodyHeaderLen at room
    omega

/-- A block reads back exactly where there is room for the header of one more entry. -/
theorem blockRoundTrips_iff {attrs : List Xattr} {blockSize : Nat} {signed : Bool}
    (storable : Storable attrs) (fits : blockLen attrs ≤ blockSize) (within : blockSize ≤ 2 ^ 16)
    : BlockRoundTrips attrs blockSize signed
      ↔ blockHeaderLen + entriesLen attrs + entryHeaderLen ≤ blockSize := by
  have packed := packedLen_eq attrs
  unfold blockLen at fits
  obtain ⟨hash, encoded⟩ := @encodeBlock_eq attrs blockSize signed storable.short fits
  generalize made : blockHeader hash ++ zeros 16
    ++ records 0 (entryHash signed) blockSize (Xattr.sorted attrs)
    ++ zeros (blockSize - (blockHeaderLen + entriesLen attrs + valuesLen attrs))
    ++ values (Xattr.sorted attrs) = block at encoded
  have front : (blockHeader hash ++ zeros 16).length = blockHeaderLen := rfl
  have long : block.length = blockSize := by
    rw [← made]
    simp only [List.length_append, length_records, length_zeros, length_values, entriesLen_sorted,
      valuesLen_sorted] at front ⊢
    omega
  have opened : parseBlock block = parseEntries block blockHeaderLen 0 := by
    rw [parseBlock, if_neg]
    rintro (short | foreign)
    · omega
    · apply foreign
      rw [← made]
      simp only [blockHeader, List.append_assoc]
      rw [getU32_toLeBytes32_append]
      rfl
  have parsed := @parseEntries_eq 0 (entryHash signed) block (blockHeader hash ++ zeros 16) _
    (Xattr.sorted attrs) (by decide) (by rw [front]; rfl) (Nat.zero_le _) (long ▸ made.symm)
    (by omega) storable.sorted.short storable.sorted.named
    (addressed_of_le (by omega) (by rw [valuesLen_sorted]; omega))
  rw [entriesLen_sorted, long, front] at parsed
  constructor
  · rintro ⟨other, encoded', parsed'⟩
    obtain rfl := Except.ok.inj (encoded.symm.trans encoded')
    rw [opened, parsed] at parsed'
    by_contra short
    rw [if_pos (by omega)] at parsed'
    cases parsed'
  · intro room
    refine ⟨block, encoded, ?_⟩
    rw [opened, parsed, if_neg (by omega)]

/-- What is left inline is no more than the room for it, and every attribute is on one side, by
induction on the attributes still to be placed.
-/
theorem foldl_place (attrs : List Xattr) (split : Split)
    : ((attrs.foldl Split.place split).inlined ++ (attrs.foldl Split.place split).spilled).Perm
        (split.inlined ++ split.spilled ++ attrs)
      ∧ (attrs.foldl Split.place split).inlineFree
          + entriesLen (attrs.foldl Split.place split).inlined
          + valuesLen (attrs.foldl Split.place split).inlined
        = split.inlineFree + entriesLen split.inlined + valuesLen split.inlined := by
  induction attrs generalizing split with
  | nil => exact ⟨by rw [List.append_nil]; exact .rfl, rfl⟩
  | cons x rest ih =>
      rw [List.foldl_cons]
      obtain ⟨placed, room⟩ := ih (split.place x)
      refine ⟨placed.trans ?_, room.trans ?_⟩
      · unfold Split.place
        split
        next =>
          rw [List.append_assoc, List.append_assoc, List.append_assoc, List.singleton_append]
          exact List.Perm.append_left _ List.perm_middle.symm
        next =>
          simp only [List.append_assoc, List.singleton_append]
          exact .rfl
      · unfold Split.place
        split
        next fits =>
          simp only [entriesLen, valuesLen, List.map_append, List.sum_append, List.map_cons,
            List.map_nil, List.sum_cons, List.sum_nil, attrLen] at fits ⊢
          omega
        next => rfl

/-- Splitting a set of attributes loses and repeats none. -/
theorem splitForStorage_perm (attrs : List Xattr) (regionLen : Nat)
    : ((splitForStorage attrs regionLen).1 ++ (splitForStorage attrs regionLen).2).Perm attrs :=
  (foldl_place (sorted attrs) ⟨regionLen - (ibodyHeaderLen + 4), [], []⟩).1.trans
    (sorted_perm attrs)

/-- What is split off for an inode's region fits it. -/
theorem encodeInline_splitForStorage {attrs : List Xattr} (storable : Storable attrs)
    (regionLen : Nat)
    : ∃ region, encodeInline (splitForStorage attrs regionLen).1 regionLen = .ok (some region) := by
  have room := (foldl_place (sorted attrs) ⟨regionLen - (ibodyHeaderLen + 4), [], []⟩).2
  change _ + entriesLen (splitForStorage attrs regionLen).1
    + valuesLen (splitForStorage attrs regionLen).1 = _ at room
  simp only [entriesLen_nil, valuesLen_nil, Nat.add_zero] at room
  cases here : (splitForStorage attrs regionLen).1 with
  | nil => exact ⟨_, rfl⟩
  | cons x rest =>
      rw [here] at room
      have long : entryHeaderLen + (splitName x.name).2.length ≤ entryLen x := (align4_spec _).1
      have packed := packedLen_eq (x :: rest)
      rw [entriesLen_cons, valuesLen_cons] at room packed
      refine ⟨_, encodeInline_eq (List.cons_ne_nil x rest) (fun y member => ?_) ?_⟩
      · apply storable.short
        rw [← (splitForStorage_perm attrs regionLen).mem_iff, here]
        exact List.mem_append_left _ member
      · unfold ibodyHeaderLen entryHeaderLen at *
        omega

/-- Attributes stored inline or in a block, which they fit, read back as they were and in order
exactly where there is room for the header of one more entry behind theirs; and splitting them
between the two places each on one side, with what it leaves inline fitting there.
-/
theorem roundTrips_iff (attrs : List Xattr) (storable : Storable attrs)
    : ((sorted attrs).Perm attrs ∧ (sorted attrs).Pairwise fun a b => (order a b).isLE)
      ∧ (∀ regionLen, (attrs = [] ∨ ibodyHeaderLen + packedLen attrs ≤ regionLen)
          → (regionLen ≤ 2 ^ 16 + ibodyHeaderLen
            ∨ Addressed ibodyHeaderLen regionLen (sorted attrs))
          → (InlineRoundTrips attrs regionLen
            ↔ attrs = [] ∨ ibodyHeaderLen + entriesLen attrs + entryHeaderLen ≤ regionLen))
      ∧ (∀ blockSize signed, blockLen attrs ≤ blockSize → blockSize ≤ 2 ^ 16
          → (BlockRoundTrips attrs blockSize signed
            ↔ blockHeaderLen + entriesLen attrs + entryHeaderLen ≤ blockSize))
      ∧ ∀ regionLen,
          ((splitForStorage attrs regionLen).1 ++ (splitForStorage attrs regionLen).2).Perm attrs
          ∧ ∃ region,
              encodeInline (splitForStorage attrs regionLen).1 regionLen = .ok (some region) := by
  refine ⟨⟨sorted_perm attrs, sorted_pairwise attrs⟩, ?_,
    fun blockSize signed => blockRoundTrips_iff storable,
    fun regionLen => ⟨splitForStorage_perm attrs regionLen,
      encodeInline_splitForStorage storable regionLen⟩⟩
  intro regionLen fits reach
  by_cases none_ : attrs = []
  · rw [none_]
    exact ⟨fun _ => .inl rfl, fun _ => inlineRoundTrips_nil regionLen⟩
  · have fits := fits.resolve_left none_
    have packed := packedLen_eq attrs
    have addressed : Addressed ibodyHeaderLen regionLen (sorted attrs) := by
      refine reach.elim (fun within => addressed_of_le within ?_) id
      rw [valuesLen_sorted]
      omega
    rw [inlineRoundTrips_iff storable none_ fits addressed]
    exact ⟨.inr, fun room => room.resolve_left none_⟩

/-- Two attributes with names of their own and nothing in them. -/
def flags : List Xattr :=
  [⟨"user.".toUTF8.toList ++ List.replicate 28 97, []⟩,
    ⟨"user.".toUTF8.toList ++ List.replicate 28 98, []⟩]

theorem flags_storable : Storable flags :=
  ⟨by decide +kernel, by decide +kernel⟩

/-- At the two of them. -/
theorem roundTrips_flags : BlockRoundTrips flags 1024 false :=
  ((roundTrips_iff flags flags_storable).2.2.1 1024 false (by decide +kernel) (by decide)).mpr
    (by decide +kernel)

/-- In the region of an inode of 256 bytes the two fit, and do not read back. -/
theorem flags_unreadable
    : Storable flags ∧ (flags.map Xattr.name).Nodup ∧ ibodyHeaderLen + packedLen flags ≤ 96
      ∧ ¬ InlineRoundTrips flags 96 := by
  have fits : ibodyHeaderLen + packedLen flags ≤ 96 := by decide +kernel
  refine ⟨flags_storable, by decide +kernel, fits, ?_⟩
  rw [inlineRoundTrips_iff flags_storable (by decide) fits
    (addressed_of_le (by decide) (by rw [valuesLen_sorted]; decide +kernel))]
  decide +kernel

end Ferrosys.Ext.Xattr
