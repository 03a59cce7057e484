import Ferrosys.Ext.Xattr

/-! What storing attributes comes to. A region that is being filled is what was written at its front,
a gap of zeros, and what was written at its back; an attribute takes from both ends of the gap.
-/

namespace Ferrosys.Ext.Xattr

open Splice Machine

theorem align4_spec (n : Nat) : n ≤ align4 n ∧ align4 n < n + 4 ∧ align4 n % 4 = 0 := by
  unfold align4
  omega

/-- Rounding up past an aligned place is rounding up what lies behind it. -/
theorem align4_add {base : Nat} (aligned : base % 4 = 0) (n : Nat)
    : align4 (base + n) = base + align4 n := by
  unfold align4
  omega

/-- Each index stands for one prefix. -/
theorem find?_prefixes {indexed : Nat × Bytes} (listed : indexed ∈ prefixes)
    : prefixes.find? (fun other => other.1 == indexed.1) = some indexed := by
  simp only [prefixes, List.mem_cons, List.not_mem_nil, or_false] at listed
  rcases listed with rfl | rfl | rfl | rfl | rfl | rfl | rfl <;> rfl

/-- A name is put together again from what is stored of it. -/
theorem joinName_splitName (name : Bytes)
    : joinName (splitName name).1 (splitName name).2 = name := by
  cases found : prefixes.findSome? (stripIndexed name) with
  | none =>
      have whole : splitName name = (0, name) := by rw [splitName, found, Option.getD_none]
      rw [whole]
      rfl
  | some split =>
      obtain ⟨before, indexed, after, listed, stripped, -⟩ := List.findSome?_eq_some_iff.mp found
      have member : indexed ∈ prefixes := by
        rw [listed]
        exact List.mem_append_right _ List.mem_cons_self
      have same : splitName name = split := by rw [splitName, found, Option.getD_some]
      rw [same]
      unfold stripIndexed at stripped
      split at stripped
      next =>
        split at stripped
        next exact_ =>
          obtain rfl := Option.some.inj stripped
          rw [joinName, find?_prefixes member, exact_]
          exact List.append_nil _
        next => cases stripped
      next =>
        obtain ⟨rest, behind, rfl⟩ := Option.map_eq_some_iff.mp stripped
        rw [joinName, find?_prefixes member]
        exact List.isPrefixOf?_eq_some_iff_append_eq.mp behind

/-- What the entries of a set of attributes occupy. -/
def entriesLen (attrs : List Xattr) : Nat := (attrs.map entryLen).sum

/-- What their values occupy. -/
def valuesLen (attrs : List Xattr) : Nat := (attrs.map valueLen).sum

@[simp] theorem entriesLen_nil : entriesLen [] = 0 := rfl
@[simp] theorem valuesLen_nil : valuesLen [] = 0 := rfl

@[simp] theorem entriesLen_cons (x : Xattr) (rest : List Xattr)
    : entriesLen (x :: rest) = entryLen x + entriesLen rest := rfl

@[simp] theorem valuesLen_cons (x : Xattr) (rest : List Xattr)
    : valuesLen (x :: rest) = valueLen x + valuesLen rest := rfl

theorem sorted_perm (attrs : List Xattr) : (sorted attrs).Perm attrs := List.mergeSort_perm _ _

theorem entriesLen_sorted (attrs : List Xattr) : entriesLen (sorted attrs) = entriesLen attrs :=
  ((sorted_perm attrs).map _).sum_nat

theorem valuesLen_sorted (attrs : List Xattr) : valuesLen (sorted attrs) = valuesLen attrs :=
  ((sorted_perm attrs).map _).sum_nat

/-- A set's storage is its entries, its values and the end of the list, by induction on the set. -/
theorem packedLen_eq (attrs : List Xattr)
    : packedLen attrs = 4 + entriesLen attrs + valuesLen attrs := by
  have summed (total : Nat) : attrs.foldl (fun total x => total + entryLen x + valueLen x) total
      = total + entriesLen attrs + valuesLen attrs := by
    induction attrs generalizing total with
    | nil => rfl
    | cons x rest ih =>
        rw [List.foldl_cons, ih, entriesLen_cons, valuesLen_cons]
        omega
  exact summed 4

theorem packedLen_sorted (attrs : List Xattr) : packedLen (sorted attrs) = packedLen attrs := by
  rw [packedLen_eq, packedLen_eq, entriesLen_sorted, valuesLen_sorted]

/-- The order compares by index, then by length, then by name. -/
theorem order_eq_compareLex
    : order = compareLex (compareOn fun x => (splitName x.name).1)
        (compareLex (compareOn fun x => (splitName x.name).2.length)
          (compareOn fun x => (splitName x.name).2)) := rfl

/-- The attributes come out sorted. -/
theorem sorted_pairwise (attrs : List Xattr)
    : (sorted attrs).Pairwise fun a b => (order a b).isLE := by
  have transitive : Std.TransCmp order := by
    rw [order_eq_compareLex]
    infer_instance
  refine List.pairwise_mergeSort ?_ ?_ attrs
  · exact fun a b c first second => Std.TransCmp.isLE_trans first second
  · intro a b
    have turned : order a b = (order b a).swap := Std.OrientedCmp.eq_swap
    cases here : order b a <;> rw [turned, here] <;> rfl

/-- The bytes of an entry, its stored name included. -/
def entryBytes (nameIndex : Nat) (stored : Bytes) (valueSize valueOffs eHash : Nat) : Bytes :=
  [UInt8.ofNat stored.length] ++ ([UInt8.ofNat nameIndex] ++ (toLeBytes16 valueOffs
    ++ (toLeBytes32 0 ++ (toLeBytes32 valueSize ++ (toLeBytes32 eHash ++ stored)))))

@[simp] theorem length_entryBytes (nameIndex : Nat) (stored : Bytes)
    (valueSize valueOffs eHash : Nat)
    : (entryBytes nameIndex stored valueSize valueOffs eHash).length
      = entryHeaderLen + stored.length := by
  simp only [entryBytes, entryHeaderLen, List.length_append, List.length_singleton,
    length_toLeBytes16, length_toLeBytes32]
  omega

/-- Writing an entry is writing its bytes. -/
theorem writeEntry_eq {buf stored : Bytes} {off : Nat} (short : stored.length ≤ 255)
    (room : off + entryHeaderLen + stored.length ≤ buf.length)
    (nameIndex valueSize valueOffs eHash : Nat)
    : writeEntry buf off nameIndex stored valueSize valueOffs eHash
      = .ok (splice buf off (entryBytes nameIndex stored valueSize valueOffs eHash)) := by
  unfold entryHeaderLen at room
  rw [writeEntry, if_neg (by omega)]
  simp only [putU8, putU16, putU32, entryBytes, entryHeaderLen]
  rw [splice_behind, splice_behind, splice_behind, splice_behind, splice_behind, splice_behind]
  all_goals simp only [List.length_append, List.length_singleton, length_toLeBytes16,
    length_toLeBytes32, length_splice]
  all_goals omega

/-- Where an attribute's value begins, counted from `base`, as its entry records it. -/
def placeOf (base stop : Nat) (x : Xattr) : Nat :=
  if x.value.isEmpty then 0 else stop - valueLen x - base

/-- An attribute's entry where the values before it begin at `stop`, padded to what it occupies. -/
def record (base : Nat) (hash : Xattr → UInt32) (stop : Nat) (x : Xattr) : Bytes :=
  entryBytes (splitName x.name).1 (splitName x.name).2 x.value.length (placeOf base stop x)
      (hash x).toNat
    ++ zeros (entryLen x - (entryHeaderLen + (splitName x.name).2.length))

/-- A value padded to what it occupies. -/
def padded (x : Xattr) : Bytes := x.value ++ zeros (valueLen x - x.value.length)

/-- The entries of a set of attributes. -/
def records (base : Nat) (hash : Xattr → UInt32) : (stop : Nat) → List Xattr → Bytes
  | _, [] => []
  | stop, x :: rest => record base hash stop x ++ records base hash (stop - valueLen x) rest

/-- Their values, which grow down. -/
def values : List Xattr → Bytes
  | [] => []
  | x :: rest => values rest ++ padded x

section

variable (base : Nat) (hash : Xattr → UInt32)

@[simp] theorem length_record (stop : Nat) (x : Xattr)
    : (record base hash stop x).length = entryLen x := by
  have fits := (align4_spec (entryHeaderLen + (splitName x.name).2.length)).1
  rw [record, List.length_append, length_entryBytes, length_zeros]
  unfold entryLen
  omega

@[simp] theorem length_padded (x : Xattr) : (padded x).length = valueLen x := by
  have fits := (align4_spec x.value.length).1
  rw [padded, List.length_append, length_zeros]
  unfold valueLen
  omega

@[simp] theorem length_records (stop : Nat) (attrs : List Xattr)
    : (records base hash stop attrs).length = entriesLen attrs := by
  induction attrs generalizing stop with
  | nil => rfl
  | cons x rest ih => rw [records, List.length_append, length_record, ih, entriesLen_cons]

@[simp] theorem length_values (attrs : List Xattr) : (values attrs).length = valuesLen attrs := by
  induction attrs with
  | nil => rfl
  | cons x rest ih =>
      rw [values, List.length_append, ih, length_padded, valuesLen_cons, Nat.add_comm]

/-- Storing an attribute takes its entry from the front of the gap and its value from the back. -/
theorem store_eq {front back : Bytes} {gap : Nat} {x : Xattr}
    (short : (splitName x.name).2.length ≤ 255) (room : entryLen x + valueLen x ≤ gap)
    : Filling.store base hash ⟨front ++ zeros gap ++ back, front.length, front.length + gap⟩ x
      = .ok ⟨front ++ record base hash (front.length + gap) x
            ++ zeros (gap - (entryLen x + valueLen x)) ++ (padded x ++ back),
          front.length + entryLen x, front.length + gap - valueLen x⟩ := by
  have entryFits := (align4_spec (entryHeaderLen + (splitName x.name).2.length)).1
  have valueFits := (align4_spec x.value.length).1
  change _ ≤ entryLen x at entryFits
  change _ ≤ valueLen x at valueFits
  obtain ⟨left, rfl⟩ := Nat.exists_eq_add_of_le room
  -- The value goes to the back of the gap.
  have valued : splice (front ++ zeros (entryLen x + valueLen x + left) ++ back)
      (front.length + (entryLen x + valueLen x + left) - valueLen x) x.value
      = front ++ zeros (entryLen x + left) ++ (padded x ++ back) := by
    have cut : front ++ zeros (entryLen x + valueLen x + left) ++ back
        = (front ++ zeros (entryLen x + left)) ++ zeros x.value.length
          ++ (zeros (valueLen x - x.value.length) ++ back) := by
      rw [show entryLen x + valueLen x + left
        = entryLen x + left + (x.value.length + (valueLen x - x.value.length)) by omega,
        zeros_add, zeros_add x.value.length]
      simp only [List.append_assoc]
    have placed : front.length + (entryLen x + valueLen x + left) - valueLen x
        = (front ++ zeros (entryLen x + left)).length := by
      rw [List.length_append, length_zeros]
      omega
    rw [cut, placed, splice_between (by rw [length_zeros])]
    simp only [padded, List.append_assoc]
  -- The entry goes to the front of what is left of it.
  have entered : splice (front ++ zeros (entryLen x + left) ++ (padded x ++ back)) front.length
      (entryBytes (splitName x.name).1 (splitName x.name).2 x.value.length
        (placeOf base (front.length + (entryLen x + valueLen x + left)) x) (hash x).toNat)
      = front ++ record base hash (front.length + (entryLen x + valueLen x + left)) x
          ++ zeros left ++ (padded x ++ back) := by
    have cut : front ++ zeros (entryLen x + left) ++ (padded x ++ back)
        = front ++ zeros (entryHeaderLen + (splitName x.name).2.length)
          ++ (zeros (entryLen x - (entryHeaderLen + (splitName x.name).2.length))
            ++ (zeros left ++ (padded x ++ back))) := by
      rw [show entryLen x + left = entryHeaderLen + (splitName x.name).2.length
        + (entryLen x - (entryHeaderLen + (splitName x.name).2.length) + left) by omega,
        zeros_add, zeros_add (entryLen x - _)]
      simp only [List.append_assoc]
    rw [cut, splice_between (by rw [length_zeros, length_entryBytes])]
    simp only [record, List.append_assoc]
  have written := @writeEntry_eq (front ++ zeros (entryLen x + left) ++ (padded x ++ back)) _
    front.length short
    (by simp only [List.length_append, length_zeros]; omega) (splitName x.name).1 x.value.length
    (placeOf base (front.length + (entryLen x + valueLen x + left)) x) (hash x).toNat
  rw [entered] at written
  simp only [Filling.store]
  rw [valued]
  simp only [placeOf] at written ⊢
  rw [written, Nat.add_sub_cancel_left]
  rfl

/-- Storing a set of attributes that fits the gap, by induction on the set. -/
theorem foldlM_store_eq {front back : Bytes} {gap : Nat} {attrs : List Xattr}
    (short : ∀ x ∈ attrs, (splitName x.name).2.length ≤ 255)
    (room : entriesLen attrs + valuesLen attrs ≤ gap)
    : attrs.foldlM (Filling.store base hash)
        ⟨front ++ zeros gap ++ back, front.length, front.length + gap⟩
      = .ok ⟨front ++ records base hash (front.length + gap) attrs
            ++ zeros (gap - (entriesLen attrs + valuesLen attrs)) ++ (values attrs ++ back),
          front.length + entriesLen attrs, front.length + gap - valuesLen attrs⟩ := by
  induction attrs generalizing front back gap with
  | nil =>
      simp only [records, values, List.append_nil, List.nil_append, entriesLen_nil, valuesLen_nil,
        Nat.sub_zero, Nat.add_zero, List.foldlM_nil]
      rfl
  | cons x rest ih =>
      rw [entriesLen_cons, valuesLen_cons] at room
      have later := @ih (front ++ record base hash (front.length + gap) x) (padded x ++ back)
        (gap - (entryLen x + valueLen x)) (fun y member => short y (List.mem_cons_of_mem _ member))
        (by omega)
      have reached : front.length + entryLen x + (gap - (entryLen x + valueLen x))
          = front.length + gap - valueLen x := by omega
      rw [List.length_append, length_record, reached] at later
      rw [List.foldlM_cons, store_eq base hash (short x List.mem_cons_self) (by omega)]
      refine later.trans ?_
      rw [entriesLen_cons, valuesLen_cons, records, values]
      simp only [List.append_assoc, Nat.sub_sub, Nat.add_assoc]
      rw [show entryLen x + (valueLen x + (entriesLen rest + valuesLen rest))
        = entryLen x + (entriesLen rest + (valueLen x + valuesLen rest)) by omega]

end

/-- An inode's region as it is filled. -/
theorem encodeInline_eq {attrs : List Xattr} {regionLen : Nat} (some_ : attrs ≠ [])
    (short : ∀ x ∈ attrs, (splitName x.name).2.length ≤ 255)
    (fits : ibodyHeaderLen + packedLen attrs ≤ regionLen)
    : encodeInline attrs regionLen
      = .ok (some (toLeBytes32 magic ++ records ibodyHeaderLen (fun _ => 0) regionLen (sorted attrs)
          ++ zeros (regionLen - (ibodyHeaderLen + entriesLen attrs + valuesLen attrs))
          ++ values (sorted attrs))) := by
  have packed := packedLen_eq attrs
  have opened : putU32 (List.replicate regionLen 0) 0 magic
      = toLeBytes32 magic ++ zeros (regionLen - ibodyHeaderLen) ++ [] := by
    have cut : (List.replicate regionLen 0 : Bytes)
        = [] ++ zeros 4 ++ zeros (regionLen - ibodyHeaderLen) := by
      rw [List.nil_append, ← zeros_add, zeros]
      congr 1
      unfold ibodyHeaderLen at fits ⊢
      omega
    have written := @splice_between _ [] (zeros 4) (zeros (regionLen - ibodyHeaderLen))
      (toLeBytes32 magic) rfl
    rw [putU32, cut, List.append_nil]
    exact written
  have filled := @foldlM_store_eq ibodyHeaderLen (fun _ => 0) (toLeBytes32 magic) []
    (regionLen - ibodyHeaderLen) (sorted attrs)
    (fun x member => short x ((sorted_perm attrs).mem_iff.mp member))
    (by rw [entriesLen_sorted, valuesLen_sorted]; omega)
  have whole : (toLeBytes32 magic).length + (regionLen - ibodyHeaderLen) = regionLen := by
    rw [length_toLeBytes32]
    unfold ibodyHeaderLen at fits ⊢
    omega
  rw [whole, length_toLeBytes32] at filled
  have reaches : ¬ regionLen < ibodyHeaderLen + packedLen (sorted attrs) := by
    rw [packedLen_sorted]
    omega
  simp only [encodeInline, List.isEmpty_iff, if_neg some_, if_neg reaches, opened]
  refine (congrArg (· >>= _) filled).trans ?_
  rw [entriesLen_sorted, valuesLen_sorted, List.append_nil, Nat.sub_sub, ← Nat.add_assoc]
  rfl

/-- The header of a block of attributes, up to its checksum. -/
def blockHeader (hash : Nat) : Bytes :=
  toLeBytes32 magic ++ (toLeBytes32 1 ++ (toLeBytes32 1 ++ toLeBytes32 hash))

/-- Writing the header over a block's first bytes. -/
theorem putU32_header (hash : Nat) (rest : Bytes)
    : putU32 (putU32 (putU32 (putU32 (zeros blockHeaderLen ++ rest) 0 magic) 4 1) 8 1) 12 hash
      = blockHeader hash ++ zeros 16 ++ rest := by
  have cut : zeros blockHeaderLen ++ rest = [] ++ zeros 16 ++ (zeros 16 ++ rest) := by
    rw [List.nil_append, ← List.append_assoc, ← zeros_add]
    rfl
  have long : 32 ≤ (zeros blockHeaderLen ++ rest).length := by
    rw [List.length_append, length_zeros]
    exact Nat.le_add_right _ _
  have written := @splice_between _ [] (zeros 16) (zeros 16 ++ rest) (blockHeader hash) rfl
  simp only [putU32]
  rw [splice_behind, splice_behind, splice_behind]
  · rw [cut, List.append_assoc]
    exact written
  all_goals
    simp only [List.length_append, length_toLeBytes32, length_splice, length_zeros] at long ⊢
  all_goals omega

/-- A block as it is filled. -/
theorem encodeBlock_eq {attrs : List Xattr} {blockSize : Nat} {signed : Bool}
    (short : ∀ x ∈ attrs, (splitName x.name).2.length ≤ 255) (fits : blockLen attrs ≤ blockSize)
    : ∃ hash, encodeBlock attrs blockSize signed
      = .ok (blockHeader hash ++ zeros 16
          ++ records 0 (entryHash signed) blockSize (sorted attrs)
          ++ zeros (blockSize - (blockHeaderLen + entriesLen attrs + valuesLen attrs))
          ++ values (sorted attrs)) := by
  have packed := packedLen_eq attrs
  unfold blockLen at fits
  have opened : (List.replicate blockSize 0 : Bytes)
      = zeros blockHeaderLen ++ zeros (blockSize - blockHeaderLen) ++ [] := by
    rw [List.append_nil, ← zeros_add, zeros]
    congr 1
    omega
  have filled := @foldlM_store_eq 0 (entryHash signed) (zeros blockHeaderLen) []
    (blockSize - blockHeaderLen) (sorted attrs)
    (fun x member => short x ((sorted_perm attrs).mem_iff.mp member))
    (by rw [entriesLen_sorted, valuesLen_sorted]; omega)
  have whole : (zeros blockHeaderLen).length + (blockSize - blockHeaderLen) = blockSize := by
    rw [length_zeros]
    omega
  rw [whole, length_zeros] at filled
  have reaches : ¬ blockSize < blockLen (sorted attrs) := by
    rw [blockLen, packedLen_sorted]
    omega
  refine ⟨(blockHash ((sorted attrs).map (entryHash signed))).toNat, ?_⟩
  have apart : ¬ blockSize - valuesLen (sorted attrs) < blockHeaderLen + entriesLen (sorted attrs)
      + 4 := by
    rw [entriesLen_sorted, valuesLen_sorted]
    omega
  simp only [encodeBlock, if_neg reaches, opened]
  refine (congrArg (· >>= _) filled).trans ?_
  simp only [Checked.ok_bind, if_neg apart]
  refine congrArg Except.ok ?_
  rw [List.append_nil, List.append_assoc, List.append_assoc, putU32_header, entriesLen_sorted,
    valuesLen_sorted, Nat.sub_sub, ← Nat.add_assoc]
  simp only [List.append_assoc]

end Ferrosys.Ext.Xattr
