import Ferrosys.Ext.Xattr.Filling

/-! The walk over a region as it is filled: each turn reads the entry it has come to, and the last
one needs room for a whole header where the region promises only the end of the list.
-/

namespace Ferrosys.Ext.Xattr

open Splice Machine

/-- A name's index fits its byte. -/
theorem splitName_index (name : Bytes) : (splitName name).1 < 2 ^ 8 := by
  cases found : prefixes.findSome? (stripIndexed name) with
  | none =>
      have whole : splitName name = (0, name) := by rw [splitName, found, Option.getD_none]
      rw [whole]
      exact Nat.two_pow_pos 8
  | some split =>
      obtain ⟨before, indexed, after, listed, stripped, -⟩ := List.findSome?_eq_some_iff.mp found
      have member : indexed ∈ prefixes := by
        rw [listed]
        exact List.mem_append_right _ List.mem_cons_self
      have small : indexed.1 < 2 ^ 8 := by
        simp only [prefixes, List.mem_cons, List.not_mem_nil, or_false] at member
        rcases member with rfl | rfl | rfl | rfl | rfl | rfl | rfl <;> decide
      have same : split.1 = indexed.1 := by
        unfold stripIndexed at stripped
        split at stripped
        next =>
          split at stripped
          next => exact (Option.some.inj stripped) ▸ rfl
          next => cases stripped
        next =>
          obtain ⟨rest, -, rfl⟩ := Option.map_eq_some_iff.mp stripped
          rfl
      rw [splitName, found, Option.getD_some, same]
      exact small

/-- A name that is stored, or said by its index alone, does not read as the end of the list. -/
theorem stored_or_indexed {name : Bytes} (named : hasEmptyName name = false)
    : (splitName name).2.length ≠ 0 ∨ (splitName name).1 ≠ 0 := by
  simp only [hasEmptyName, Bool.and_eq_false_iff, Bool.not_eq_false'] at named
  rcases named with some_ | whole
  · left
    intro none_
    rw [List.eq_nil_of_length_eq_zero none_] at some_
    cases some_
  · right
    intro zero
    rw [zero] at whole
    cases whole

section

variable (nameIndex : Nat) (stored : Bytes) (valueSize valueOffs eHash : Nat) (more : Bytes)

/-- The fields of an entry read back as they were written. -/
theorem getU8_entryBytes
    : getU8 (entryBytes nameIndex stored valueSize valueOffs eHash ++ more) 0
      = stored.length % 2 ^ 8 := by
  simp [entryBytes, getU8]

theorem getU8_entryBytes_index
    : getU8 (entryBytes nameIndex stored valueSize valueOffs eHash ++ more) 1
      = nameIndex % 2 ^ 8 := by
  simp [entryBytes, getU8]

theorem getU16_entryBytes
    : getU16 (entryBytes nameIndex stored valueSize valueOffs eHash ++ more) 2
      = valueOffs % 2 ^ 16 := by
  simp only [entryBytes, List.append_assoc]
  exact (getU16_append_right [_, _] _ 0).trans (getU16_toLeBytes16_append _ _)

theorem getU32_entryBytes_inum
    : getU32 (entryBytes nameIndex stored valueSize valueOffs eHash ++ more) 4 = 0 := by
  simp only [entryBytes, List.append_assoc]
  have moved := getU32_append_right
    ([UInt8.ofNat stored.length] ++ ([UInt8.ofNat nameIndex] ++ toLeBytes16 valueOffs))
    (toLeBytes32 0 ++ (toLeBytes32 valueSize ++ (toLeBytes32 eHash ++ (stored ++ more)))) 0
  rw [getU32_toLeBytes32_append, Nat.zero_mod] at moved
  exact moved

theorem getU32_entryBytes_size
    : getU32 (entryBytes nameIndex stored valueSize valueOffs eHash ++ more) 8
      = valueSize % 2 ^ 32 := by
  simp only [entryBytes, List.append_assoc]
  exact (getU32_append_right ([_, _] ++ (toLeBytes16 _ ++ toLeBytes32 _)) _ 0).trans
    (getU32_toLeBytes32_append _ _)

theorem slice_entryBytes
    : slice (entryBytes nameIndex stored valueSize valueOffs eHash ++ more) entryHeaderLen
        stored.length = stored := by
  let head : Bytes := [UInt8.ofNat stored.length] ++ ([UInt8.ofNat nameIndex]
    ++ (toLeBytes16 valueOffs ++ (toLeBytes32 0 ++ (toLeBytes32 valueSize ++ toLeBytes32 eHash))))
  have cut : entryBytes nameIndex stored valueSize valueOffs eHash ++ more
      = head ++ (stored ++ more) := by
    simp only [head, entryBytes, List.append_assoc]
  have long : entryHeaderLen = head.length + 0 := rfl
  rw [cut, long, slice_append_right, slice, List.drop_zero, List.take_left]

end

/-- The attributes after `stop` are where their entries can say they are. -/
def Addressed (base : Nat) : (stop : Nat) → List Xattr → Prop
  | _, [] => True
  | stop, x :: rest =>
      placeOf base stop x < 2 ^ 16 ∧ x.value.length < 2 ^ 32
        ∧ Addressed base (stop - valueLen x) rest

instance (base : Nat) : (stop : Nat) → (attrs : List Xattr) → Decidable (Addressed base stop attrs)
  | _, [] => inferInstanceAs (Decidable True)
  | _, _ :: rest =>
      @instDecidableAnd _ _ _ (@instDecidableAnd _ _ _ (instDecidableAddressed base _ rest))

section

variable {base : Nat} {hash : Xattr → UInt32}

/-- A value that lies where its entry says it does is read. -/
theorem readValue_eq {buf : Bytes} {off valueBytes stop : Nat} {x : Xattr}
    (small : base < 2 ^ 16) (place : placeOf base stop x < 2 ^ 16)
    (size : x.value.length < 2 ^ 32) (offs : getU16 buf (off + 2) = placeOf base stop x)
    (inum : getU32 buf (off + 4) = 0) (sized : getU32 buf (off + 8) = x.value.length)
    (inside : base + placeOf base stop x + x.value.length ≤ buf.length)
    (there : slice buf (base + placeOf base stop x) x.value.length = x.value)
    (room : valueBytes + x.value.length ≤ buf.length)
    : readValue buf base off valueBytes
      = .ok (x.value, min (valueBytes + x.value.length) wordMax) := by
  have word : ¬ wordMax < base + placeOf base stop x + x.value.length := by
    unfold wordMax
    omega
  have within : ¬ buf.length < min (valueBytes + x.value.length) wordMax := by omega
  simp only [readValue, offs, inum, sized, ne_eq, not_true_eq_false, if_false, there]
  rw [refuseIf, refuseIf, refuseIf, decide_eq_false word, decide_eq_false within,
    decide_eq_false (Nat.not_lt.mpr inside)]
  rfl

/-- One turn of the walk reads the entry it has come to. -/
theorem parseTurn_record {front rest : Bytes} {valueBytes stop : Nat} {x : Xattr}
    {out : List Xattr} (small : base < 2 ^ 16) (aligned : front.length % 4 = 0)
    (short : (splitName x.name).2.length ≤ 255) (named : hasEmptyName x.name = false)
    (place : placeOf base stop x < 2 ^ 16) (size : x.value.length < 2 ^ 32)
    (inside : base + placeOf base stop x + x.value.length
      ≤ (front ++ record base hash stop x ++ rest).length)
    (there : slice (front ++ record base hash stop x ++ rest) (base + placeOf base stop x)
      x.value.length = x.value)
    (room : valueBytes + x.value.length ≤ (front ++ record base hash stop x ++ rest).length)
    : parseTurn (front ++ record base hash stop x ++ rest) base ⟨front.length, valueBytes, out⟩
      = .ok (.go ⟨front.length + entryLen x, min (valueBytes + x.value.length) wordMax,
          out ++ [x]⟩) := by
  have long := (align4_spec (entryHeaderLen + (splitName x.name).2.length)).1
  change _ ≤ entryLen x at long
  -- What is read is read behind the front of the region.
  let entry := record base hash stop x ++ rest
  have cut : front ++ record base hash stop x ++ rest = front ++ entry := List.append_assoc _ _ _
  have entry_eq : ∃ more, entry = entryBytes (splitName x.name).1 (splitName x.name).2
      x.value.length (placeOf base stop x) (hash x).toNat ++ more :=
    ⟨_, List.append_assoc _ _ _⟩
  obtain ⟨more, entry_eq⟩ := entry_eq
  have reach : front.length + entryLen x ≤ (front ++ entry).length := by
    rw [← cut]
    simp only [List.length_append, length_record]
    omega
  rw [cut] at inside there room ⊢
  have nameLen : getU8 (front ++ entry) front.length = (splitName x.name).2.length := by
    rw [← Nat.add_zero front.length, getU8_append_right, entry_eq, getU8_entryBytes]
    omega
  have nameIndex : getU8 (front ++ entry) (front.length + 1) = (splitName x.name).1 := by
    rw [getU8_append_right, entry_eq, getU8_entryBytes_index]
    exact Nat.mod_eq_of_lt (splitName_index x.name)
  have offs : getU16 (front ++ entry) (front.length + 2) = placeOf base stop x := by
    rw [getU16_append_right, entry_eq, getU16_entryBytes]
    omega
  have inum : getU32 (front ++ entry) (front.length + 4) = 0 := by
    rw [getU32_append_right, entry_eq, getU32_entryBytes_inum]
  have sized : getU32 (front ++ entry) (front.length + 8) = x.value.length := by
    rw [getU32_append_right, entry_eq, getU32_entryBytes_size]
    omega
  have nonzero : getU32 (front ++ entry) front.length ≠ 0 := by
    rw [getU32, getU16, nameLen, nameIndex]
    have := stored_or_indexed named
    omega
  have stored : slice (front ++ entry) (front.length + entryHeaderLen)
      (splitName x.name).2.length = (splitName x.name).2 := by
    rw [slice_append_right, entry_eq, slice_entryBytes]
  have value := readValue_eq small place size offs inum sized inside there room
  have next : align4 (front.length + entryHeaderLen + (splitName x.name).2.length)
      = front.length + entryLen x := by
    rw [Nat.add_assoc, align4_add aligned]
    rfl
  simp only [parseTurn]
  rw [refuseIf, decide_eq_false (by omega), nameLen, nameIndex, refuseIf,
    decide_eq_false (by omega), stored, value, next, joinName_splitName]
  simp only [if_neg nonzero]
  rfl

/-- Reading a value where it was packed. -/
theorem slice_values {front back : Bytes} {x : Xattr}
    : slice (front ++ (padded x ++ back)) front.length x.value.length = x.value := by
  rw [← Nat.add_zero front.length, slice_append_right, padded, List.append_assoc, slice,
    List.drop_zero, List.take_left]

/-- The walk reads the entries of a region one after another, by induction on them. -/
theorem run_records {buf front back : Bytes} {gap valueBytes stop : Nat} {attrs out : List Xattr}
    (small : base < 2 ^ 16) (aligned : front.length % 4 = 0) (behind : base ≤ front.length)
    (laid : buf = front ++ records base hash stop attrs ++ zeros gap ++ (values attrs ++ back))
    (stops : stop + back.length = buf.length)
    (short : ∀ x ∈ attrs, (splitName x.name).2.length ≤ 255)
    (named : ∀ x ∈ attrs, hasEmptyName x.name = false) (addressed : Addressed base stop attrs)
    (room : valueBytes + valuesLen attrs ≤ buf.length)
    : ∃ valueBytes', ∀ turns,
        Loop.run (fun self => Loop.orStop (parseTurn buf base self)) (attrs.length + turns)
            ⟨front.length, valueBytes, out⟩
          = Loop.run (fun self => Loop.orStop (parseTurn buf base self)) turns
            ⟨front.length + entriesLen attrs, valueBytes', out ++ attrs⟩ := by
  induction attrs generalizing front back valueBytes stop out with
  | nil =>
      refine ⟨valueBytes, fun turns => ?_⟩
      rw [List.length_nil, Nat.zero_add, entriesLen_nil, Nat.add_zero, List.append_nil]
  | cons x rest ih =>
      obtain ⟨place, size, later⟩ := addressed
      have fits := (align4_spec x.value.length).1
      change _ ≤ valueLen x at fits
      have entryAligned : entryLen x % 4 = 0 := (align4_spec _).2.2
      rw [valuesLen_cons] at room
      have laidNext : buf = (front ++ record base hash stop x)
          ++ records base hash (stop - valueLen x) rest ++ zeros gap
          ++ (values rest ++ (padded x ++ back)) := by
        rw [laid, records, values]
        simp only [List.append_assoc]
      have long := congrArg List.length laidNext
      simp only [List.length_append, length_record, length_records, length_zeros, length_values,
        length_padded] at long
      have inside : base + placeOf base stop x + x.value.length ≤ buf.length := by
        unfold placeOf
        split
        next empty =>
          rw [List.isEmpty_iff.mp empty, List.length_nil]
          omega
        next => omega
      have there : slice buf (base + placeOf base stop x) x.value.length = x.value := by
        by_cases empty : x.value = []
        · rw [empty]
          rfl
        · have packed := @slice_values (front ++ record base hash stop x
            ++ records base hash (stop - valueLen x) rest ++ zeros gap ++ values rest) back x
          have at_ : base + placeOf base stop x = (front ++ record base hash stop x
              ++ records base hash (stop - valueLen x) rest ++ zeros gap
              ++ values rest).length := by
            simp only [List.length_append, length_record, length_records, length_zeros,
              length_values]
            rw [placeOf, if_neg (by simpa using empty)]
            omega
          rw [at_, laidNext]
          simpa only [List.append_assoc] using packed
      have laidHere : buf = front ++ record base hash stop x
          ++ (records base hash (stop - valueLen x) rest ++ zeros gap
            ++ (values rest ++ (padded x ++ back))) := by
        rw [laidNext]
        simp only [List.append_assoc]
      have turn := @parseTurn_record base hash front
        (records base hash (stop - valueLen x) rest ++ zeros gap
          ++ (values rest ++ (padded x ++ back))) valueBytes stop x out small aligned
        (short x List.mem_cons_self) (named x List.mem_cons_self) place size
        (laidHere ▸ inside) (laidHere ▸ there) (by rw [← laidHere]; omega)
      rw [← laidHere] at turn
      obtain ⟨valueBytes', runs⟩ := @ih (front ++ record base hash stop x) (padded x ++ back)
        (min (valueBytes + x.value.length) wordMax) (stop - valueLen x) (out ++ [x])
        (by rw [List.length_append, length_record]; omega)
        (by rw [List.length_append]; omega) laidNext
        (by rw [List.length_append, length_padded]; omega)
        (fun y member => short y (List.mem_cons_of_mem _ member))
        (fun y member => named y (List.mem_cons_of_mem _ member)) later (by omega)
      refine ⟨valueBytes', fun turns => ?_⟩
      rw [List.length_append, length_record, List.append_assoc, List.singleton_append] at runs
      rw [List.length_cons, Nat.add_right_comm, Loop.run, turn, entriesLen_cons, ← Nat.add_assoc]
      exact runs turns

/-- Behind the last entry the walk ends, or finds no room for the header of one. -/
theorem parseTurn_end {buf front back : Bytes} {gap valueBytes : Nat} {out : List Xattr}
    (laid : buf = front ++ zeros gap ++ back) (enough : 4 ≤ gap)
    : Loop.orStop (parseTurn buf base ⟨front.length, valueBytes, out⟩)
      = .stop (if buf.length < front.length + entryHeaderLen
          then .error (.refused (.tooShort "XattrEntry" (front.length + entryHeaderLen) buf.length))
          else .ok out) := by
  have zero : getU32 buf front.length = 0 := by
    obtain ⟨more, rfl⟩ := Nat.exists_eq_add_of_le enough
    rw [laid, List.append_assoc, ← Nat.add_zero front.length, getU32_append_right, zeros_add,
      List.append_assoc, show zeros 4 = toLeBytes32 0 from rfl, getU32_toLeBytes32_append,
      Nat.zero_mod]
  simp only [parseTurn, zero]
  by_cases over_ : buf.length < front.length + entryHeaderLen
  · rw [refuseIf, decide_eq_true over_, if_pos over_]
    rfl
  · rw [refuseIf, decide_eq_false over_, if_neg over_]
    rfl

/-- Sixteen bytes of each entry bound how many there are, by induction on them. -/
theorem length_le_entriesLen (attrs : List Xattr) : attrs.length ≤ entriesLen attrs := by
  induction attrs with
  | nil => exact Nat.le_refl 0
  | cons x rest ih =>
      have long : entryHeaderLen + (splitName x.name).2.length ≤ entryLen x := (align4_spec _).1
      unfold entryHeaderLen at long
      rw [List.length_cons, entriesLen_cons]
      omega

/-- Walking the entries of a region as it is filled answers with all of them where there is room
for one more header behind them, and otherwise refuses the region.
-/
theorem parseEntries_eq {buf front : Bytes} {gap : Nat} {attrs : List Xattr}
    (small : base < 2 ^ 16) (aligned : front.length % 4 = 0) (behind : base ≤ front.length)
    (laid : buf = front ++ records base hash buf.length attrs ++ zeros gap ++ values attrs)
    (enough : 4 ≤ gap) (short : ∀ x ∈ attrs, (splitName x.name).2.length ≤ 255)
    (named : ∀ x ∈ attrs, hasEmptyName x.name = false)
    (addressed : Addressed base buf.length attrs)
    : parseEntries buf front.length base
      = if buf.length < front.length + entriesLen attrs + entryHeaderLen
        then .error (.refused
          (.tooShort "XattrEntry" (front.length + entriesLen attrs + entryHeaderLen) buf.length))
        else .ok attrs := by
  have long := congrArg List.length laid
  simp only [List.length_append, length_records, length_zeros, length_values] at long
  have few := length_le_entriesLen attrs
  obtain ⟨valueBytes, runs⟩ := @run_records base hash buf front [] gap 0 buf.length attrs [] small
    aligned behind (by rw [List.append_nil]; exact laid) rfl short named addressed (by omega)
  obtain ⟨turns, counted⟩ := Nat.exists_eq_add_of_le (show attrs.length ≤ buf.length by omega)
  have ended := @parseTurn_end base buf (front ++ records base hash buf.length attrs)
    (values attrs) gap valueBytes attrs laid enough
  rw [List.length_append, length_records] at ended
  rw [parseEntries, show buf.length + 1 = attrs.length + (turns + 1) by omega, runs (turns + 1),
    Loop.run, List.nil_append, ended]
  rfl

end

end Ferrosys.Ext.Xattr
