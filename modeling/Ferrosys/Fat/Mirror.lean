import Ferrosys.Fat.Coherence
import Ferrosys.Library.Loop

/-! The copies of the table held against each other, a batch of sectors at a time. The first byte in
which two copies differ is traced back to the entry it belongs to, and what is reported is right
exactly where the difference is in bits that an entry has.
-/

namespace Ferrosys.Fat

open Checked Loop Splice

/-- The parameter block says only one table is live. -/
def BootSector.mirroringDisabled (boot : BootSector) : Bool :=
  match boot.tail with
  | .fat32 params _ => params.extFlags &&& 0x80 != 0
  | .fat1216 _ => false

/-- The entry that the byte at `at_` of a table belongs to, or the first of two. -/
def candidateAt (fatType : FatType) (at_ : Nat) : Nat :=
  match fatType with
  | .fat12 => at_ * 2 / 3
  | .fat16 => at_ / 2
  | .fat32 => at_ / 4

/-- The second entry a byte belongs to: the middle byte of a FAT12 pair holds the top of one entry and
the bottom of the next.
-/
def sharedAt (fatType : FatType) (at_ highest : Nat) : Option Nat :=
  match fatType with
  | .fat12 =>
      if at_ % 3 = 1 ∧ candidateAt .fat12 at_ < highest then some (candidateAt .fat12 at_ + 1)
      else none
  | .fat16 | .fat32 => none

/-- The bits of the byte at `at_` that entries up to `highest` have: all of them, but for FAT32's top
four of an entry, and the half of FAT12's last byte that the entry past `highest` would begin in.
-/
def ownedBits (fatType : FatType) (at_ highest : Nat) : Nat :=
  match fatType with
  | .fat12 => if at_ % 3 = 1 ∧ highest ≤ candidateAt .fat12 at_ then 0x0F else 0xFF
  | .fat16 => 0xFF
  | .fat32 => if at_ % 4 = 3 then 0x0F else 0xFF

/-- Two tables disagree about the entry for `cluster`. -/
def EntryDiffers (fatType : FatType) (table other : Bytes) (cluster : Nat) : Prop :=
  Table.readEntry fatType table cluster ≠ Table.readEntry fatType other cluster

instance (fatType : FatType) (table other : Bytes) (cluster : Nat)
    : Decidable (EntryDiffers fatType table other cluster) := inferInstanceAs (Decidable (_ ≠ _))

/-- The byte at `at_` is the first in which two tables differ. -/
def FirstDiffers (table other : Bytes) (at_ : Nat) : Prop :=
  (∀ before < at_, getU8 table before = getU8 other before)
    ∧ getU8 table at_ ≠ getU8 other at_

section
variable {table other : Bytes} {at_ highest : Nat}

theorem readEntry_of_fits {fatType : FatType} {cluster : Nat}
    (held : Table.fits fatType cluster table.length = true)
    : Table.readEntry fatType table cluster
      = some
          (match fatType with
          | .fat12 =>
              if cluster % 2 = 0 then getU16 table (entryOffset .fat12 cluster) &&& 0xFFF
              else getU16 table (entryOffset .fat12 cluster) / 2 ^ 4
          | .fat16 => getU16 table (entryOffset .fat16 cluster)
          | .fat32 => getU32 table (entryOffset .fat32 cluster) &&& entryMask .fat32) := by
  unfold Table.readEntry
  rw [if_pos held]
  cases fatType <;> rfl

/-- An entry whose bytes agree is the same entry. -/
theorem not_entryDiffers_of_bytes {fatType : FatType} {cluster : Nat}
    (sized : table.length = other.length)
    (same
      : ∀ i < entrySpan fatType, getU8 table (entryOffset fatType cluster + i)
          = getU8 other (entryOffset fatType cluster + i))
    : ¬ EntryDiffers fatType table other cluster := by
  unfold EntryDiffers
  rw [not_not]
  unfold Table.readEntry
  rw [sized]
  cases fatType with
  | fat12 =>
      have first := same 0 (by decide)
      have second := same 1 (by decide)
      simp only [Nat.add_zero] at first
      simp only [getU16, first, second]
  | fat16 =>
      have first := same 0 (by decide)
      have second := same 1 (by decide)
      simp only [Nat.add_zero] at first
      simp only [getU16, first, second]
  | fat32 =>
      have first := same 0 (by decide)
      have second := same 1 (by decide)
      have third := same 2 (by decide)
      have fourth := same 3 (by decide)
      simp only [Nat.add_zero] at first
      simp only [getU32, getU16, first, second, third, Nat.add_assoc, fourth]

/-- The entries before the one a first difference belongs to agree. -/
theorem FirstDiffers.agrees_before (differs : FirstDiffers table other at_) {fatType : FatType}
    (sized : table.length = other.length) {cluster : Nat}
    (before : entryOffset fatType cluster + entrySpan fatType ≤ at_)
    : ¬ EntryDiffers fatType table other cluster :=
  not_entryDiffers_of_bytes sized fun i short => differs.1 _ (by omega)

/-- Entries before the first a byte belongs to end before it. -/
theorem entry_ends_before {fatType : FatType} {cluster : Nat}
    (before : cluster < candidateAt fatType at_)
    : entryOffset fatType cluster + entrySpan fatType ≤ at_ := by
  cases fatType <;> simp only [candidateAt, entryOffset, entrySpan] at before ⊢ <;> omega

/-- A byte the highest entry reaches belongs to an entry no higher. -/
theorem candidateAt_le {fatType : FatType}
    (live : at_ < entryOffset fatType highest + entrySpan fatType)
    : candidateAt fatType at_ ≤ highest := by
  cases fatType <;> simp only [candidateAt, entryOffset, entrySpan] at live ⊢ <;> omega

theorem sharedAt_eq_some {fatType : FatType} {cluster : Nat}
    (shared : sharedAt fatType at_ highest = some cluster)
    : fatType = .fat12 ∧ at_ % 3 = 1 ∧ cluster = candidateAt fatType at_ + 1
      ∧ cluster ≤ highest := by
  cases fatType with
  | fat12 =>
      simp only [sharedAt, Option.ite_none_right_eq_some, Option.some.injEq] at shared
      obtain ⟨⟨middle, below⟩, rfl⟩ := shared
      exact ⟨rfl, middle, rfl, below⟩
  | fat16 => cases shared
  | fat32 => cases shared

theorem and_byte {b : Nat} (byte : b < 2 ^ 8) : b &&& 0xFF = b :=
  (Nat.and_two_pow_sub_one_eq_mod b 8).trans (Nat.mod_eq_of_lt byte)

theorem and_nibble (b : Nat) : b &&& 0x0F = b % 16 := Nat.and_two_pow_sub_one_eq_mod b 4

/-- FAT12's even numbers have a byte and the low half of the next. -/
theorem fat12_even {k : Nat} (held : Table.fits .fat12 (2 * k) table.length = true)
    : Table.readEntry .fat12 table (2 * k)
      = some (getU8 table (3 * k) + getU8 table (3 * k + 1) % 16 * 2 ^ 8) := by
  have low := getU8_lt table (3 * k)
  have offset : entryOffset .fat12 (2 * k) = 3 * k := by simp only [entryOffset]; omega
  rw [readEntry_of_fits held]
  simp only [Nat.mul_mod_right, if_true, offset, getU16, Option.some.injEq]
  rw [show (0xFFF : Nat) = 2 ^ 12 - 1 from rfl, Nat.and_two_pow_sub_one_eq_mod]
  omega

/-- FAT12's odd numbers have the high half of a byte and the next. -/
theorem fat12_odd {k : Nat} (held : Table.fits .fat12 (2 * k + 1) table.length = true)
    : Table.readEntry .fat12 table (2 * k + 1)
      = some (getU8 table (3 * k + 1) / 16 + getU8 table (3 * k + 2) * 16) := by
  have offset : entryOffset .fat12 (2 * k + 1) = 3 * k + 1 := by simp only [entryOffset]; omega
  rw [readEntry_of_fits held]
  simp only [Nat.mul_add_mod_self_left, offset, getU16, Option.some.injEq]
  rw [if_neg (by decide), show 3 * k + 1 + 1 = 3 * k + 2 from rfl]
  omega

/-- Two words of two bytes are the same where both bytes are. -/
theorem getU16_eq_iff {off : Nat}
    : getU16 table off = getU16 other off
      ↔ getU8 table off = getU8 other off ∧ getU8 table (off + 1) = getU8 other (off + 1) := by
  have low := getU8_lt table off
  have low' := getU8_lt other off
  unfold getU16
  omega

section
variable (differs : FirstDiffers table other at_) (sized : table.length = other.length)
include differs sized

/-- A first difference in a byte of FAT16 is one in the entry it belongs to. -/
theorem FirstDiffers.fat16_iff
    (held : Table.fits .fat16 (candidateAt .fat16 at_) table.length = true)
    : EntryDiffers .fat16 table other (candidateAt .fat16 at_) := by
  rw [EntryDiffers, readEntry_of_fits held, readEntry_of_fits (sized ▸ held)]
  have there := differs.2
  simp only [candidateAt, entryOffset, ne_eq, Option.some.injEq, getU16_eq_iff]
  rintro ⟨low, high⟩
  rcases Nat.mod_two_eq_zero_or_one at_ with even | odd
  · rw [show at_ = at_ / 2 * 2 by omega] at there
    exact there low
  · rw [show at_ = at_ / 2 * 2 + 1 by omega] at there
    exact there high

/-- A first difference in a byte of FAT32 is one in the entry it belongs to, unless it is in the
entry's top four bits.
-/
theorem FirstDiffers.fat32_iff
    (held : Table.fits .fat32 (candidateAt .fat32 at_) table.length = true)
    : EntryDiffers .fat32 table other (candidateAt .fat32 at_)
      ↔ getU8 table at_ &&& ownedBits .fat32 at_ highest
        ≠ getU8 other at_ &&& ownedBits .fat32 at_ highest := by
  have there := differs.2
  have byte := getU8_lt table at_
  have byte' := getU8_lt other at_
  have mask : ∀ n, n &&& entryMask .fat32 = n % 2 ^ 28 := fun n =>
    Nat.and_two_pow_sub_one_eq_mod n 28
  rw [EntryDiffers, readEntry_of_fits held, readEntry_of_fits (sized ▸ held)]
  simp only [candidateAt, entryOffset, ne_eq, Option.some.injEq, mask, ownedBits, getU32, getU16]
  have b0 := getU8_lt table (at_ / 4 * 4)
  have b1 := getU8_lt table (at_ / 4 * 4 + 1)
  have b2 := getU8_lt table (at_ / 4 * 4 + 2)
  have b3 := getU8_lt table (at_ / 4 * 4 + 2 + 1)
  have c0 := getU8_lt other (at_ / 4 * 4)
  have c1 := getU8_lt other (at_ / 4 * 4 + 1)
  have c2 := getU8_lt other (at_ / 4 * 4 + 2)
  have c3 := getU8_lt other (at_ / 4 * 4 + 2 + 1)
  by_cases last : at_ % 4 = 3
  · rw [if_pos last, and_nibble, and_nibble]
    have same0 := differs.1 (at_ / 4 * 4) (by omega)
    have same1 := differs.1 (at_ / 4 * 4 + 1) (by omega)
    have same2 := differs.1 (at_ / 4 * 4 + 2) (by omega)
    have here : at_ / 4 * 4 + 2 + 1 = at_ := by omega
    rw [here] at b3 c3 ⊢
    omega
  · rw [if_neg last, and_byte byte, and_byte byte']
    refine iff_of_true (fun same => there ?_) there
    have places : at_ = at_ / 4 * 4 ∨ at_ = at_ / 4 * 4 + 1 ∨ at_ = at_ / 4 * 4 + 2 := by omega
    rcases places with place | place | place <;> rw [place] <;> omega

/-- A first difference in a byte of FAT12 is one in an entry the byte belongs to, unless it is in
the half of the last byte that no entry has.
-/
theorem FirstDiffers.fat12_iff
    (held : ∀ cluster ≤ highest, Table.fits .fat12 cluster table.length = true)
    (below : candidateAt .fat12 at_ ≤ highest)
    : (EntryDiffers .fat12 table other (candidateAt .fat12 at_)
        ∨ ∃ cluster, sharedAt .fat12 at_ highest = some cluster
          ∧ EntryDiffers .fat12 table other cluster)
      ↔ getU8 table at_ &&& ownedBits .fat12 at_ highest
        ≠ getU8 other at_ &&& ownedBits .fat12 at_ highest := by
  have there := differs.2
  have byte := getU8_lt table at_
  have byte' := getU8_lt other at_
  have held' := held
  rw [sized] at held'
  have place : at_ = 3 * (at_ / 3) + at_ % 3 := by omega
  generalize at_ / 3 = k at place
  have rest := Nat.mod_lt at_ (show 0 < 3 by decide)
  interval_cases r : at_ % 3
  · have first : candidateAt .fat12 at_ = 2 * k := by simp only [candidateAt]; omega
    rw [place, Nat.add_zero] at there
    have whole : ownedBits .fat12 at_ highest = 0xFF := if_neg (by omega)
    rw [whole, and_byte byte, and_byte byte', first, EntryDiffers, fat12_even (held _ (by omega)),
      fat12_even (held' _ (by omega))]
    have same1 := getU8_lt table (3 * k)
    have same2 := getU8_lt other (3 * k)
    refine iff_of_true (.inl ?_) differs.2
    rw [ne_eq, Option.some.injEq]
    omega
  · have first : candidateAt .fat12 at_ = 2 * k := by simp only [candidateAt]; omega
    have same := differs.1 (3 * k) (by omega)
    by_cases last : highest ≤ candidateAt .fat12 at_
    · have half : ownedBits .fat12 at_ highest = 0x0F := if_pos ⟨r, last⟩
      have alone : sharedAt .fat12 at_ highest = none := if_neg (by omega)
      rw [half, and_nibble, and_nibble, alone, first, EntryDiffers,
        fat12_even (held _ (by omega)), fat12_even (held' _ (by omega)), same, ne_eq,
        Option.some.injEq, ← place]
      simp only [reduceCtorEq, false_and, exists_false, or_false]
      omega
    · have whole : ownedBits .fat12 at_ highest = 0xFF := if_neg (by omega)
      have shared : sharedAt .fat12 at_ highest = some (2 * k + 1) := by
        rw [sharedAt, if_pos ⟨r, by omega⟩, first]
      rw [whole, and_byte byte, and_byte byte', shared, first]
      refine iff_of_true ?_ there
      by_cases low : getU8 table at_ % 16 = getU8 other at_ % 16
      · refine .inr ⟨_, rfl, ?_⟩
        rw [EntryDiffers, fat12_odd (held _ (by omega)), fat12_odd (held' _ (by omega)), ne_eq,
          Option.some.injEq, ← place]
        omega
      · refine .inl ?_
        rw [EntryDiffers, fat12_even (held _ (by omega)), fat12_even (held' _ (by omega)), same,
          ne_eq, Option.some.injEq, ← place]
        omega
  · have first : candidateAt .fat12 at_ = 2 * k + 1 := by simp only [candidateAt]; omega
    have whole : ownedBits .fat12 at_ highest = 0xFF := if_neg (by omega)
    rw [whole, and_byte byte, and_byte byte', first, EntryDiffers, fat12_odd (held _ (by omega)),
      fat12_odd (held' _ (by omega))]
    refine iff_of_true (.inl ?_) there
    have same1 := getU8_lt table (3 * k + 1)
    have same2 := getU8_lt other (3 * k + 1)
    rw [ne_eq, Option.some.injEq, ← place]
    omega

/-- A first difference below where the entries stop is one in an entry it belongs to exactly where
it is in a bit that some entry has.
-/
theorem FirstDiffers.owned_iff {fatType : FatType}
    (held : ∀ cluster ≤ highest, Table.fits fatType cluster table.length = true)
    (live : at_ < entryOffset fatType highest + entrySpan fatType)
    : (EntryDiffers fatType table other (candidateAt fatType at_)
        ∨ ∃ cluster, sharedAt fatType at_ highest = some cluster
          ∧ EntryDiffers fatType table other cluster)
      ↔ getU8 table at_ &&& ownedBits fatType at_ highest
        ≠ getU8 other at_ &&& ownedBits fatType at_ highest := by
  have below := candidateAt_le live
  cases fatType with
  | fat12 => exact differs.fat12_iff sized held below
  | fat16 =>
      have byte := getU8_lt table at_
      have byte' := getU8_lt other at_
      simp only [sharedAt, reduceCtorEq, false_and, exists_false, or_false]
      rw [show ownedBits .fat16 at_ highest = 0xFF from rfl, and_byte byte, and_byte byte']
      exact iff_of_true (differs.fat16_iff sized (held _ below)) differs.2
  | fat32 =>
      simp only [sharedAt, reduceCtorEq, false_and, exists_false, or_false]
      exact differs.fat32_iff sized (held _ below)

end

end

/-- Where two buffers of one length first differ. -/
theorem findIdx?_zip_eq_some {a b : Bytes} (sized : a.length = b.length) {within : Nat}
    (found : (a.zip b).findIdx? (fun pair => pair.1 != pair.2) = some within)
    : within < a.length ∧ FirstDiffers a b within := by
  obtain ⟨inside, here, before⟩ := List.findIdx?_eq_some_iff_getElem.mp found
  rw [List.length_zip, ← sized, Nat.min_self] at inside
  have byte : ∀ (buf : Bytes) i (h : i < buf.length), getU8 buf i = buf[i].toNat := by
    intro buf i h
    rw [getU8, List.getElem?_eq_getElem h, Option.getD_some]
  refine ⟨inside, fun i early => ?_, ?_⟩
  · have same := before i early
    rw [byte a i (by omega), byte b i (by omega)]
    exact congrArg UInt8.toNat (by simpa using same)
  · rw [byte a _ inside, byte b _ (by omega), Ne, UInt8.toNat_inj]
    simpa using here

/-- Buffers that differ nowhere are the same. -/
theorem eq_of_findIdx?_zip_eq_none {a b : Bytes} (sized : a.length = b.length)
    (none_ : (a.zip b).findIdx? (fun pair => pair.1 != pair.2) = none) : a = b := by
  rw [List.findIdx?_eq_none_iff] at none_
  refine List.ext_getElem sized fun i first second => ?_
  have inside : i < (a.zip b).length := by rw [List.length_zip]; omega
  have same := none_ _ (List.getElem_mem inside)
  simpa using same

theorem eq_of_getU8 {a b : Bytes} (sized : a.length = b.length)
    (same : ∀ i < a.length, getU8 a i = getU8 b i) : a = b := by
  refine List.ext_getElem sized fun i first second => ?_
  have byte := same i first
  rw [getU8, getU8, List.getElem?_eq_getElem first, List.getElem?_eq_getElem second] at byte
  exact UInt8.toNat_inj.mp byte

/-- A piece of a buffer is read where the buffer has it. -/
theorem getU8_slice {buf : Bytes} {at_ len i : Nat} (short : i < len)
    : getU8 (slice buf at_ len) i = getU8 buf (at_ + i) := by
  rw [getU8, getU8, getElem?_slice, if_pos short]

namespace Reader

variable (self : Reader)

/-- The entry for `cluster` in copy `index` of the table, read without the window. -/
def tableEntryIn (index cluster : Nat) : Except ReadError Nat := do
  Checked.refuseIf (cluster ≥ self.layout.maxTableEntries) (.clusterOutOfRange cluster)
  let offset := entryOffset self.layout.fatType cluster
  let sectorInTable := offset / self.layout.bytesPerSector
  let within := offset % self.layout.bytesPerSector
  Checked.refuseIf (sectorInTable > u32Max) (.clusterOutOfRange cluster)
  let first ← okOr (self.layout.fatStartSector index) (.clusterOutOfRange cluster)
  Checked.refuseIf (first + sectorInTable > u32Max) (.clusterOutOfRange cluster)
  let bytes ← self.readSectors (first + sectorInTable) (self.tableWindowSectors sectorInTable)
  okOr (readEntry self.layout.fatType (bytes.drop within) cluster) (.clusterOutOfRange cluster)

/-- The highest cluster number. -/
def highest : Nat := self.layout.clusters + 1

/-- Where the entries stop and the padding begins: past the last byte the highest cluster's entry
touches.
-/
def liveBytes : Nat :=
  entryOffset self.layout.fatType self.highest + entrySpan self.layout.fatType

/-- The first of `clusters` whose entries differ between the first copy and `copy`. -/
def firstMismatch (copy : Nat) : List Nat → Except ReadError (Option (Nat × Nat × Nat))
  | [] => .ok none
  | cluster :: rest => do
      let first ← self.tableEntryIn 0 cluster
      let other ← self.tableEntryIn copy cluster
      if first ≠ other then return some (cluster, first, other) else firstMismatch copy rest

/-- The report for a byte in which two copies differ. -/
def mismatchAt (copy at_ : Nat) : Except ReadError ReadError := do
  let candidate := candidateAt self.layout.fatType at_
  let shared := sharedAt self.layout.fatType at_ self.highest
  match ← self.firstMismatch copy (candidate :: shared.toList) with
  | some (cluster, first, other) => return .tableMismatch copy cluster first other
  | none =>
      let first ← self.tableEntryIn 0 candidate
      let other ← self.tableEntryIn copy candidate
      return .tableMismatch copy candidate first other

/-- Where a comparison has come to, and whether only padding has differed. -/
structure Comparing where
  sector : Nat
  paddingOnly : Bool
deriving DecidableEq

/-- One turn of comparing `copy` with the first: a batch of sectors of each. -/
def compareStep (copy firstStart copyStart : Nat) (comparing : Comparing)
    : Next Comparing (Except ReadError (Option ReadError)) :=
  let sectors := self.layout.fatSectors
  let batch := 2 ^ 20 / max self.layout.bytesPerSector 1
  let s := comparing.sector
  if s < sectors then
    let count := min (max batch 1) (sectors - s)
    orStop do
      let a ← self.readSectors (firstStart + s) count
      let b ← self.readSectors (copyStart + s) count
      -- Two batches of one length that are not the same differ in a byte.
      match (a.zip b).findIdx? fun pair => pair.1 != pair.2 with
      | none => return .go { comparing with sector := s + count }
      | some within =>
          let at_ := within + s * self.layout.bytesPerSector
          if at_ ≥ self.liveBytes then
            return .go { sector := s + count, paddingOnly := true }
          else
            let report ← self.mismatchAt copy at_
            return .stop (.ok (some report))
  else .stop (.ok (if comparing.paddingOnly then some (.tablePaddingMismatch copy) else none))

/-- Every batch is of a sector or more. -/
theorem compareStep_lowers (copy firstStart copyStart : Nat)
    : Lowers (self.compareStep copy firstStart copyStart)
        fun comparing => self.layout.fatSectors - comparing.sector := by
  intro comparing next went
  simp only [compareStep] at went
  split at went
  · next more =>
      have turn := orStop_eq_go went
      obtain ⟨a, -, turn⟩ := bind_eq_ok.mp turn
      obtain ⟨b, -, turn⟩ := bind_eq_ok.mp turn
      have some_ : 0 < min (max (2 ^ 20 / max self.layout.bytesPerSector 1) 1)
          (self.layout.fatSectors - comparing.sector) := by omega
      generalize min (max (2 ^ 20 / max self.layout.bytesPerSector 1) 1)
        (self.layout.fatSectors - comparing.sector) = count at *
      split at turn
      · cases turn
        simp only
        omega
      · split at turn
        · cases turn
          simp only
          omega
        · obtain ⟨report, -, turn⟩ := bind_eq_ok.mp turn
          cases turn
  · cases went

/-- What comparing `copy` with the first reports, where both have their place. -/
def compareCopy (copy : Nat) : Except ReadError (Option ReadError) :=
  match self.layout.fatStartSector 0, self.layout.fatStartSector copy with
  | some firstStart, some copyStart =>
      total (self.compareStep copy firstStart copyStart) _
        (self.compareStep_lowers copy firstStart copyStart) ⟨0, false⟩
  | _, _ => .ok none

/-- Every way the copies of the table disagree, in the order found. -/
def tableFaults (boot : BootSector) : Except ReadError (List ReadError) :=
  if boot.mirroringDisabled || self.layout.fats < 2 then .ok []
  else do
    let reports ← (List.range' 1 (self.layout.fats - 1)).mapM self.compareCopy
    return reports.reduceOption

section
variable {self} {boot : BootSector} (opened : self.Opened boot)
include opened

/-- Every copy has an entry for every number up to the highest. -/
theorem Opened.fits_copy {index cluster : Nat} (copy : index < self.layout.fats)
    (most : cluster ≤ self.highest)
    : Table.fits self.layout.fatType cluster (self.copyTable index).length = true := by
  rw [opened.length_copyTable copy]
  exact opened.accepted.fits_of_le most

/-- An entry read from one copy is the whole copy's, where the copy has it. -/
theorem Opened.tableEntryIn_eq {index cluster : Nat} (copy : index < self.layout.fats)
    (most : cluster ≤ self.highest)
    : ∃ entry, self.tableEntryIn index cluster = .ok entry
      ∧ Table.readEntry self.layout.fatType (self.copyTable index) cluster = some entry := by
  have fits := opened.fits_copy copy most
  have narrow : cluster < 2 ^ 32 := most.trans_lt opened.accepted.clusters_lt
  have inside := (Table.fits_iff narrow).mp fits
  rw [opened.length_copyTable copy] at inside
  have low := self.layout.lt_tableEntries_iff.mpr inside
  have sector := self.entry_sector low
  obtain ⟨start, sectors⟩ := opened.copy_sectors copy
  obtain ⟨fit, room⟩ :=
    self.window_room opened.accepted.sector opened.fatSectors_lt sector inside
  have wide : u32Max = 2 ^ 32 - 1 := rfl
  have total := opened.accepted.total
  obtain ⟨read, stored⟩ := opened.readSectors_eq (le_trans (Nat.add_assoc _ _ _).le
    ((Nat.add_le_add_left fit _).trans sectors))
  rw [Nat.add_mul] at stored
  refine ⟨_, ?_, readEntry_of_fits fits⟩
  have counted : ¬ cluster ≥ self.layout.maxTableEntries := by
    have := opened.accepted.count.2
    have : self.layout.fatType.maxClusters + 1 < u32Max := by
      cases self.layout.fatType <;> decide
    rw [FatLayout.maxTableEntries_eq]
    simp only [highest] at most
    omega
  have near : ¬ entryOffset self.layout.fatType cluster / self.layout.bytesPerSector
      > u32Max := by have := opened.fatSectors_lt; omega
  have reached : ¬ self.layout.reservedSectors + index * self.layout.fatSectors
      + entryOffset self.layout.fatType cluster / self.layout.bytesPerSector > u32Max := by
    omega
  obtain ⟨buf, read, begins, long⟩ : ∃ buf, self.readSectors
        (self.layout.reservedSectors + index * self.layout.fatSectors
          + entryOffset self.layout.fatType cluster / self.layout.bytesPerSector)
        (self.tableWindowSectors
          (entryOffset self.layout.fatType cluster / self.layout.bytesPerSector)) = .ok buf
      ∧ buf <+: self.src.drop _
      ∧ self.tableWindowSectors
          (entryOffset self.layout.fatType cluster / self.layout.bytesPerSector)
            * self.layout.bytesPerSector ≤ buf.length :=
    ⟨_, read, List.take_prefix _ _, (length_slice (by omega)).ge⟩
  have window := self.readEntry_window begins (room.trans long) inside narrow
    (opened.copyTable_inside copy)
  rw [readEntry_of_fits fits] at window
  simp only [tableEntryIn, counted, near, reached, decide_false, start, okOr, Option.elim,
    Checked.refuseIf, Bool.false_eq_true, if_false, ok_bind, read, window]

/-- Sectors of a copy are a piece of the whole copy. -/
theorem Opened.readSectors_copy {index s count : Nat} (copy : index < self.layout.fats)
    (inside : s + count ≤ self.layout.fatSectors)
    : self.readSectors (self.layout.reservedSectors + index * self.layout.fatSectors + s) count
      = .ok (slice (self.copyTable index) (s * self.layout.bytesPerSector)
          (count * self.layout.bytesPerSector)) := by
  have sectors := (opened.copy_sectors copy).2
  have room := Nat.mul_le_mul_right self.layout.bytesPerSector inside
  rw [Nat.add_mul] at room
  rw [(opened.readSectors_eq (by omega)).1, copyTable, slice_slice room, copyStart,
    Nat.add_mul _ s, Nat.add_assoc]

/-- What is reported of a byte in which two copies first differ, below where the entries stop: the
first entry that differs and its two values, where the byte differs in a bit that an entry has, and
two equal values where it does not.
-/
theorem Opened.mismatchAt_eq {copy at_ : Nat} (second : copy < self.layout.fats)
    (differs : FirstDiffers (self.copyTable 0) (self.copyTable copy) at_)
    (live : at_ < self.liveBytes)
    : ∃ cluster first other, self.mismatchAt copy at_ = .ok (.tableMismatch copy cluster first other)
      ∧ cluster ≤ self.highest
      ∧ Table.readEntry self.layout.fatType (self.copyTable 0) cluster = some first
      ∧ Table.readEntry self.layout.fatType (self.copyTable copy) cluster = some other
      ∧ (∀ before < cluster,
          ¬ EntryDiffers self.layout.fatType (self.copyTable 0) (self.copyTable copy) before)
      ∧ (first ≠ other
        ↔ getU8 (self.copyTable 0) at_ &&& ownedBits self.layout.fatType at_ self.highest
          ≠ getU8 (self.copyTable copy) at_
            &&& ownedBits self.layout.fatType at_ self.highest) := by
  have zero : 0 < self.layout.fats := by omega
  have sized : (self.copyTable 0).length = (self.copyTable copy).length := by
    rw [opened.length_copyTable zero, opened.length_copyTable second]
  have below := candidateAt_le live
  have owned := differs.owned_iff sized (fun cluster => opened.fits_copy zero) live
  have before : ∀ cluster < candidateAt self.layout.fatType at_,
      ¬ EntryDiffers self.layout.fatType (self.copyTable 0) (self.copyTable copy) cluster :=
    fun cluster early => differs.agrees_before sized (entry_ends_before early)
  obtain ⟨first, read, has⟩ := opened.tableEntryIn_eq zero below
  obtain ⟨other, read', has'⟩ := opened.tableEntryIn_eq second below
  have apart : EntryDiffers self.layout.fatType (self.copyTable 0) (self.copyTable copy)
      (candidateAt self.layout.fatType at_) ↔ first ≠ other := by
    rw [EntryDiffers, has, has', ne_eq, Option.some.injEq]
  unfold mismatchAt
  simp only [firstMismatch, read, read', ok_bind]
  by_cases same : first = other
  · subst same
    have agrees := apart.not.mpr (not_not.mpr rfl)
    rw [if_neg (not_not.mpr rfl)]
    cases shared : sharedAt self.layout.fatType at_ self.highest with
    | none =>
        refine ⟨_, first, first, rfl, below, has, has', before, iff_of_false (not_not.mpr rfl) ?_⟩
        rw [← owned, shared]
        rintro (here | ⟨_, ⟨⟩, _⟩)
        exact agrees here
    | some next =>
        obtain ⟨-, -, rfl, inside⟩ := sharedAt_eq_some shared
        obtain ⟨later, reads, holds⟩ := opened.tableEntryIn_eq zero inside
        obtain ⟨later', reads', holds'⟩ := opened.tableEntryIn_eq second inside
        have apart_ : EntryDiffers self.layout.fatType (self.copyTable 0) (self.copyTable copy)
            (candidateAt self.layout.fatType at_ + 1) ↔ later ≠ later' := by
          rw [EntryDiffers, holds, holds', ne_eq, Option.some.injEq]
        simp only [Option.toList, firstMismatch, reads, reads', ok_bind]
        by_cases same : later = later'
        · subst same
          rw [if_neg (not_not.mpr rfl)]
          refine ⟨_, first, first, rfl, below, has, has', before,
            iff_of_false (not_not.mpr rfl) ?_⟩
          rw [← owned, shared]
          rintro (here | ⟨_, ⟨⟩, there⟩)
          · exact agrees here
          · exact apart_.mp there rfl
        · rw [if_pos same]
          refine ⟨_, later, later', rfl, inside, holds, holds', fun cluster early => ?_,
            iff_of_true same (owned.mp (.inr ⟨_, shared, apart_.mpr same⟩))⟩
          rcases Nat.lt_succ_iff_lt_or_eq.mp early with early | rfl
          · exact before _ early
          · exact agrees
  · rw [if_pos same]
    refine ⟨_, first, other, rfl, below, has, has', before, iff_of_true same ?_⟩
    exact owned.mp (.inl (apart.mpr same))

omit opened in
/-- What a comparison has come to: nothing below where the entries stop has differed, and padding has
where it says so.
-/
structure Comparing.Holds (reader : Reader) (copy : Nat) (comparing : Comparing) : Prop where
  inside : comparing.sector ≤ reader.layout.fatSectors
  live
    : ∀ i < comparing.sector * reader.layout.bytesPerSector, i < reader.liveBytes
      → getU8 (reader.copyTable 0) i = getU8 (reader.copyTable copy) i
  padding
    : comparing.paddingOnly = true
      ↔ ∃ i < comparing.sector * reader.layout.bytesPerSector,
          getU8 (reader.copyTable 0) i ≠ getU8 (reader.copyTable copy) i

/-- What comparing a copy may report: nothing of one that is the same, padding of one that differs
past where the entries stop and not below, and a mismatch at the first byte that differs below.
-/
inductive Reports (reader : Reader) (copy : Nat) : Option ReadError → Prop where
  | same (agree : reader.copyTable 0 = reader.copyTable copy) : Reports reader copy none
  | padding (apart : reader.copyTable 0 ≠ reader.copyTable copy)
      (live
        : ∀ i < reader.liveBytes, getU8 (reader.copyTable 0) i = getU8 (reader.copyTable copy) i)
      : Reports reader copy (some (.tablePaddingMismatch copy))
  | mismatch (at_ : Nat) (report : ReadError) (live : at_ < reader.liveBytes)
      (differs : FirstDiffers (reader.copyTable 0) (reader.copyTable copy) at_)
      (reported : reader.mismatchAt copy at_ = .ok report)
      : Reports reader copy (some report)

/-- A turn of a comparison: a batch that agrees or differs in padding alone is passed, and one that
differs below where the entries stop is reported by its first byte that does.
-/
theorem Opened.compareStep_holds {copy : Nat} (second : copy < self.layout.fats)
    {comparing : Comparing} (holds : comparing.Holds self copy)
    : (∃ next, self.compareStep copy (self.layout.reservedSectors + 0 * self.layout.fatSectors)
          (self.layout.reservedSectors + copy * self.layout.fatSectors) comparing = .go next
        ∧ next.Holds self copy)
      ∨ ∃ answer, self.compareStep copy
          (self.layout.reservedSectors + 0 * self.layout.fatSectors)
          (self.layout.reservedSectors + copy * self.layout.fatSectors) comparing
            = .stop (.ok answer)
          ∧ Reports self copy answer := by
  have zero : 0 < self.layout.fats := by omega
  have sized : (self.copyTable 0).length = (self.copyTable copy).length := by
    rw [opened.length_copyTable zero, opened.length_copyTable second]
  simp only [compareStep]
  by_cases more : comparing.sector < self.layout.fatSectors
  · rw [if_pos more]
    have fit : comparing.sector
        + min (max (2 ^ 20 / max self.layout.bytesPerSector 1) 1)
          (self.layout.fatSectors - comparing.sector) ≤ self.layout.fatSectors := by omega
    generalize min (max (2 ^ 20 / max self.layout.bytesPerSector 1) 1)
      (self.layout.fatSectors - comparing.sector) = count at fit
    rw [opened.readSectors_copy zero fit, opened.readSectors_copy second fit]
    have room := Nat.mul_le_mul_right self.layout.bytesPerSector fit
    have table := opened.length_copyTable zero
    rw [Nat.add_mul] at room
    have long : ∀ index < self.layout.fats,
        (slice (self.copyTable index) (comparing.sector * self.layout.bytesPerSector)
          (count * self.layout.bytesPerSector)).length = count * self.layout.bytesPerSector :=
      fun index copy => length_slice (by rw [opened.length_copyTable copy]; exact room)
    have alike := (long 0 zero).trans (long copy second).symm
    have batch : ∀ (buf : Bytes) i, comparing.sector * self.layout.bytesPerSector ≤ i
        → i < (comparing.sector + count) * self.layout.bytesPerSector
        → getU8 (slice buf (comparing.sector * self.layout.bytesPerSector)
            (count * self.layout.bytesPerSector))
            (i - comparing.sector * self.layout.bytesPerSector) = getU8 buf i := by
      intro buf i low high
      rw [Nat.add_mul] at high
      rw [getU8_slice (by omega), Nat.add_sub_cancel' low]
    simp only [ok_bind]
    split
    · next none_ =>
        have same := eq_of_findIdx?_zip_eq_none alike none_
        have agree : ∀ i, comparing.sector * self.layout.bytesPerSector ≤ i
            → i < (comparing.sector + count) * self.layout.bytesPerSector
            → getU8 (self.copyTable 0) i = getU8 (self.copyTable copy) i := by
          intro i low high
          rw [← batch _ i low high, same, batch _ i low high]
        refine .inl ⟨_, rfl, fit, fun i high live => ?_, holds.padding.trans ⟨?_, ?_⟩⟩
        · by_cases low : comparing.sector * self.layout.bytesPerSector ≤ i
          · exact agree i low high
          · exact holds.live i (by omega) live
        · rintro ⟨i, high, apart⟩
          exact ⟨i, by rw [Nat.add_mul]; omega, apart⟩
        · rintro ⟨i, high, apart⟩
          by_cases low : comparing.sector * self.layout.bytesPerSector ≤ i
          · exact absurd (agree i low high) apart
          · exact ⟨i, by omega, apart⟩
    · next within found =>
        obtain ⟨inside, before, here⟩ := findIdx?_zip_eq_some alike found
        rw [long 0 zero] at inside
        rw [getU8_slice inside, getU8_slice inside, Nat.add_comm _ within] at here
        have agree : ∀ i, comparing.sector * self.layout.bytesPerSector ≤ i
            → i < within + comparing.sector * self.layout.bytesPerSector
            → getU8 (self.copyTable 0) i = getU8 (self.copyTable copy) i := by
          intro i low high
          rw [← batch _ i low (by rw [Nat.add_mul]; omega), before _ (by omega),
            batch _ i low (by rw [Nat.add_mul]; omega)]
        split
        · next padded =>
            refine .inl ⟨_, rfl, fit, fun i high live => ?_, iff_of_true rfl ⟨_, ?_, here⟩⟩
            · by_cases low : comparing.sector * self.layout.bytesPerSector ≤ i
              · exact agree i low (by omega)
              · exact holds.live i (by omega) live
            · simp only [Nat.add_mul]
              omega
        · next live =>
            have differs : FirstDiffers (self.copyTable 0) (self.copyTable copy)
                (within + comparing.sector * self.layout.bytesPerSector) := by
              refine ⟨fun i early => ?_, here⟩
              by_cases low : comparing.sector * self.layout.bytesPerSector ≤ i
              · exact agree i low early
              · exact holds.live i (by omega) (by omega)
            obtain ⟨cluster, first, other, reported, -⟩ :=
              opened.mismatchAt_eq second differs (by omega)
            refine .inr ⟨_, ?_, .mismatch _ _ (by omega) differs reported⟩
            rw [reported]
            rfl
  · rw [if_neg more]
    have whole : comparing.sector = self.layout.fatSectors := by have := holds.inside; omega
    refine .inr ⟨_, rfl, ?_⟩
    cases padded : comparing.paddingOnly with
    | true =>
        obtain ⟨i, -, apart⟩ := holds.padding.mp padded
        refine .padding (fun same => apart (by rw [same])) fun i live => ?_
        by_cases inside : i < comparing.sector * self.layout.bytesPerSector
        · exact holds.live i inside live
        · rw [whole] at inside
          have past := opened.length_copyTable zero
          have past' := opened.length_copyTable second
          rw [getU8, getU8, List.getElem?_eq_none (by omega), List.getElem?_eq_none (by omega)]
    | false =>
        refine .same (eq_of_getU8 sized fun i inside => ?_)
        by_contra apart
        rw [opened.length_copyTable zero, ← whole] at inside
        have := holds.padding.mpr ⟨i, inside, apart⟩
        simp [padded] at this

/-- Comparing a copy reports as it may, by what every turn keeps. -/
theorem Opened.compareCopy_reports {copy : Nat} (second : copy < self.layout.fats)
    : ∃ answer, self.compareCopy copy = .ok answer ∧ Reports self copy answer := by
  have zero : 0 < self.layout.fats := by omega
  unfold compareCopy
  rw [(opened.copy_sectors zero).1, (opened.copy_sectors second).1]
  dsimp only
  have kept : ∀ comparing next, self.compareStep copy
        (self.layout.reservedSectors + 0 * self.layout.fatSectors)
        (self.layout.reservedSectors + copy * self.layout.fatSectors) comparing = .go next
      → comparing.Holds self copy → next.Holds self copy := by
    intro comparing next went holds
    rcases opened.compareStep_holds second holds with ⟨next', went', kept⟩ | ⟨_, stopped, -⟩
    · rw [went] at went'
      cases went'
      exact kept
    · rw [went] at stopped
      cases stopped
  have begun : (⟨0, false⟩ : Comparing).Holds self copy :=
    ⟨Nat.zero_le _, fun i below => by simp at below, by simp⟩
  obtain ⟨last, holds, ended⟩ := stop_of_run kept begun
    (run_eq_total (self.compareStep_lowers copy
      (self.layout.reservedSectors + 0 * self.layout.fatSectors)
      (self.layout.reservedSectors + copy * self.layout.fatSectors)) ⟨0, false⟩)
  rcases opened.compareStep_holds second holds with ⟨next, went, -⟩ | ⟨answer, stopped, reports⟩
  · rw [ended] at went
    cases went
  · exact ⟨answer, Next.stop.inj (ended.symm.trans stopped), reports⟩


omit opened in
/-- What is reported of a copy says what the copies hold: a mismatch exactly where some entry differs,
of the first that does and with its two values, and a difference in padding exactly where the copies
differ and no entry does.
-/
structure Describes (reader : Reader) (copy : Nat) (faults : List ReadError) : Prop where
  mismatch
    : (∃ cluster first other, .tableMismatch copy cluster first other ∈ faults)
      ↔ ∃ cluster ≤ reader.highest,
          EntryDiffers reader.layout.fatType (reader.copyTable 0) (reader.copyTable copy) cluster
  named
    : ∀ cluster first other, .tableMismatch copy cluster first other ∈ faults
      → cluster ≤ reader.highest
        ∧ (∀ before < cluster, ¬ EntryDiffers reader.layout.fatType (reader.copyTable 0)
            (reader.copyTable copy) before)
        ∧ first ≠ other
        ∧ Table.readEntry reader.layout.fatType (reader.copyTable 0) cluster = some first
        ∧ Table.readEntry reader.layout.fatType (reader.copyTable copy) cluster = some other
  padding
    : .tablePaddingMismatch copy ∈ faults
      ↔ reader.copyTable 0 ≠ reader.copyTable copy
        ∧ ∀ cluster ≤ reader.highest, ¬ EntryDiffers reader.layout.fatType (reader.copyTable 0)
            (reader.copyTable copy) cluster

omit opened in
/-- The first byte in which a copy differs below where the entries stop, if there is one, differs in a
bit that an entry has.
-/
def DiffersOwned (reader : Reader) (copy : Nat) : Prop :=
  ∀ at_ < reader.liveBytes, FirstDiffers (reader.copyTable 0) (reader.copyTable copy) at_
    → getU8 (reader.copyTable 0) at_ &&& ownedBits reader.layout.fatType at_ reader.highest
      ≠ getU8 (reader.copyTable copy) at_ &&& ownedBits reader.layout.fatType at_ reader.highest

/-- Copies that agree below where the entries stop agree in every entry. -/
theorem Opened.agrees_of_live {copy : Nat} (second : copy < self.layout.fats)
    (live : ∀ i < self.liveBytes, getU8 (self.copyTable 0) i = getU8 (self.copyTable copy) i)
    {cluster : Nat} (most : cluster ≤ self.highest)
    : ¬ EntryDiffers self.layout.fatType (self.copyTable 0) (self.copyTable copy) cluster := by
  have zero : 0 < self.layout.fats := by omega
  refine not_entryDiffers_of_bytes
    (by rw [opened.length_copyTable zero, opened.length_copyTable second]) fun i short => ?_
  have up : entryOffset self.layout.fatType cluster
      ≤ entryOffset self.layout.fatType self.highest := by
    cases self.layout.fatType <;> simp only [entryOffset] <;> omega
  exact live _ (by rw [liveBytes]; omega)

/-- The one report of a copy says what the copies hold exactly where it is of a bit some entry has. -/
theorem Opened.describes_iff {copy : Nat} (second : copy < self.layout.fats)
    {answer : Option ReadError} (reports : Reports self copy answer)
    : self.Describes copy answer.toList ↔ self.DiffersOwned copy := by
  cases reports with
  | same agree =>
      refine iff_of_true ⟨?_, nofun, ?_⟩ fun at_ _ differs => absurd (by rw [agree]) differs.2
      · refine iff_of_false (by simp) ?_
        rintro ⟨cluster, -, apart⟩
        exact apart (by rw [agree])
      · exact iff_of_false (by simp) fun apart => apart.1 agree
  | padding apart live =>
      have agrees : ∀ cluster ≤ self.highest, ¬ EntryDiffers self.layout.fatType
          (self.copyTable 0) (self.copyTable copy) cluster :=
        fun cluster most => opened.agrees_of_live second live most
      refine iff_of_true ⟨?_, ?_, ?_⟩ fun at_ below differs => absurd (live at_ below) differs.2
      · refine iff_of_false (by simp) ?_
        rintro ⟨cluster, most, differs⟩
        exact agrees cluster most differs
      · intro cluster first other member
        simp at member
      · exact iff_of_true (by simp) ⟨apart, agrees⟩
  | mismatch at_ report live differs reported =>
      obtain ⟨cluster, first, other, named, most, has, has', before, owned⟩ :=
        opened.mismatchAt_eq second differs live
      rw [reported] at named
      obtain rfl := Except.ok.inj named
      constructor
      · intro describes at_' live' differs'
        obtain rfl : at_' = at_ := by
          rcases Nat.lt_trichotomy at_' at_ with early | same | late
          · exact absurd (differs.1 _ early) differs'.2
          · exact same
          · exact absurd (differs'.1 _ late) differs.2
        exact owned.mp (describes.named cluster first other (by simp)).2.2.1
      · intro holds
        have apart := owned.mpr (holds at_ live differs)
        have differs_ : EntryDiffers self.layout.fatType (self.copyTable 0) (self.copyTable copy)
            cluster := by
          rw [EntryDiffers, has, has', ne_eq, Option.some.injEq]
          exact apart
        refine ⟨iff_of_true ⟨cluster, first, other, by simp⟩ ⟨cluster, most, differs_⟩, ?_, ?_⟩
        · intro cluster' first' other' member
          simp only [Option.toList, List.mem_singleton, ReadError.tableMismatch.injEq, true_and]
            at member
          obtain ⟨rfl, rfl, rfl⟩ := member
          exact ⟨most, before, apart, has, has'⟩
        · exact iff_of_false (by simp) fun agrees => agrees.2 cluster most differs_

/-- On a volume of two tables that are mirrored, what is found is what comparing the second reports. -/
theorem Opened.tableFaults_eq (mirrored : boot.mirroringDisabled = false)
    (two : self.layout.fats = 2)
    : ∃ answer, self.tableFaults boot = .ok answer.toList ∧ Reports self 1 answer := by
  obtain ⟨answer, compared, reports⟩ := opened.compareCopy_reports (show 1 < _ by omega)
  refine ⟨answer, ?_, reports⟩
  rw [tableFaults, mirrored, Bool.false_or, two]
  simp only [decide_eq_true_eq, show ¬ 2 < 2 by decide, if_false]
  rw [show List.range' 1 (2 - 1) = [1] from rfl, List.mapM_cons, compared]
  cases answer <;> rfl

end

/-- On an open volume whose tables are mirrored, what is found of the copies says what every copy
holds exactly where no copy's first difference below where the entries stop is in bits that no entry
has: FAT32's top four of an entry, or the half of FAT12's last byte past the highest entry's.
-/
theorem tableFaults_describes_iff {self : Reader} {boot : BootSector} (opened : self.Opened boot)
    (mirrored : boot.mirroringDisabled = false)
    : ∃ faults, self.tableFaults boot = .ok faults
      ∧ ((∀ copy, 0 < copy → copy < self.layout.fats → self.Describes copy faults)
        ↔ ∀ copy, 0 < copy → copy < self.layout.fats → self.DiffersOwned copy) := by
  rcases opened.accepted.fats with one | two
  · rw [one]
    refine ⟨[], ?_, iff_of_true (fun copy pos below => by omega) fun copy pos below => by omega⟩
    rw [tableFaults, one]
    simp
  · have only : ∀ {p : Nat → Prop}, (∀ copy, 0 < copy → copy < 2 → p copy) ↔ p 1 :=
      ⟨fun each => each 1 (by decide) (by decide), fun one copy pos below => by
        obtain rfl : copy = 1 := by omega
        exact one⟩
    obtain ⟨answer, found, reports⟩ := opened.tableFaults_eq mirrored two
    refine ⟨answer.toList, found, ?_⟩
    rw [two, only, only]
    exact opened.describes_iff (by omega) reports

end Reader

/-- A volume of 1440 KiB whose second table has a bit set that no entry has, in the last byte an entry
reaches: the highest cluster is an even one, and has the byte's low half alone.
-/
def markedFloppy : Bytes := splice (imageOf floppySector 1474560) 9393 [0x10]

def markedReader : Reader := readerOf markedFloppy floppyLayout (by decide)

/-- That volume and the one without the bit open, and mirror their tables. -/
theorem floppy_opened {src : Bytes} (front : slice src 0 BootSector.size = floppySector)
    (length : src.length = 1474560)
    : ∃ boot, (readerOf src floppyLayout (by decide)).Opened boot
      ∧ boot.mirroringDisabled = false := by
  obtain ⟨boot, parsed, opened⟩ := readerOf_opened
    (show 0 < floppyLayout.bytesPerCluster by decide) front length (by decide)
    (show layoutOf floppySector 1474560 = some floppyLayout by decide +kernel)
  have mirrored : ((BootSector.readFrom floppySector).toOption.map
      BootSector.mirroringDisabled) = some false := by decide +kernel
  rw [parsed] at mirrored
  exact ⟨boot, opened, Option.some.inj mirrored⟩

/-- Past its boot sector that volume holds one byte that is not zero. -/
theorem getU8_markedFloppy {i : Nat} (past : 512 ≤ i) (inside : i < 1474560)
    : getU8 markedFloppy i = if i = 9393 then 16 else 0 := by
  have sized : floppySector.length = 512 := by decide +kernel
  have length : (imageOf floppySector 1474560).length = 1474560 :=
    length_imageOf sized (by decide)
  rw [getU8, markedFloppy, getElem?_splice, length]
  by_cases marked : i = 9393
  · subst marked
    rfl
  · rw [if_neg marked, if_neg (by simp only [List.length_singleton]; omega), imageOf,
      List.getElem?_append_right (by omega), zeros, List.getElem?_replicate]
    split <;> rfl

/-- What is found there is a mismatch whose two values are one. -/
theorem tableFaults_of_marked
    : ∃ boot faults, markedReader.Opened boot ∧ boot.mirroringDisabled = false
        ∧ markedReader.tableFaults boot = .ok faults ∧ ¬ markedReader.Describes 1 faults := by
  have sized : floppySector.length = BootSector.size := by decide +kernel
  have front : slice markedFloppy 0 BootSector.size = floppySector := by
    rw [markedFloppy, slice_splice_of_apart (.inr (by decide)), slice_imageOf 1474560 sized]
  obtain ⟨boot, opened, mirrored⟩ := floppy_opened front
    (by rw [markedFloppy, length_splice]; exact length_imageOf sized (by decide))
  obtain ⟨answer, found, reports⟩ := Reader.Opened.tableFaults_eq opened mirrored rfl
  refine ⟨boot, answer.toList, opened, mirrored, found, fun describes => ?_⟩
  have owned : markedReader.DiffersOwned 1 :=
    (Reader.Opened.describes_iff opened (by decide) reports).mp describes
  have first : ∀ i < 4608, getU8 (markedReader.copyTable 0) i = getU8 markedFloppy (512 + i) :=
    fun i short => getU8_slice short
  have second : ∀ i < 4608, getU8 (markedReader.copyTable 1) i = getU8 markedFloppy (5120 + i) :=
    fun i short => getU8_slice short
  have differs : FirstDiffers (markedReader.copyTable 0) (markedReader.copyTable 1) 4273 := by
    refine ⟨fun i early => ?_, ?_⟩
    · rw [first i (by omega), second i (by omega), getU8_markedFloppy (by omega) (by omega),
        getU8_markedFloppy (by omega) (by omega), if_neg (by omega), if_neg (by omega)]
    · rw [first _ (by decide), second _ (by decide), getU8_markedFloppy (by decide) (by decide),
        getU8_markedFloppy (by decide) (by decide)]
      decide
  have apart := owned 4273 (by decide) differs
  rw [first _ (by decide), second _ (by decide), getU8_markedFloppy (by decide) (by decide),
    getU8_markedFloppy (by decide) (by decide)] at apart
  exact apart (by decide)

/-- Of the volume without the bit. -/
theorem tableFaults_describes_of_floppy
    : ∃ boot faults, (readerOf (imageOf floppySector 1474560) floppyLayout (by decide)).tableFaults
            boot = .ok faults
        ∧ ((∀ copy, 0 < copy → copy < 2
            → (readerOf (imageOf floppySector 1474560) floppyLayout (by decide)).Describes copy
              faults)
          ↔ ∀ copy, 0 < copy → copy < 2
            → (readerOf (imageOf floppySector 1474560) floppyLayout (by decide)).DiffersOwned
              copy) := by
  have sized : floppySector.length = BootSector.size := by decide +kernel
  obtain ⟨boot, opened, mirrored⟩ :=
    floppy_opened (slice_imageOf 1474560 sized) (length_imageOf sized (by decide))
  obtain ⟨faults, found, describes⟩ := Reader.tableFaults_describes_iff opened mirrored
  exact ⟨boot, faults, found, describes⟩

end Ferrosys.Fat
