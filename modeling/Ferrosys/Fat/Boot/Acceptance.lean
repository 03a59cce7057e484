import Ferrosys.Fat.RoundTrip
import Ferrosys.Fat.Table

/-! Sector 0 parsed from its bytes, and what a reader may rely on of the layout it took from one,
whatever the fields held: nothing in the derivation wraps, the volume is inside the source, and
each cluster's number, table entry and sectors are where the rest of the reader takes them to be.
-/

namespace Ferrosys.Fat

open Arith Splice Checked

/-- The characters of a space-padded field. -/
def chars (bytes : Bytes) : List Char := bytes.map fun b => Char.ofNat b.toNat

/-- The volume identity record at `off`. -/
def VolumeInfo.readAt (buf : Bytes) (off : Nat) : VolumeInfo where
  driveNumber := getU8 buf off
  reserved := getU8 buf (off + 1)
  extBootSignature := getU8 buf (off + 2)
  volumeId := getU32 buf (off + 3)
  label := chars (slice buf (off + 7) 11)
  fsType := chars (slice buf (off + 18) 8)

inductive ParseError where
  | tooShort (need got : Nat)
deriving DecidableEq

namespace BootSector

def size : Nat := 512

/-- Parse a boot sector from the start of `buf`. A zero 16-bit table size is what tells the shape
of the tail.
-/
def readFrom (buf : Bytes) : Except ParseError BootSector :=
  if buf.length < size then .error (.tooShort size buf.length)
  else
    let fatSectors16 := getU16 buf 22
    let tail :=
      if fatSectors16 = 0 then
        BootSectorTail.fat32
          {
            fatSectors := getU32 buf 36
            extFlags := getU16 buf 40
            version := getU16 buf 42
            rootCluster := getU32 buf 44
            fsInfoSector := getU16 buf 48
            backupBootSector := getU16 buf 50
          }
          (VolumeInfo.readAt buf 64)
      else .fat1216 (VolumeInfo.readAt buf 36)
    .ok
      {
        jump := (getU8 buf 0, getU8 buf 1, getU8 buf 2)
        oemName := chars (slice buf 3 8)
        bytesPerSector := getU16 buf 11
        sectorsPerCluster := getU8 buf 13
        reservedSectors := getU16 buf 14
        fats := getU8 buf 16
        rootEntries := getU16 buf 17
        totalSectors16 := getU16 buf 19
        media := getU8 buf 21
        fatSectors16 := fatSectors16
        sectorsPerTrack := getU16 buf 24
        heads := getU16 buf 26
        hiddenSectors := getU32 buf 28
        totalSectors32 := getU32 buf 32
        tail := tail
      }

/-- The fields a layout is derived from are as wide as their types. -/
structure Typed (boot : BootSector) : Prop where
  bytesPerSector : boot.bytesPerSector < 2 ^ 16
  reservedSectors : boot.reservedSectors < 2 ^ 16
  rootEntries : boot.rootEntries < 2 ^ 16
  totalSectors : boot.totalSectors < 2 ^ 32
  fatSectors : boot.fatSectors < 2 ^ 32
  params
    : ∀ params volume, boot.tail = .fat32 params volume
      → params.rootCluster < 2 ^ 32 ∧ params.fsInfoSector < 2 ^ 16
        ∧ params.backupBootSector < 2 ^ 16

/-- A field of sixteen bits or one of thirty-two is one of thirty-two. -/
theorem typed_choice {a b : Nat} (narrow : a < 2 ^ 16) (wide : b < 2 ^ 32)
    : (if a ≠ 0 then a else b) < 2 ^ 32 := by
  split <;> omega

/-- What is parsed from bytes is as wide as its fields. -/
theorem readFrom_typed {buf : Bytes} {boot : BootSector} (parsed : readFrom buf = .ok boot)
    : boot.Typed := by
  simp only [readFrom] at parsed
  split at parsed
  · cases parsed
  · cases parsed
    refine ⟨getU16_lt _ _, getU16_lt _ _, getU16_lt _ _,
      typed_choice (getU16_lt _ _) (getU32_lt _ _), ?_, ?_⟩
    · refine typed_choice (getU16_lt _ _) ?_
      dsimp only
      split
      · exact Nat.two_pow_pos 32
      · next same =>
          split at same <;> cases same
          exact getU32_lt _ _
    · intro params volume same
      dsimp only at same
      split at same <;> cases same
      exact ⟨getU32_lt _ _, getU16_lt _ _, getU16_lt _ _⟩

/-- Every operation of the derivation that is not itself checked has a result its width holds,
the ones after a check where that check passed.
-/
structure NoWrap (boot : BootSector) (layout : FatLayout) : Prop where
  /-- The volume's length, and the fixed root directory's, each a 64-bit product. -/
  volumeBytes : boot.totalSectors * boot.bytesPerSector < 2 ^ 64
  rootBytes : boot.rootEntries * dirEntryBytes < 2 ^ 64
  /-- The bits of one table, and the entries every cluster and the two before the first need. -/
  tableBits : boot.fatSectors * boot.bytesPerSector * 8 < 2 ^ 64
  needed : layout.clusters + 2 < 2 ^ 64
  /-- Nothing is divided by zero. -/
  divisors : 0 < boot.bytesPerSector ∧ 0 < boot.sectorsPerCluster ∧ 0 < layout.fatType.entryBits
  /-- The root cluster's index, and the backup information sector, which is narrowed only below
  the reserved sectors' end.
  -/
  placements
    : ∀ params volume, boot.tail = .fat32 params volume
      → 2 ≤ params.rootCluster
        ∧ params.backupBootSector + params.fsInfoSector < 2 ^ 32
        ∧ (params.backupBootSector + params.fsInfoSector < boot.reservedSectors
          → params.backupBootSector + params.fsInfoSector < 2 ^ 16)

end BootSector

/-- What a layout taken from a boot sector is, over a source of `available` bytes. -/
structure FatLayout.Accepted (layout : FatLayout) (available : Nat) : Prop where
  sector
    : layout.bytesPerSector = 512 ∨ layout.bytesPerSector = 1024
      ∨ layout.bytesPerSector = 2048 ∨ layout.bytesPerSector = 4096
  cluster : 0 < layout.sectorsPerCluster ∧ layout.sectorsPerCluster ≤ 128
  fats : layout.fats = 1 ∨ layout.fats = 2
  reserved : 0 < layout.reservedSectors
  total : layout.totalSectors < 2 ^ 32
  volume : layout.totalBytes ≤ available
  tables : 0 < layout.fatSectors
  first
    : layout.firstDataSector
      = layout.reservedSectors + layout.fats * layout.fatSectors + layout.rootDirSectors
  room
    : layout.firstDataSector + layout.clusters * layout.sectorsPerCluster ≤ layout.totalSectors
  count : 0 < layout.clusters ∧ layout.clusters ≤ layout.fatType.maxClusters
  table
    : (layout.clusters + 2) * layout.fatType.entryBits
      ≤ layout.fatSectors * layout.bytesPerSector * 8

theorem defectIf_eq_ok {bad : Bool} {field : String} {value : Nat} {u : Unit}
    : defectIf bad field value = .ok u ↔ bad = false := by
  cases bad <;> simp [defectIf]

theorem orDefect_eq_ok {α : Type} {found : Option α} {field : String} {value : Nat} {a : α}
    : orDefect found field value = .ok a ↔ found = some a := by
  cases found <;> simp [orDefect]

theorem checkedAdd_eq_some {a b c : Nat}
    : checkedAdd a b = some c ↔ a + b ≤ u32Max ∧ a + b = c := by
  rw [checkedAdd, Option.ite_none_right_eq_some, Option.some.injEq]

section
variable {boot : BootSector} {available : Nat} {layout : FatLayout}

/-- What a boot sector that described a layout passed, and what the layout is. -/
theorem layoutFromBoot_eq_ok (typed : boot.Typed)
    (accepted : layoutFromBoot boot available = .ok layout)
    : layout.Accepted available ∧ boot.NoWrap layout := by
  have wide : u32Max = 2 ^ 32 - 1 := rfl
  unfold layoutFromBoot at accepted
  generalize boot.jump = jumped at accepted
  obtain ⟨j0, j1, j2⟩ := jumped
  simp only [bind_eq_ok, defectIf_eq_ok, orDefect_eq_ok, exists_and_left] at accepted
  obtain ⟨-, size, spc, fats, reserved, -, -, volume, tables, -, -, -, -, -, -, -, -, -, _, root,
    copies, copied, overhead, summed, data, left, some_, -, kind, derived, most, held, -, -,
    placements, placed, same⟩ := accepted
  obtain rfl := Except.ok.inj same
  obtain ⟨-, rfl⟩ := checkedMul_eq_some.mp copied
  obtain ⟨part, first, second⟩ := Option.bind_eq_some_iff.mp summed
  obtain ⟨-, rfl⟩ := checkedAdd_eq_some.mp first
  obtain ⟨-, rfl⟩ := checkedAdd_eq_some.mp second
  obtain ⟨inside, rfl⟩ := checkedSub_eq_some.mp left
  simp only [Bool.not_eq_false', Bool.or_eq_false_iff, Bool.or_eq_true, beq_iff_eq,
    beq_eq_false_iff_ne, decide_eq_false_iff_not, not_lt, PlanRequest.isSectorSize_iff]
    at size spc fats reserved volume tables some_ most held
  have bits : 0 < kind.entryBits := by cases kind <;> decide
  have table := (Nat.le_div_iff_mul_le bits).mp held
  have whole := Nat.div_mul_le_self
    (boot.totalSectors
      - (boot.reservedSectors + boot.fats * boot.fatSectors
        + min (divCeil (boot.rootEntries * dirEntryBytes) boot.bytesPerSector) u32Max))
    boot.sectorsPerCluster
  have small : kind.maxClusters < 2 ^ 32 := by cases kind <;> decide
  have product : boot.totalSectors * boot.bytesPerSector < 2 ^ 32 * 2 ^ 16 :=
    Nat.mul_lt_mul'' typed.totalSectors typed.bytesPerSector
  have tableBytes : boot.fatSectors * boot.bytesPerSector < 2 ^ 32 * 2 ^ 16 :=
    Nat.mul_lt_mul'' typed.fatSectors typed.bytesPerSector
  have rootEntries := typed.rootEntries
  have reservedSectors := typed.reservedSectors
  refine ⟨⟨size, ⟨Nat.pos_of_ne_zero spc.1.1, spc.2⟩, fats, Nat.pos_of_ne_zero reserved,
    typed.totalSectors, volume, Nat.pos_of_ne_zero tables, rfl, ?_,
    ⟨Nat.pos_of_ne_zero some_, most⟩, table⟩, ?_⟩
  · simp only
    omega
  · refine ⟨by omega, by simp only [dirEntryBytes]; omega, by omega, by simp only; omega,
      ⟨by omega, Nat.pos_of_ne_zero spc.1.1, bits⟩, ?_⟩
    intro params volume same
    obtain ⟨-, info, backup⟩ := typed.params params volume same
    rw [same] at root
    simp only [checkRoot, bind_eq_ok, defectIf_eq_ok, decide_eq_false_iff_not, not_lt] at root
    obtain ⟨-, -, least⟩ := root
    exact ⟨least, by omega, fun inside => by omega⟩

namespace FatLayout.Accepted

variable (accepted : layout.Accepted available)
include accepted

/-- Every cluster's number is one an entry may name: no type counts up to its bad mark. -/
theorem isCluster_of_le {n : Nat} (two : 2 ≤ n) (most : n ≤ layout.clusters + 1)
    : isCluster layout.fatType n = true := by
  have count := accepted.count.2
  simp only [isCluster, Bool.and_eq_true, decide_eq_true_eq]
  refine ⟨two, ?_⟩
  cases kind : layout.fatType <;> rw [kind] at count
  · exact lt_of_le_of_lt (most.trans (Nat.succ_le_succ count)) (by decide)
  · exact lt_of_le_of_lt (most.trans (Nat.succ_le_succ count)) (by decide)
  · exact lt_of_le_of_lt (most.trans (Nat.succ_le_succ count)) (by decide)

theorem clusters_lt : layout.clusters + 1 < 2 ^ 32 := by
  refine lt_of_le_of_lt (Nat.succ_le_succ accepted.count.2) ?_
  cases layout.fatType <;> decide

/-- One table has the whole entry of every cluster, and of the two numbers before the first. -/
theorem fits_of_le {n : Nat} (most : n ≤ layout.clusters + 1)
    : Table.fits layout.fatType n (layout.fatSectors * layout.bytesPerSector) = true := by
  refine Table.fits_of_bits (most.trans_lt accepted.clusters_lt) (le_trans ?_ accepted.table)
  exact Nat.mul_le_mul_right _ (Nat.succ_le_succ most)

/-- Every cluster's sectors are past the tables and inside the volume. -/
theorem clusterStartSector_of_le {n : Nat} (two : 2 ≤ n) (most : n ≤ layout.clusters + 1)
    : ∃ start, layout.clusterStartSector n = some start ∧ layout.firstDataSector ≤ start
      ∧ start + layout.sectorsPerCluster ≤ layout.totalSectors := by
  have room := accepted.room
  have before : (n - 2 + 1) * layout.sectorsPerCluster
      ≤ layout.clusters * layout.sectorsPerCluster := Nat.mul_le_mul_right _ (by omega)
  rw [Nat.succ_mul] at before
  exact ⟨_, if_neg (by omega), Nat.le_add_right _ _, by omega⟩

/-- Every copy of the table is past the reserved sectors and before the data. -/
theorem fatStartSector_of_lt {index : Nat} (copy : index < layout.fats)
    : ∃ start, layout.fatStartSector index = some start ∧ layout.reservedSectors ≤ start
      ∧ start + layout.fatSectors ≤ layout.firstDataSector := by
  have first := accepted.first
  have before : (index + 1) * layout.fatSectors ≤ layout.fats * layout.fatSectors :=
    Nat.mul_le_mul_right _ copy
  rw [Nat.succ_mul] at before
  exact ⟨_, if_neg (by omega), Nat.le_add_right _ _, by omega⟩

end FatLayout.Accepted

/-- A layout taken from any sector's bytes, over any source, is one the reader may rely on without
checking again: the derivation's own arithmetic is exact, the volume is inside the source, and each
cluster's number is no mark, its entry is inside one copy of the table, and its sectors are inside
the volume.
-/
theorem layoutFromBoot_safe {buf : Bytes} (parsed : BootSector.readFrom buf = .ok boot)
    (described : layoutFromBoot boot available = .ok layout)
    : boot.NoWrap layout
      ∧ layout.totalSectors * layout.bytesPerSector ≤ available
      ∧ (∀ index < layout.fats, ∃ start, layout.fatStartSector index = some start
          ∧ layout.reservedSectors ≤ start ∧ start + layout.fatSectors ≤ layout.firstDataSector)
      ∧ ∀ n, 2 ≤ n → n ≤ layout.clusters + 1
        → isCluster layout.fatType n = true
          ∧ Table.fits layout.fatType n (layout.fatSectors * layout.bytesPerSector) = true
          ∧ ∃ start, layout.clusterStartSector n = some start ∧ layout.firstDataSector ≤ start
            ∧ start + layout.sectorsPerCluster ≤ layout.totalSectors := by
  obtain ⟨accepted, exact_⟩ :=
    layoutFromBoot_eq_ok (BootSector.readFrom_typed parsed) described
  exact ⟨exact_, accepted.volume, fun index copy => accepted.fatStartSector_of_lt copy,
    fun n two most =>
    ⟨accepted.isCluster_of_le two most, accepted.fits_of_le most,
      accepted.clusterStartSector_of_le two most⟩⟩

end

/-- Sector 0 of a volume of 1440 KiB. -/
def floppySector : Bytes :=
  [0xEB, 0x3C, 0x90] ++ zeros 8
    ++ [0x00, 0x02, 0x01, 0x01, 0x00, 0x02, 0xE0, 0x00, 0x40, 0x0B, 0xF0, 0x09, 0x00]
    ++ zeros 488

def floppyLayout : FatLayout where
  fatType := .fat12
  bytesPerSector := 512
  sectorsPerCluster := 1
  reservedSectors := 1
  fats := 2
  rootEntries := 224
  totalSectors := 2880
  fatSectors := 9
  rootDirSectors := 14
  firstDataSector := 33
  clusters := 2847
  fat32 := none

/-- Every cluster of that volume. -/
theorem layoutFromBoot_safe_of_floppy
    : ∃ boot, BootSector.readFrom floppySector = .ok boot
        ∧ layoutFromBoot boot 1474560 = .ok floppyLayout
        ∧ boot.NoWrap floppyLayout
        ∧ ∀ n, 2 ≤ n → n ≤ 2848
          → isCluster .fat12 n = true ∧ Table.fits .fat12 n (9 * 512) = true := by
  have opened : ((BootSector.readFrom floppySector).toOption.bind fun boot =>
      (layoutFromBoot boot 1474560).toOption) = some floppyLayout := by decide +kernel
  cases parsed : BootSector.readFrom floppySector with
  | error error =>
      rw [parsed] at opened
      cases opened
  | ok boot =>
      rw [parsed] at opened
      cases described : layoutFromBoot boot 1474560 with
      | error error => simp [described, Except.toOption] at opened
      | ok layout =>
          obtain rfl : layout = floppyLayout := by
            simpa [described, Except.toOption] using opened
          obtain ⟨exact_, -, -, each⟩ := layoutFromBoot_safe parsed described
          exact ⟨boot, rfl, described, exact_, fun n two most =>
            ⟨(each n two most).1, (each n two most).2.1⟩⟩

end Ferrosys.Fat
