import Ferrosys.Fat.Geometry.Soundness

/-! The boot sector built from a planned layout describes that layout, and what a planned
layout promises as a whole.
-/

namespace Ferrosys.Fat

open Arith Spans

/-- The information sector's backup is where the reader looks for it. -/
theorem fat32Placements_fat32Layout {reserved : Nat} (narrow : reserved ≤ u16Max)
    (params : Fat32Params) (cluster : params.rootCluster = 2)
    (info : params.fsInfoSector = fsInfoSector)
    (backup : params.backupBootSector = (backupBootSector reserved fsInfoSector).getD 0)
    : fat32Placements params reserved = fat32Layout reserved := by
  have limit : u16Max = 65535 := rfl
  have placed : ∀ b, backupBootSector reserved fsInfoSector = some b → b ≠ 0 := by
    intro b found
    unfold backupBootSector at found
    split_ifs at found <;> cases found <;> omega
  simp only [fat32Placements, fat32Layout, cluster, info, backup]
  cases found : backupBootSector reserved fsInfoSector with
  | none => rfl
  | some b =>
      have some_ := placed b found
      simp only [Option.getD_some, ne_eq, some_, not_false_eq_true, if_true, Option.bind_some,
        Option.map_some, Option.filter_some, decide_eq_true_eq, Fat32Layout.mk.injEq, true_and]
      split
      next inside =>
        rw [Nat.mod_eq_of_lt (by omega)]
      next => rfl

section
variable {request : FatTypeRequest} {layout : FatLayout}

/-- The data region holds the planned clusters whole, and no more. -/
theorem FatLayout.Described.clusters_eq (described : layout.Described request)
    : (layout.totalSectors - layout.firstDataSector) / layout.sectorsPerCluster
      = layout.clusters := by
  have fits := described.fits
  have full := described.full
  exact Nat.div_eq_of_lt_le (by omega) (by omega)

theorem FatLayout.Described.fatSectors_pos (described : layout.Described request)
    : 0 < layout.fatSectors := by
  by_contra none_
  have table := described.table
  have bits : 0 < layout.fatType.entryBits := by cases layout.fatType <;> decide
  rw [show layout.fatSectors = 0 by omega, Nat.zero_mul, Nat.zero_mul] at table
  have := Nat.mul_pos (show 0 < layout.clusters + 2 by omega) bits
  omega

theorem FatLayout.Described.fitsBootSector_eq (described : layout.Described request)
    : fitsBootSector layout = true := by
  have bytes : layout.bytesPerSector ≤ u16Max := by
    have limit : u16Max = 65535 := rfl
    rcases described.sector with size | size | size | size <;> omega
  have spc : layout.sectorsPerCluster < 256 := by have := described.cluster; omega
  have fats : layout.fats < 256 := by rcases described.fats with fats | fats <;> omega
  have tables : layout.fat32.isSome = true ∨ layout.fatSectors ≤ u16Max := by
    rw [described.fat32]
    by_cases kind : layout.fatType = .fat32
    · exact .inl (by simp [kind])
    · exact .inr (described.narrow kind)
  simp [fitsBootSector, bytes, spc, described.reserved.2, fats, described.rootEntries, tables]

/-- A boot sector carries what the reader takes from it. -/
structure BootSector.Records (boot : BootSector) (layout : FatLayout) : Prop where
  jump : boot.jump.1 = 0xEB ∧ boot.jump.2.2 = 0x90
  bytesPerSector : boot.bytesPerSector = layout.bytesPerSector
  sectorsPerCluster : boot.sectorsPerCluster = layout.sectorsPerCluster
  reservedSectors : boot.reservedSectors = layout.reservedSectors
  fats : boot.fats = layout.fats
  rootEntries : boot.rootEntries = layout.rootEntries
  totalSectors : boot.totalSectors = layout.totalSectors
  fatSectors : boot.fatSectors = layout.fatSectors
  media : isMediaDescriptor boot.media = true
  tail
    : (layout.fatType ≠ .fat32 ∧ ∃ volume, boot.tail = .fat1216 volume)
      ∨ (layout.fatType = .fat32 ∧ ∃ params volume, boot.tail = .fat32 params volume
          ∧ params.rootCluster = 2 ∧ params.fsInfoSector = fsInfoSector
          ∧ params.backupBootSector
            = (backupBootSector layout.reservedSectors fsInfoSector).getD 0)

/-- The writer narrows every field to itself. -/
theorem FatLayout.Described.bootSector_records (described : layout.Described request)
    {options : FormatOptions} (media : isMediaDescriptor options.media = true)
    : ∃ boot, bootSector layout options = .ok boot ∧ boot.Records layout := by
  have limit : u16Max = 65535 := rfl
  have bytes : layout.bytesPerSector < 2 ^ 16 := by
    rcases described.sector with size | size | size | size <;> omega
  have spc : layout.sectorsPerCluster < 2 ^ 8 := by have := described.cluster; omega
  have fats : layout.fats < 2 ^ 8 := by rcases described.fats with fats | fats <;> omega
  have reserved := described.reserved
  have rootEntries := described.rootEntries
  have pos := described.pos
  have fits := described.fits
  have clusters : layout.sectorsPerCluster ≤ layout.clusters * layout.sectorsPerCluster :=
    Nat.le_mul_of_pos_left _ pos
  have some_ : layout.totalSectors ≠ 0 := by have := described.cluster; omega
  have table := described.fatSectors_pos.ne'
  have total : ∀ boot : BootSector,
      (boot.totalSectors16, boot.totalSectors32)
        = (if layout.totalSectors ≤ u16Max then (layout.totalSectors, 0)
            else (0, layout.totalSectors))
      → boot.totalSectors = layout.totalSectors := by
    intro boot fields
    unfold BootSector.totalSectors
    split at fields
    all_goals
      obtain ⟨sixteen, thirtyTwo⟩ := Prod.mk.inj fields
      rw [sixteen, thirtyTwo]
      simp [some_]
  by_cases kind : layout.fatType = .fat32
  · have placements : layout.fat32 = some (fat32Layout layout.reservedSectors) := by
      rw [described.fat32, if_pos kind]
    refine ⟨_, by
      simp only [bootSector, described.fitsBootSector_eq, assertThat, placements]
      rfl, ?_⟩
    refine ⟨⟨rfl, rfl⟩, Nat.mod_eq_of_lt bytes, Nat.mod_eq_of_lt spc,
      Nat.mod_eq_of_lt (by omega), Nat.mod_eq_of_lt fats, Nat.mod_eq_of_lt (by omega),
      total _ rfl, rfl, media, .inr ⟨kind, _, _, rfl, rfl, rfl, rfl⟩⟩
  · have placements : layout.fat32 = none := by rw [described.fat32, if_neg kind]
    have narrow := described.narrow kind
    have same : layout.fatSectors % 2 ^ 16 = layout.fatSectors := Nat.mod_eq_of_lt (by omega)
    refine ⟨_, by
      simp only [bootSector, described.fitsBootSector_eq, assertThat, placements]
      rfl, ?_⟩
    refine ⟨⟨rfl, rfl⟩, Nat.mod_eq_of_lt bytes, Nat.mod_eq_of_lt spc,
      Nat.mod_eq_of_lt (by omega), Nat.mod_eq_of_lt fats, Nat.mod_eq_of_lt (by omega),
      total _ rfl, ?_, media, .inl ⟨kind, _, rfl⟩⟩
    simp only [BootSector.fatSectors, same]
    exact if_pos table

theorem defectIf_eq {bad : Bool} {field : String} {value : Nat} (good : bad = false)
    : defectIf bad field value = .ok () := by
  rw [good]
  rfl

/-- A planned count derives to the type it was planned for. -/
theorem FatLayout.Described.ofClusterCount_eq (described : layout.Described request)
    (kind : layout.fatType ≠ .fat32)
    : FatType.ofClusterCount layout.clusters = layout.fatType := by
  obtain ⟨low | undersized, high⟩ := described.range
  · cases same : layout.fatType with
    | fat32 => exact absurd same kind
    | fat12 =>
        rw [same] at high
        exact if_pos (Nat.lt_succ_of_le high)
    | fat16 =>
        rw [same] at low high
        have least : ¬ layout.clusters < maxClustersFat12 + 1 := by
          have := (show maxClustersFat12 + 1 ≤ minClustersFat16 by decide).trans low
          omega
        exact (if_neg least).trans
          (if_pos (lt_of_le_of_lt high (show maxClustersFat16 < minClustersFat32 by decide)))
  · exact absurd undersized.2 kind

section
variable {boot : BootSector}

theorem FatLayout.Described.checkRoot_eq (described : layout.Described request)
    (records : boot.Records layout)
    : checkRoot boot.tail layout.rootEntries = .ok () := by
  rcases records.tail with ⟨kind, volume, tail⟩ | ⟨kind, params, volume, tail, cluster, -⟩
  · have some_ : layout.rootEntries ≠ 0 := fun none_ => kind (described.rootless.mp none_)
    rw [tail]
    exact defectIf_eq (by simpa using some_)
  · have none_ := described.rootless.mpr kind
    rw [tail, none_]
    exact defectIf_eq (by simp [cluster])

theorem FatLayout.Described.deriveType_eq (described : layout.Described request)
    (records : boot.Records layout)
    : deriveType boot.tail layout.clusters = .ok layout.fatType := by
  rcases records.tail with ⟨kind, volume, tail⟩ | ⟨kind, params, volume, tail, -⟩
  · rw [tail, deriveType, described.ofClusterCount_eq kind]
    split
    next same => exact absurd same kind
    next => rfl
  · rw [tail, kind]
    rfl

theorem FatLayout.Described.derivePlacements_eq (described : layout.Described request)
    (records : boot.Records layout)
    : derivePlacements boot.tail layout.clusters layout.reservedSectors = .ok layout.fat32 := by
  rw [described.fat32]
  rcases records.tail with ⟨kind, volume, tail⟩
    | ⟨kind, params, volume, tail, cluster, info, backup⟩
  · rw [tail, if_neg kind]
    rfl
  · have pos := described.pos
    rw [tail, if_pos kind, derivePlacements,
      defectIf_eq (by simp [cluster, pos.ne']),
      fat32Placements_fat32Layout described.reserved.2 params cluster info backup]
    rfl

end

theorem checkedAdd_eq {a b : Nat} (fits : a + b ≤ u32Max) : checkedAdd a b = some (a + b) :=
  if_pos fits

/-- Reading the recorded fields gives the layout back, check by check. -/
theorem FatLayout.Described.layoutFromBoot_eq (described : layout.Described request)
    {boot : BootSector} (records : boot.Records layout) {available : Nat}
    (room : layout.totalBytes ≤ available)
    : layoutFromBoot boot available = .ok layout := by
  have total := described.total
  have first := described.first
  have fits := described.fits
  have full := described.full
  have pos := described.pos
  have table := described.table
  obtain ⟨spcPos, spcMost⟩ := described.cluster
  have derived := described.clusters_eq
  have bits : 0 < layout.fatType.entryBits := by cases layout.fatType <;> decide
  have tableSectors := described.fatSectors_pos.ne'
  have entries : layout.clusters + 2
      ≤ layout.fatSectors * layout.bytesPerSector * 8 / layout.fatType.entryBits :=
    (Nat.le_div_iff_mul_le bits).mpr table
  have rootSectors : min (divCeil (layout.rootEntries * dirEntryBytes) layout.bytesPerSector)
      u32Max = layout.rootDirSectors := by
    rw [show dirEntryBytes = 32 from rfl, ← described.root]
    exact Nat.min_eq_left (by omega)
  have tables : checkedMul layout.fats layout.fatSectors
      = some (layout.fats * layout.fatSectors) := checkedMul_eq_some.mpr ⟨by omega, rfl⟩
  have overhead : (checkedAdd layout.reservedSectors (layout.fats * layout.fatSectors)).bind
      (checkedAdd · layout.rootDirSectors) = some layout.firstDataSector := by
    rw [checkedAdd_eq (by omega), Option.bind_some, checkedAdd_eq (by omega), first]
  have data : checkedSub layout.totalSectors layout.firstDataSector
      = some (layout.totalSectors - layout.firstDataSector) :=
    checkedSub_eq_some.mpr ⟨by omega, rfl⟩
  have clusters : layout.sectorsPerCluster ≤ layout.clusters * layout.sectorsPerCluster :=
    Nat.le_mul_of_pos_left _ pos
  have some_ : layout.totalSectors ≠ 0 := by omega
  have room : layout.totalSectors * layout.bytesPerSector ≤ available := room
  have reserved := described.reserved.1
  have jump := records.jump
  unfold layoutFromBoot
  generalize boot.jump = jumped at *
  obtain ⟨j0, j1, j2⟩ := jumped
  obtain ⟨rfl, rfl⟩ := jump
  rw [records.bytesPerSector, records.sectorsPerCluster, records.reservedSectors, records.fats,
    records.rootEntries, records.totalSectors, records.fatSectors]
  simp only [rootSectors, tables]
  rw [defectIf_eq (by simp),
    defectIf_eq (by simp [PlanRequest.isSectorSize_iff.mpr described.sector]),
    defectIf_eq (by simp [described.power]; omega),
    defectIf_eq (by rcases described.fats with fats | fats <;> simp [fats]),
    defectIf_eq (by simp; omega),
    defectIf_eq (by simp [records.media]),
    defectIf_eq (by simpa using some_),
    defectIf_eq (by simpa using room),
    defectIf_eq (by simpa using tableSectors), described.checkRoot_eq records]
  simp only [bind, Except.bind, orDefect, overhead, data, derived]
  rw [defectIf_eq (by simp; omega)]
  simp only
  rw [described.deriveType_eq records]
  simp only
  rw [defectIf_eq (by simpa using described.range.2), defectIf_eq (by simpa using entries)]
  simp only
  rw [described.derivePlacements_eq records]
  rfl

end

/-- The regions of a volume in order. A volume of FAT32 has no fixed root region, and the
data region runs to the volume's end.
-/
def FatLayout.regions (layout : FatLayout) : List Span :=
  [⟨0, layout.reservedSectors⟩]
    ++ (List.range layout.fats).map
        (fun copy => ⟨layout.reservedSectors + copy * layout.fatSectors, layout.fatSectors⟩)
    ++ (if layout.rootDirSectors = 0 then []
        else
          [⟨layout.reservedSectors + layout.fats * layout.fatSectors, layout.rootDirSectors⟩])
    ++ [⟨layout.firstDataSector, layout.totalSectors - layout.firstDataSector⟩]

/-- What a layout promises of the volume it was planned for. -/
structure FatLayout.Sound (request : PlanRequest) (layout : FatLayout) : Prop where
  within : layout.totalSectors ≤ request.volumeBytes / request.bytesPerSector
  tiles : Tiles 0 layout.regions layout.totalSectors
  whole
    : (layout.totalSectors - layout.firstDataSector) / layout.sectorsPerCluster
      = layout.clusters
  entries
    : ∀ entry ≤ layout.clusters + 1,
        (entry + 1) * layout.fatType.entryBits ≤ layout.fatSectors * layout.bytesPerSector * 8
  range : InRange request.fatType layout.fatType layout.clusters
  undisputed
    : layout.clusters = 4085 ∨ layout.clusters = 4086
      → request.fatType = .undersizedFat32 ∧ layout.fatType = .fat32

section
variable {request : FatTypeRequest} {layout : FatLayout}

/-- The regions follow one another without a gap, with one table or two and with a root
region or without.
-/
theorem FatLayout.Described.tiles (described : layout.Described request)
    : Tiles 0 layout.regions layout.totalSectors := by
  have first := described.first
  have fits := described.fits
  have reserved := described.reserved.1
  have table := described.fatSectors_pos
  have cluster := Nat.mul_pos described.pos described.cluster.1
  unfold regions
  rcases described.fats with fats | fats <;> rw [fats] at first ⊢ <;> split
  all_goals
    simp only [List.range_succ, List.range_zero, List.nil_append, List.map_cons, List.map_nil,
      List.cons_append, List.append_nil, tiles_cons, tiles_nil, Span.stop_mk,
      true_and]
    omega

/-- A count in the range of its type is disputed on an undersized FAT32 only. -/
theorem InRange.undisputed {kind : FatType} {clusters : Nat}
    (range : InRange request kind clusters) (disputed : clusters = 4085 ∨ clusters = 4086)
    : request = .undersizedFat32 ∧ kind = .fat32 := by
  obtain ⟨low | undersized, high⟩ := range
  · cases kind with
    | fat12 =>
        have high : clusters ≤ 4084 := high
        omega
    | fat16 =>
        have low : 4087 ≤ clusters := low
        omega
    | fat32 =>
        have low : 65525 ≤ clusters := low
        omega
  · exact undersized

end

/-- The exception for an undersized FAT32 holds of the request as it was made. -/
theorem InRange.of_searchedType {request : PlanRequest} {kind : FatType} {clusters : Nat}
    (range : InRange request.searchedType kind clusters)
    : InRange request.fatType kind clusters :=
  ⟨range.1.imp_right fun undersized =>
      ⟨request.searchedType_eq_undersizedFat32 undersized.1, undersized.2⟩,
    range.2⟩

theorem FatLayout.Described.sound {request : PlanRequest} {layout : FatLayout}
    (described : layout.Described request.searchedType)
    (within : layout.totalSectors ≤ request.volumeBytes / request.bytesPerSector)
    : layout.Sound request where
  within := within
  tiles := described.tiles
  whole := described.clusters_eq
  entries entry last :=
    (Nat.mul_le_mul_right _ (show entry + 1 ≤ layout.clusters + 2 by omega)).trans
      described.table
  range := described.range.of_searchedType
  undisputed := described.range.of_searchedType.undisputed

/-- Planning never overflows and never fails its own assertion; a planned layout is sound;
and the boot sector the writer builds from it, on any options the writer takes and any source
large enough, reads back as that layout.
-/
theorem planLayout_roundTrip (request : PlanRequest)
    : planLayout request ≠ .error .panicked
      ∧ ∀ layout, planLayout request = .ok layout
        → layout.Sound request
          ∧ ∀ options available, isMediaDescriptor options.media = true
            → layout.totalBytes ≤ available
            → ∃ boot, bootSector layout options = .ok boot
              ∧ layoutFromBoot boot available = .ok layout := by
  obtain ⟨safe, promised⟩ := planLayout_ensures request
  refine ⟨safe, ?_⟩
  intro layout planned
  obtain ⟨described, within, -⟩ := promised layout planned
  refine ⟨described.sound within, ?_⟩
  intro options available media room
  obtain ⟨boot, built, records⟩ := described.bootSector_records media
  exact ⟨boot, built, described.layoutFromBoot_eq records room⟩

/-- A volume of 256 MiB on every default round-trips. -/
theorem planLayout_roundTrip_of_256MiB
    : ∃ layout, planLayout (.new (256 * 2 ^ 20)) = .ok layout
      ∧ ∃ boot, bootSector layout (.new 7) = .ok boot
        ∧ layoutFromBoot boot (256 * 2 ^ 20) = .ok layout := by
  refine ⟨_, rfl, ?_⟩
  exact ((planLayout_roundTrip (.new (256 * 2 ^ 20))).2 _ rfl).2 (.new 7) (256 * 2 ^ 20) rfl
    (by decide)

/-- An undersized FAT32 takes a count the drivers dispute on the smaller types. -/
theorem planLayout_disputed_fat32
    : ∃ layout,
        planLayout
            { PlanRequest.new 2140960 with
              fatType := .undersizedFat32
              sectorsPerCluster := .sectors 1 }
          = .ok layout
        ∧ layout.clusters = 4085 := by
  exact ⟨_, rfl, rfl⟩

end Ferrosys.Fat
