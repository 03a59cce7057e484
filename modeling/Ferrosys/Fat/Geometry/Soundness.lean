import Ferrosys.Library.Spans
import Ferrosys.Fat.Geometry.Candidates
import Ferrosys.Fat.Boot

/-! What a planned FAT layout promises: no overflow on the way to it, regions that tile the
volume, tables with room for every cluster, a count no driver disputes, and a boot sector that
gives the layout back.
-/

namespace Ferrosys.Fat

open Arith

/-- A computation does not panic, and what it answers satisfies `post`. -/
def Ensures {α : Type} (outcome : Checked α) (post : α → Prop) : Prop :=
  outcome ≠ .error .panicked ∧ ∀ a, outcome = .ok a → post a

namespace Ensures

variable {α β : Type} {post : α → Prop}

theorem ok {a : α} (holds : post a) : Ensures (.ok a) post :=
  ⟨nofun, fun _ same => Except.ok.inj same ▸ holds⟩

theorem refuse (error : GeometryError) : Ensures (refuse error) post :=
  ⟨nofun, nofun⟩

/-- A step that ensures what the rest needs carries the rest's promise. -/
theorem bind {first : Checked α} {rest : α → Checked β} {post' : β → Prop}
    (h : Ensures first post) (next : ∀ a, post a → Ensures (rest a) post')
    : Ensures (first >>= rest) post' := by
  cases first with
  | ok a => exact next a (h.2 a rfl)
  | error fault =>
      cases fault with
      | refused error => exact refuse error
      | panicked => exact absurd rfl h.1

theorem refuseIf (bad : Bool) (error : GeometryError)
    : Ensures (refuseIf bad error) fun _ => bad = false := by
  cases bad with
  | false => exact ok rfl
  | true => exact refuse error

end Ensures

-----------------------------------------------------------------------------------------
-- The search
-----------------------------------------------------------------------------------------

/-- What the request's checks have settled before the search. -/
structure Volume.Valid (v : Volume) : Prop where
  sector
    : v.bytesPerSector = 512 ∨ v.bytesPerSector = 1024 ∨ v.bytesPerSector = 2048
      ∨ v.bytesPerSector = 4096
  fats : v.fats = 1 ∨ v.fats = 2
  reserved : 0 < v.reserved ∧ v.reserved ≤ u16Max
  root : v.rootDirSectors ≤ 4096
  total : v.totalSectors ≤ u32Max

/-- The sectors before the tables. -/
def Volume.reservedAt (v : Volume) (spc : Nat) : Nat := alignUp v.reserved spc v.aligning

/-- The sectors of the root directory region. -/
def Volume.rootAt (v : Volume) (spc : Nat) : Nat := alignUp v.rootDirSectors spc v.aligning

/-- The sectors the tables and the data region share. -/
def Volume.fatDataSectors (v : Volume) (spc : Nat) : FatType → Nat
  | .fat32 => v.totalSectors - v.reservedAt spc
  | _ => v.totalSectors - v.reservedAt spc - v.rootAt spc

section
variable {v : Volume}

theorem Volume.Valid.sized (valid : v.Valid) {spc : Nat} (pos : 0 < spc) (most : spc ≤ 128)
    : Sized v.bytesPerSector spc v.fats :=
  ⟨valid.sector, ⟨pos, most⟩, valid.fats⟩

theorem Volume.Valid.reservedAt_bounds (valid : v.Valid) {spc : Nat} (pos : 0 < spc)
    (most : spc ≤ 128)
    : align v.reserved spc v.aligning = .ok (v.reservedAt spc)
      ∧ 0 < v.reservedAt spc ∧ v.reservedAt spc < 2 ^ 17 := by
  have reserved := valid.reserved
  have low := le_alignUp v.reserved v.aligning pos
  have high := alignUp_lt v.reserved v.aligning pos
  have room : v.reserved + spc ≤ u32Max := by
    have : u16Max + 128 ≤ u32Max := by decide
    omega
  have limit : u16Max + 128 ≤ 2 ^ 17 := by decide
  exact ⟨align_eq pos room, by unfold reservedAt; omega, by unfold reservedAt; omega⟩

theorem Volume.Valid.rootAt_bounds (valid : v.Valid) {spc : Nat} (pos : 0 < spc)
    (most : spc ≤ 128)
    : align v.rootDirSectors spc v.aligning = .ok (v.rootAt spc)
      ∧ v.rootAt spc < v.rootDirSectors + spc := by
  have root := valid.root
  have room : v.rootDirSectors + spc ≤ u32Max := by
    have : 4096 + 128 ≤ u32Max := by decide
    omega
  exact ⟨align_eq pos room, alignUp_lt _ _ pos⟩

/-- Each candidate of a pass reaches what it says, from the sectors its type shares. -/
theorem Volume.Valid.candidates_spec (valid : v.Valid) {spc : Nat} (pos : 0 < spc)
    (most : spc ≤ 128)
    : ∃ candidates, v.candidates spc = .ok candidates
      ∧ ∀ kind c, candidates.get kind = some c
        → v.reservedAt spc + v.rootAt spc ≤ v.totalSectors
          ∧ Reaches (v.fatDataSectors spc kind) kind.entryBits v.bytesPerSector spc v.fats
              v.aligning c := by
  have sized := valid.sized pos most
  simp only [candidates, (valid.reservedAt_bounds pos most).1,
    (valid.rootAt_bounds pos most).1, bind, Except.bind]
  split
  next => exact ⟨_, rfl, fun kind c found => by cases kind <;> cases found⟩
  next fatData32 left =>
    obtain ⟨reserved, rfl⟩ := checkedSub_eq_some.mp left
    split
    next => exact ⟨_, rfl, fun kind c found => by cases kind <;> cases found⟩
    next fatData1216 left =>
      obtain ⟨root, rfl⟩ := checkedSub_eq_some.mp left
      obtain ⟨twelve, isTwelve, reachesTwelve⟩ := candidate_spec sized v.aligning
        (v.totalSectors - v.reservedAt spc - v.rootAt spc) FatType.fat12.entryBits_isWidth
      obtain ⟨sixteen, isSixteen, reachesSixteen⟩ := candidate_spec sized v.aligning
        (v.totalSectors - v.reservedAt spc - v.rootAt spc) FatType.fat16.entryBits_isWidth
      obtain ⟨thirtyTwo, isThirtyTwo, reachesThirtyTwo⟩ := candidate_spec sized v.aligning
        (v.totalSectors - v.reservedAt spc) FatType.fat32.entryBits_isWidth
      simp only [FatType.entryBits] at isTwelve isSixteen isThirtyTwo
      simp only [isTwelve, isSixteen, isThirtyTwo]
      refine ⟨_, rfl, fun kind c found => ⟨by omega, ?_⟩⟩
      cases kind with
      | fat12 => exact reachesTwelve c found
      | fat16 => exact reachesSixteen c found
      | fat32 => exact reachesThirtyTwo c found

end

/-- The request heads for FAT32. -/
def FatTypeRequest.NamesFat32 (request : FatTypeRequest) : Prop :=
  request = .exactly .fat32 ∨ request = .undersizedFat32

/-- A count in the range of its type, an undersized FAT32 excepted. -/
def InRange (request : FatTypeRequest) (kind : FatType) (clusters : Nat) : Prop :=
  (kind.minClusters ≤ clusters ∨ (request = .undersizedFat32 ∧ kind = .fat32))
    ∧ clusters ≤ kind.maxClusters

theorem fits_eq_some {request : FatTypeRequest} {candidates : Candidates} {kind : FatType}
    {c : Candidate} (found : fits request candidates kind = some c)
    : candidates.get kind = some c ∧ InRange request kind c.clusters := by
  simp only [fits, Option.filter_eq_some_iff, Bool.and_eq_true, decide_eq_true_eq] at found
  obtain ⟨isCandidate, low, high⟩ := found
  refine ⟨isCandidate, ?_, high⟩
  split at low
  next undersized => exact .inr undersized
  next => exact .inl low

/-- What is selected is a candidate in range, and FAT32 exactly where the request names it. -/
theorem select_eq_some {request : FatTypeRequest} {candidates : Candidates} {kind : FatType}
    {c : Candidate} (found : select request candidates = some (kind, c))
    : candidates.get kind = some c ∧ InRange request kind c.clusters
      ∧ (kind = .fat32 ↔ request.NamesFat32) := by
  cases request with
  | exactly named =>
      simp only [select, Option.map_eq_some_iff, Prod.mk.injEq] at found
      obtain ⟨c', fit, rfl, rfl⟩ := found
      exact ⟨(fits_eq_some fit).1, (fits_eq_some fit).2, by simp [FatTypeRequest.NamesFat32]⟩
  | undersizedFat32 =>
      simp only [select, Option.map_eq_some_iff, Prod.mk.injEq] at found
      obtain ⟨c', fit, rfl, rfl⟩ := found
      exact ⟨(fits_eq_some fit).1, (fits_eq_some fit).2, by simp [FatTypeRequest.NamesFat32]⟩
  | auto =>
      have small : (kind = .fat12 ∨ kind = .fat16) ∧ fits .auto candidates kind = some c := by
        simp only [select] at found
        split at found
        next a b twelve sixteen =>
          split at found <;> cases found
          · exact ⟨.inr rfl, sixteen⟩
          · exact ⟨.inl rfl, twelve⟩
        next a twelve _ =>
          cases found
          exact ⟨.inl rfl, twelve⟩
        next b _ sixteen =>
          cases found
          exact ⟨.inr rfl, sixteen⟩
        next => cases found
      obtain ⟨isCandidate, inRange⟩ := fits_eq_some small.2
      refine ⟨isCandidate, inRange, ?_⟩
      rcases small.1 with rfl | rfl <;> simp [FatTypeRequest.NamesFat32]

theorem stepDown_eq_some {request : FatTypeRequest} {candidates : Candidates} {c : Candidate}
    (found : stepDown request candidates = some c)
    : candidates.get .fat12 = some c ∧ maxClustersFat12 < c.clusters
      ∧ ¬ request.NamesFat32 := by
  unfold stepDown at found
  split at found
  next permitted =>
    split at found
    next => cases found
    next twelve isTwelve =>
      split at found
      next => cases found
      next more =>
        have same : twelve = c := by
          split at found
          next => split at found <;> simp_all
          next => cases found
        subst same
        refine ⟨isTwelve, not_le.mp more, ?_⟩
        rcases permitted with rfl | rfl <;> simp [FatTypeRequest.NamesFat32]
  next => cases found

/-- What the search settles on: a cluster size it may use, a candidate that reaches what it
says there, and a count in range or one to be shortened.
-/
structure Settled (v : Volume) (request : FatTypeRequest) (chosen : Chosen) : Prop where
  power : isPowerOfTwo chosen.spc = true
  cluster : 0 < chosen.spc ∧ chosen.spc ≤ 128
  room : v.reservedAt chosen.spc + v.rootAt chosen.spc ≤ v.totalSectors
  reaches
    : Reaches (v.fatDataSectors chosen.spc chosen.fatType) chosen.fatType.entryBits
        v.bytesPerSector chosen.spc v.fats v.aligning chosen.candidate
  range
    : InRange request chosen.fatType chosen.candidate.clusters
      ∨ (chosen.fatType = .fat12 ∧ maxClustersFat12 < chosen.candidate.clusters)
  kind : chosen.fatType = .fat32 ↔ request.NamesFat32

theorem isPowerOfTwo_two_pow (k : Nat) : isPowerOfTwo (2 ^ k) = true := by
  simp [isPowerOfTwo, Nat.log2_two_pow]

/-- The search never overflows, and what it settles on is settled, by induction on its
doublings: each pass tries a power of two up to the last.
-/
theorem search_spec {v : Volume} (valid : v.Valid) (request : FatTypeRequest)
    {fuel j m : Nat} (upTo : j ≤ m) (most : m ≤ 7) (enough : 2 ^ m - 2 ^ j < fuel)
    (positive : 2 ^ j < 2 ^ m → 0 < 2 ^ j)
    : Ensures (search v request (2 ^ m) fuel (2 ^ j) enough positive) (Settled v request) := by
  induction fuel generalizing j with
  | zero => exact absurd enough (Nat.not_lt_zero _)
  | succ fuel ih =>
      have pos : 0 < 2 ^ j := Nat.two_pow_pos j
      have last : 2 ^ m ≤ 2 ^ 7 := Nat.pow_le_pow_right (by decide) most
      have size : 2 ^ j ≤ 2 ^ m := Nat.pow_le_pow_right (by decide) upTo
      obtain ⟨candidates, computed, reaches⟩ :=
        valid.candidates_spec pos (show 2 ^ j ≤ 128 by omega)
      simp only [search, computed, bind, Except.bind, pure, Except.pure]
      split
      next kind c selected =>
        obtain ⟨isCandidate, inRange, named⟩ := select_eq_some selected
        obtain ⟨room, reached⟩ := reaches kind c isCandidate
        exact .ok ⟨isPowerOfTwo_two_pow j, ⟨pos, by simp only; omega⟩, room, reached,
          .inl inRange, named⟩
      next =>
        split
        next more =>
          have further : j < m := (Nat.pow_lt_pow_iff_right (by decide)).mp more
          have fits : 2 ^ j * 2 ≤ u32Max := by
            have : 128 * 2 ≤ u32Max := by decide
            omega
          rw [if_pos fits]
          have next_ := ih (j := j + 1) further (by rw [Nat.pow_succ]; omega)
            (fun _ => Nat.two_pow_pos _)
          simp only [Nat.pow_succ] at next_
          exact next_
        next =>
          split
          next c stepped =>
            obtain ⟨isTwelve, disputed, unnamed⟩ := stepDown_eq_some stepped
            obtain ⟨room, reached⟩ := reaches .fat12 c isTwelve
            exact .ok ⟨isPowerOfTwo_two_pow j, ⟨pos, by simp only; omega⟩, room, reached,
              .inr ⟨rfl, disputed⟩, by simp [unnamed]⟩
          next => exact .refuse _

theorem searchFrom_spec {v : Volume} (valid : v.Valid) (request : FatTypeRequest)
    {sizes : ClusterSizes} {j m : Nat} (same : sizes.val = (2 ^ j, 2 ^ m)) (upTo : j ≤ m)
    (most : m ≤ 7)
    : Ensures (searchFrom v request sizes) (Settled v request) := by
  obtain ⟨⟨first, last⟩, positive⟩ := sizes
  cases same
  exact search_spec valid request upTo most _ _

-----------------------------------------------------------------------------------------
-- The layout of what the search chose
-----------------------------------------------------------------------------------------

/-- What the counts of a layout promise, however they were arrived at. -/
structure Counts.Fill (v : Volume) (request : FatTypeRequest) (chosen : Chosen)
    (counts : Counts)
    : Prop where
  pos : 0 < counts.clusters
  within : counts.totalSectors ≤ v.totalSectors
  fits
    : v.reservedAt chosen.spc + v.fats * counts.fatSectors + v.rootAt chosen.spc
        + counts.clusters * chosen.spc
      ≤ counts.totalSectors
  full
    : counts.totalSectors
      < v.reservedAt chosen.spc + v.fats * counts.fatSectors + v.rootAt chosen.spc
        + (counts.clusters + 1) * chosen.spc
  table
    : ∃ entries, counts.clusters ≤ entries ∧ entries ≤ counts.clusters + 5
      ∧ counts.fatSectors
        = tableSize entries chosen.fatType.entryBits v.bytesPerSector chosen.spc v.aligning
  range : InRange request chosen.fatType counts.clusters

section
variable {v : Volume} {request : FatTypeRequest} {chosen : Chosen}

/-- FAT32 has no fixed root region. -/
def Volume.RootMatches (v : Volume) (request : FatTypeRequest) : Prop :=
  request.NamesFat32 → v.rootDirSectors = 0

/-- The tables and the data region share what the reserved and root regions leave, on every
type.
-/
theorem Settled.fatDataSectors_eq (settled : Settled v request chosen)
    (root : v.RootMatches request)
    : v.fatDataSectors chosen.spc chosen.fatType
      = v.totalSectors - v.reservedAt chosen.spc - v.rootAt chosen.spc := by
  cases kind : chosen.fatType with
  | fat12 => rfl
  | fat16 => rfl
  | fat32 =>
      have none_ := root (settled.kind.mp kind)
      have zero : v.rootAt chosen.spc = 0 := by
        rw [Volume.rootAt, none_]
        exact alignUp_zero settled.cluster.1
      rw [zero]
      rfl

/-- Shortening never overflows: a table for fewer clusters is no larger, and the shortened
data region is a part of the one it replaces.
-/
theorem Settled.shorten_spec (settled : Settled v request chosen) (valid : v.Valid)
    (root : v.RootMatches request)
    : ∃ counts, shorten v chosen (v.reservedAt chosen.spc) (v.rootAt chosen.spc) = .ok counts
      ∧ counts.Fill v request chosen := by
  have sized := valid.sized settled.cluster.1 settled.cluster.2
  have width := chosen.fatType.entryBits_isWidth
  have small : v.fatDataSectors chosen.spc chosen.fatType ≤ u32Max := by
    have := valid.total
    rw [settled.fatDataSectors_eq root]
    omega
  have low := settled.reaches.le_estimate sized width small
  have high := settled.reaches.estimate_le sized width small
  have fits := settled.reaches.fits
  have full := settled.reaches.full
  have table := settled.reaches.table
  rw [settled.fatDataSectors_eq root] at fits full
  have room := settled.room
  unfold shorten
  split
  next disputed =>
    obtain ⟨twelve, more⟩ := disputed
    have more : maxClustersFat12 + 1 ≤ chosen.candidate.clusters := more
    have shorter : tableSize maxClustersFat12 12 v.bytesPerSector chosen.spc v.aligning
        ≤ chosen.candidate.fatSectors := by
      rw [twelve] at table low
      rw [table]
      exact tableSize_mono sized (.inl rfl) (by omega)
    have tables := Nat.mul_le_mul_left v.fats shorter
    have fewer := Nat.mul_le_mul_right chosen.spc more
    rw [Nat.add_mul] at fewer
    have total := valid.total
    rw [tableSectors_eq sized (.inl rfl) (by decide)]
    simp only [bind, Except.bind, mul32, add32, inU32, pure, Except.pure]
    rw [if_pos (by omega), if_pos (by omega)]
    simp only
    rw [if_pos (by omega)]
    simp only
    rw [if_pos (by omega)]
    simp only
    rw [if_pos (by omega)]
    refine ⟨_, rfl, ?_⟩
    have clusters : maxClustersFat12 = 4084 := rfl
    refine ⟨by simp only; omega, by simp only; omega, by simp only; omega, ?_, ?_, ?_⟩
    · simp only [Nat.add_mul]
      have := settled.cluster
      omega
    · exact ⟨maxClustersFat12, le_rfl, Nat.le_add_right _ _, by rw [twelve]; rfl⟩
    · rw [twelve]
      exact ⟨.inl (show 1 ≤ 4084 by decide), le_rfl⟩
  next undisputed =>
    refine ⟨_, rfl, ?_⟩
    refine ⟨settled.reaches.pos, le_rfl, by simp only; omega, by simp only; omega,
      ⟨_, low, high, table⟩, ?_⟩
    rcases settled.range with inRange | disputed
    · exact inRange
    · exact absurd disputed undisputed

/-- A layout whose fields agree with one another, and fit the boot sector fields that record
them.
-/
structure FatLayout.Described (request : FatTypeRequest) (layout : FatLayout) : Prop where
  sector
    : layout.bytesPerSector = 512 ∨ layout.bytesPerSector = 1024
      ∨ layout.bytesPerSector = 2048 ∨ layout.bytesPerSector = 4096
  power : isPowerOfTwo layout.sectorsPerCluster = true
  cluster : 0 < layout.sectorsPerCluster ∧ layout.sectorsPerCluster ≤ 128
  fats : layout.fats = 1 ∨ layout.fats = 2
  reserved : 0 < layout.reservedSectors ∧ layout.reservedSectors ≤ u16Max
  rootEntries : layout.rootEntries ≤ u16Max
  rootless : layout.rootEntries = 0 ↔ layout.fatType = .fat32
  root : layout.rootDirSectors = divCeil (layout.rootEntries * 32) layout.bytesPerSector
  first
    : layout.firstDataSector
      = layout.reservedSectors + layout.fats * layout.fatSectors + layout.rootDirSectors
  total : layout.totalSectors ≤ u32Max
  pos : 0 < layout.clusters
  fits
    : layout.firstDataSector + layout.clusters * layout.sectorsPerCluster
      ≤ layout.totalSectors
  full
    : layout.totalSectors
      < layout.firstDataSector + (layout.clusters + 1) * layout.sectorsPerCluster
  table
    : (layout.clusters + 2) * layout.fatType.entryBits
      ≤ layout.fatSectors * layout.bytesPerSector * 8
  narrow : layout.fatType ≠ .fat32 → layout.fatSectors ≤ u16Max
  range : InRange request layout.fatType layout.clusters
  fat32
    : layout.fat32
      = if layout.fatType = .fat32 then some (fat32Layout layout.reservedSectors) else none

/-- A table of a few more entries than it has clusters has room for every cluster, and on
the smaller two types its sectors fit sixteen bits.
-/
theorem Counts.Fill.table_bounds {counts : Counts} (fill : counts.Fill v request chosen)
    (sized : Sized v.bytesPerSector chosen.spc v.fats)
    : (counts.clusters + 2) * chosen.fatType.entryBits
        ≤ counts.fatSectors * v.bytesPerSector * 8
      ∧ (chosen.fatType ≠ .fat32 → counts.fatSectors ≤ u16Max) := by
  obtain ⟨entries, low, high, table⟩ := fill.table
  have width := chosen.fatType.entryBits_isWidth
  obtain ⟨holds, wastes⟩ :=
    tableSize_bounds sized entries chosen.fatType.entryBits v.aligning
  rw [← table] at holds wastes
  obtain ⟨least, most⟩ := tableBytes_bounds entries width
  have range := fill.range.2
  have sector := sized.sector_bounds
  constructor
  · rcases width with bits | bits | bits <;> rw [bits] at least holds ⊢ <;> omega
  · intro small
    have few : counts.clusters ≤ maxClustersFat16 := by
      cases kind : chosen.fatType with
      | fat12 =>
          rw [kind] at range
          exact range.trans (by decide)
      | fat16 =>
          rw [kind] at range
          exact range
      | fat32 => exact absurd kind small
    have bytes : tableBytes entries chosen.fatType.entryBits ≤ 131063 := by
      have limit : maxClustersFat16 = 65524 := rfl
      cases kind : chosen.fatType with
      | fat12 =>
          rw [kind, FatType.entryBits] at most
          rw [FatType.entryBits]
          omega
      | fat16 =>
          rw [kind, FatType.entryBits] at most
          rw [FatType.entryBits]
          omega
      | fat32 => exact absurd kind small
    by_contra wide
    have sectors : 65536 ≤ counts.fatSectors := by
      have : u16Max = 65535 := rfl
      omega
    have scaled := Nat.mul_le_mul_right v.bytesPerSector sectors
    have cluster := Nat.mul_le_mul_right v.bytesPerSector sized.cluster.2
    omega

/-- Laying out what was settled neither overflows nor fails its assertion, and the layout's
fields agree.
-/
theorem Settled.settle_spec (settled : Settled v request chosen) (valid : v.Valid)
    {rootEntriesRequested : Nat}
    (rootless : rootEntriesRequested = 0 ↔ request.NamesFat32)
    (root : v.rootDirSectors = divCeil (rootEntriesRequested * 32) v.bytesPerSector)
    : Ensures (settle v rootEntriesRequested chosen) fun layout =>
        layout.Described request ∧ layout.totalSectors ≤ v.totalSectors
        ∧ layout.bytesPerSector = v.bytesPerSector := by
  have sized := valid.sized settled.cluster.1 settled.cluster.2
  have sector := sized.sector_bounds
  have pos := settled.cluster.1
  have total := valid.total
  have rootMatches : v.RootMatches request := fun named => by
    rw [root, rootless.mpr named]
    exact Nat.le_zero.mp ((divCeil_le_iff (by omega)).mpr (Nat.zero_le _))
  obtain ⟨counts, shortened, fill⟩ := settled.shorten_spec valid rootMatches
  obtain ⟨reservedEq, reservedPos, -⟩ :=
    valid.reservedAt_bounds settled.cluster.1 settled.cluster.2
  obtain ⟨rootEq, rootMost⟩ := valid.rootAt_bounds settled.cluster.1 settled.cluster.2
  obtain ⟨room, narrow⟩ := fill.table_bounds sized
  have within := fill.within
  have fits := fill.fits
  have full := fill.full
  have derived : (counts.totalSectors
      - (v.reservedAt chosen.spc + v.fats * counts.fatSectors + v.rootAt chosen.spc))
        / chosen.spc = counts.clusters := by
    refine Nat.div_eq_of_lt_le ?_ ?_
    · omega
    · omega
  have mod32 : v.bytesPerSector / 32 * 32 = v.bytesPerSector := by
    rcases valid.sector with size | size | size | size <;> rw [size]
  have recorded : ∃ rootEntries,
      recordedRootEntries v (v.rootAt chosen.spc) rootEntriesRequested = .ok rootEntries
      ∧ v.rootAt chosen.spc = divCeil (rootEntries * 32) v.bytesPerSector
      ∧ (rootEntries = 0 ↔ request.NamesFat32) := by
    cases aligning : v.aligning with
    | false =>
        refine ⟨rootEntriesRequested, by simp [recordedRootEntries, aligning], ?_, rootless⟩
        rw [Volume.rootAt, aligning, ← root]
        rfl
    | true =>
        refine ⟨v.rootAt chosen.spc * (v.bytesPerSector / 32), ?_, ?_, ?_⟩
        · have bound : v.rootAt chosen.spc * (v.bytesPerSector / 32) ≤ (4096 + 128) * 128 :=
            Nat.mul_le_mul (by have := valid.root; have := settled.cluster; omega) (by omega)
          have small : (4096 + 128) * 128 ≤ u32Max := by decide
          simp only [recordedRootEntries, aligning, if_true, mul32, inU32]
          exact if_pos (bound.trans small)
        · rw [Nat.mul_assoc, mod32, divCeil_mul_right (by omega)]
        · rw [← rootless]
          have ratio : 0 < v.bytesPerSector / 32 := by omega
          have least := le_alignUp v.rootDirSectors v.aligning pos
          constructor
          · intro zero
            have none_ : v.rootAt chosen.spc = 0 :=
              (Nat.mul_eq_zero.mp zero).resolve_right ratio.ne'
            have : divCeil (rootEntriesRequested * 32) v.bytesPerSector ≤ 0 := by
              rw [← root]
              exact least.trans none_.le
            have := (divCeil_le_iff (by omega)).mp this
            omega
          · intro zero
            rw [Volume.rootAt, rootMatches (rootless.mp zero), alignUp_zero pos, Nat.zero_mul]
  obtain ⟨rootEntries, entriesEq, rootDir, entriesZero⟩ := recorded
  simp only [settle, reservedEq, rootEq, shortened, bind, Except.bind, mul32, add32, inU32, sub32,
    div32, if_neg pos.ne', pure, Except.pure]
  rw [if_pos (by omega)]
  simp only
  rw [if_pos (by omega)]
  simp only
  rw [if_pos (by omega)]
  simp only
  rw [if_pos (by omega)]
  simp only [derived, beq_self_eq_true, assertThat, if_true, entriesEq]
  refine (Ensures.refuseIf _ _).bind fun _ fewEntries => ?_
  refine (Ensures.refuseIf _ _).bind fun _ fewReserved => ?_
  simp only [decide_eq_false_iff_not, not_lt] at fewEntries fewReserved
  refine .ok ⟨?_, within, rfl⟩
  exact {
    sector := valid.sector
    power := settled.power
    cluster := settled.cluster
    fats := valid.fats
    reserved := ⟨reservedPos, fewReserved⟩
    rootEntries := fewEntries
    rootless := entriesZero.trans settled.kind.symm
    root := rootDir
    first := rfl
    total := within.trans total
    pos := fill.pos
    fits := fits
    full := full
    table := room
    narrow := narrow
    range := fill.range
    fat32 := rfl
  }

end

-----------------------------------------------------------------------------------------
-- The plan
-----------------------------------------------------------------------------------------

namespace PlanRequest

variable (request : PlanRequest)

theorem searchedType_namesFat32
    : request.searchedType.NamesFat32 ↔ request.fat32Intended = true := by
  unfold searchedType
  split
  next intended => simp [FatTypeRequest.NamesFat32, intended.2]
  next other =>
      cases named : request.fatType with
      | auto =>
          have unintended : request.fat32Intended = false := by simpa [named] using other
          simp [FatTypeRequest.NamesFat32, unintended]
      | undersizedFat32 => simp [FatTypeRequest.NamesFat32, fat32Intended, named]
      | exactly kind => cases kind <;> simp [FatTypeRequest.NamesFat32, fat32Intended, named]

/-- A search for an undersized FAT32 was asked for by name. -/
theorem searchedType_eq_undersizedFat32
    (searched : request.searchedType = .undersizedFat32)
    : request.fatType = .undersizedFat32 := by
  unfold searchedType at searched
  split at searched
  · cases searched
  · exact searched

theorem isSectorSize_iff {bytes : Nat}
    : isSectorSize bytes = true
      ↔ bytes = 512 ∨ bytes = 1024 ∨ bytes = 2048 ∨ bytes = 4096 := by
  simp [isSectorSize, or_assoc]

/-- What validation leaves of a request. -/
structure Validated : Prop where
  sector
    : request.bytesPerSector = 512 ∨ request.bytesPerSector = 1024
      ∨ request.bytesPerSector = 2048 ∨ request.bytesPerSector = 4096
  fats : request.fats = 1 ∨ request.fats = 2
  cluster : ∀ n, request.sectorsPerCluster = .sectors n → ∃ k ≤ 7, n = 2 ^ k

theorem validate_ensures : Ensures request.validate fun _ => request.Validated := by
  refine (Ensures.refuseIf _ _).bind fun _ sector => ?_
  refine (Ensures.refuseIf _ _).bind fun _ fats => ?_
  simp only [Bool.not_eq_false', isSectorSize_iff, Bool.or_eq_true, beq_iff_eq] at sector fats
  split
  next auto => exact .ok ⟨sector, fats, fun n pinned => by rw [auto] at pinned; cases pinned⟩
  next n pinned =>
    refine (Ensures.refuseIf _ _).bind fun _ cluster => ?_
    simp only [Bool.or_eq_false_iff, Bool.not_eq_false', isPowerOfTwo, beq_iff_eq,
      decide_eq_false_iff_not, not_lt] at cluster
    obtain ⟨power, most⟩ := cluster
    refine ⟨by simp [Fat.refuseIf, Fat.refuse]; split <;> simp, fun _ _ => ⟨sector, fats, ?_⟩⟩
    intro n' same
    rw [pinned] at same
    cases same
    refine ⟨n.log2, ?_, power⟩
    by_contra more
    have := Nat.pow_le_pow_right (show 0 < 2 by decide) (show 8 ≤ n.log2 by omega)
    omega

theorem reservedRequested_ensures
    : Ensures request.reservedRequested fun reserved => 0 < reserved ∧ reserved ≤ u16Max := by
  refine (Ensures.refuseIf _ _).bind fun _ least => ?_
  refine (Ensures.refuseIf _ _).bind fun _ most => ?_
  simp only [decide_eq_false_iff_not, not_lt] at least most
  refine .ok ⟨lt_of_lt_of_le ?_ least, most⟩
  split <;> decide

theorem rootEntriesRequested_ensures
    : Ensures request.rootEntriesRequested fun entries =>
        entries ≤ u16Max ∧ (entries = 0 ↔ request.fat32Intended = true) := by
  unfold rootEntriesRequested
  split
  next intended =>
    split
    next => exact .ok ⟨by decide, by simp [intended]⟩
    next n _ =>
      split
      next => exact .refuse _
      next => exact .ok ⟨by decide, by simp [intended]⟩
  next unintended =>
    cases request.rootEntries with
    | auto =>
        simp only
        rw [if_neg (by decide)]
        exact .ok ⟨by decide, by simp [unintended]⟩
    | count n =>
        simp only
        split
        next => exact .refuse _
        next kept =>
          simp only [not_or, not_lt] at kept
          exact .ok ⟨kept.2, by simp [kept.1, unintended]⟩

/-- The cluster sizes to try are powers of two, up to 128. -/
theorem clusterSizes_spec {request : PlanRequest} (valid : request.Validated)
    (fat32Intended : Bool)
    : ∃ j m, (request.clusterSizes fat32Intended).val = (2 ^ j, 2 ^ m) ∧ j ≤ m ∧ m ≤ 7 := by
  unfold clusterSizes
  split
  next n pinned =>
    obtain ⟨k, most, rfl⟩ := valid.cluster n pinned
    exact ⟨k, k, rfl, le_rfl, most⟩
  next =>
    have ceiling : ∃ m ≤ 7, min (max (maxBytesPerCluster / request.bytesPerSector) 1) 128
        = 2 ^ m := by
      rcases valid.sector with size | size | size | size <;> rw [size]
      · exact ⟨6, by decide, rfl⟩
      · exact ⟨5, by decide, rfl⟩
      · exact ⟨4, by decide, rfl⟩
      · exact ⟨3, by decide, rfl⟩
    have starting : ∃ j, startingClusterSize fat32Intended
        (request.volumeBytes / request.bytesPerSector) = 2 ^ j := by
      unfold startingClusterSize
      split_ifs
      · exact ⟨2, rfl⟩
      · exact ⟨6, rfl⟩
      · exact ⟨5, rfl⟩
      · exact ⟨4, rfl⟩
      · exact ⟨3, rfl⟩
      · exact ⟨0, rfl⟩
    obtain ⟨m, most, isCeiling⟩ := ceiling
    obtain ⟨j, isStarting⟩ := starting
    simp only [isCeiling, isStarting]
    rcases le_total j m with below | above
    · have := Nat.pow_le_pow_right (show 0 < 2 by decide) below
      exact ⟨j, m, by rw [Nat.min_eq_left this], below, most⟩
    · have := Nat.pow_le_pow_right (show 0 < 2 by decide) above
      exact ⟨m, m, by rw [Nat.min_eq_right this], le_rfl, most⟩

end PlanRequest

/-- Planning never panics, and a planned layout's fields agree. -/
theorem planLayout_ensures (request : PlanRequest)
    : Ensures (planLayout request) fun layout =>
        layout.Described request.searchedType
        ∧ layout.totalSectors ≤ request.volumeBytes / request.bytesPerSector
        ∧ layout.bytesPerSector = request.bytesPerSector := by
  refine request.validate_ensures.bind fun _ validated => ?_
  refine (Ensures.refuseIf _ _).bind fun _ small => ?_
  simp only [decide_eq_false_iff_not, not_lt] at small
  refine request.reservedRequested_ensures.bind fun reserved reservedRange => ?_
  refine request.rootEntriesRequested_ensures.bind fun entries entriesRange => ?_
  have sectorPos : request.bytesPerSector ≠ 0 := by
    rcases validated.sector with size | size | size | size <;> omega
  have least : 512 ≤ request.bytesPerSector := by
    rcases validated.sector with size | size | size | size <;> omega
  have rootBytes : entries * 32 ≤ 65535 * 32 := Nat.mul_le_mul_right 32 entriesRange.1
  have fits : entries * 32 ≤ u32Max := rootBytes.trans (by decide)
  simp only [mul32, inU32, if_pos fits, divCeil32, if_neg sectorPos]
  have valid : Volume.Valid
      {
        totalSectors := request.volumeBytes / request.bytesPerSector
        bytesPerSector := request.bytesPerSector
        fats := request.fats
        reserved := reserved
        rootDirSectors := divCeil (entries * 32) request.bytesPerSector
        aligning := request.volumeBytes / request.bytesPerSector > alignmentThresholdSectors
      } :=
    {
      sector := validated.sector
      fats := validated.fats
      reserved := reservedRange
      root := (divCeil_le_iff (by omega)).mpr (by omega)
      total := small
    }
  obtain ⟨j, m, sizes, upTo, most⟩ :=
    PlanRequest.clusterSizes_spec validated request.fat32Intended
  exact (searchFrom_spec valid request.searchedType sizes upTo most).bind fun _ settled =>
    settled.settle_spec valid (entriesRange.2.trans request.searchedType_namesFat32.symm) rfl

end Ferrosys.Fat
