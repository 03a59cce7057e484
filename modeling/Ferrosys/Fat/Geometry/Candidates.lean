import Ferrosys.Fat.Geometry

/-! What the planner's circular computation arrives at: the table sized for the estimate has
room for every cluster, and the clusters fill the space it leaves.
-/

namespace Ferrosys.Fat

open Arith

/-- The sector counts rounded as `align` rounds them, where nothing overflows. -/
def alignUp (sectors spc : Nat) (aligning : Bool) : Nat :=
  if aligning then divCeil sectors spc * spc else sectors

theorem le_alignUp (sectors : Nat) {spc : Nat} (aligning : Bool) (pos : 0 < spc)
    : sectors ≤ alignUp sectors spc aligning := by
  unfold alignUp
  split
  · exact le_divCeil_mul pos
  · exact le_rfl

theorem alignUp_lt (sectors : Nat) {spc : Nat} (aligning : Bool) (pos : 0 < spc)
    : alignUp sectors spc aligning < sectors + spc := by
  unfold alignUp
  split
  · exact divCeil_mul_lt pos
  · omega

theorem alignUp_mono {sectors sectors' spc : Nat} {aligning : Bool} (pos : 0 < spc)
    (le : sectors ≤ sectors')
    : alignUp sectors spc aligning ≤ alignUp sectors' spc aligning := by
  unfold alignUp
  split
  · exact Nat.mul_le_mul_right _ (divCeil_mono pos le)
  · exact le

theorem alignUp_zero {spc : Nat} {aligning : Bool} (pos : 0 < spc)
    : alignUp 0 spc aligning = 0 := by
  have zero : divCeil 0 spc ≤ 0 := (divCeil_le_iff pos).mpr (Nat.zero_le _)
  simp [alignUp, Nat.le_zero.mp zero]

theorem align_eq {sectors spc : Nat} {aligning : Bool} (pos : 0 < spc)
    (room : sectors + spc ≤ u32Max)
    : align sectors spc aligning = .ok (alignUp sectors spc aligning) := by
  have below := alignUp_lt sectors aligning pos
  cases aligning with
  | false => rfl
  | true =>
      simp only [align, divCeil32, if_neg pos.ne', if_true, mul32, inU32, alignUp] at below ⊢
      exact if_pos (by omega)

/-- The sizes a search works with, once the request is validated. -/
structure Sized (bytesPerSector spc fats : Nat) : Prop where
  sector
    : bytesPerSector = 512 ∨ bytesPerSector = 1024 ∨ bytesPerSector = 2048
      ∨ bytesPerSector = 4096
  cluster : 0 < spc ∧ spc ≤ 128
  fats : fats = 1 ∨ fats = 2

theorem Sized.sector_bounds {bytesPerSector spc fats : Nat}
    (sized : Sized bytesPerSector spc fats)
    : 512 ≤ bytesPerSector ∧ bytesPerSector ≤ 4096 := by
  rcases sized.sector with size | size | size | size <;> omega

/-- One of the three entry widths. -/
def IsWidth (bits : Nat) : Prop := bits = 12 ∨ bits = 16 ∨ bits = 32

theorem FatType.entryBits_isWidth (kind : FatType) : IsWidth kind.entryBits := by
  cases kind <;> simp [IsWidth, entryBits]

/-- Twice a table's bytes are its entries at two to a count, and one more where a 12-bit
table ends in half a byte.
-/
theorem tableBytes_bounds (clusters : Nat) {bits : Nat} (width : IsWidth bits)
    : (clusters + 2) * (bits / 4) ≤ 2 * tableBytes clusters bits
      ∧ 2 * tableBytes clusters bits ≤ (clusters + 2) * (bits / 4) + 1 := by
  rcases width with rfl | rfl | rfl
  · have low := le_divCeil_mul (a := (clusters + 2) * 3) (b := 2) (by decide)
    have high := divCeil_mul_lt (a := (clusters + 2) * 3) (b := 2) (by decide)
    simp only [tableBytes]
    omega
  · simp only [tableBytes]
    omega
  · simp only [tableBytes]
    omega

theorem tableBytes_mono {clusters clusters' bits : Nat} (width : IsWidth bits)
    (le : clusters ≤ clusters')
    : tableBytes clusters bits ≤ tableBytes clusters' bits := by
  rcases width with rfl | rfl | rfl
  · exact divCeil_mono (by decide) (by omega)
  · simp only [tableBytes]
    omega
  · simp only [tableBytes]
    omega

/-- The sectors of a table, where nothing overflows. -/
def tableSize (clusters bits bytesPerSector spc : Nat) (aligning : Bool) : Nat :=
  alignUp (divCeil (tableBytes clusters bits) bytesPerSector) spc aligning

section
variable {bytesPerSector spc fats : Nat} {aligning : Bool}

theorem tableSize_mono (sized : Sized bytesPerSector spc fats) {clusters clusters' bits : Nat}
    (width : IsWidth bits) (le : clusters ≤ clusters')
    : tableSize clusters bits bytesPerSector spc aligning
      ≤ tableSize clusters' bits bytesPerSector spc aligning := by
  have pos : 0 < bytesPerSector := by have := sized.sector_bounds; omega
  exact alignUp_mono sized.cluster.1 (divCeil_mono pos (tableBytes_mono width le))

/-- A table's sectors hold its bytes, and waste less than a sector and a cluster. -/
theorem tableSize_bounds (sized : Sized bytesPerSector spc fats) (clusters bits : Nat)
    (aligning : Bool)
    : tableBytes clusters bits ≤ tableSize clusters bits bytesPerSector spc aligning
          * bytesPerSector
      ∧ tableSize clusters bits bytesPerSector spc aligning * bytesPerSector
        < tableBytes clusters bits + bytesPerSector + spc * bytesPerSector := by
  have pos : 0 < bytesPerSector := by have := sized.sector_bounds; omega
  have low := le_divCeil_mul (a := tableBytes clusters bits) pos
  have high := divCeil_mul_lt (a := tableBytes clusters bits) pos
  have up := le_alignUp (divCeil (tableBytes clusters bits) bytesPerSector) aligning
    sized.cluster.1
  have below := alignUp_lt (divCeil (tableBytes clusters bits) bytesPerSector) aligning
    sized.cluster.1
  refine ⟨low.trans (Nat.mul_le_mul_right _ up), ?_⟩
  have scaled := Nat.mul_le_mul_right bytesPerSector below.le
  rw [Nat.add_mul] at scaled
  unfold tableSize
  omega

theorem tableSectors_eq (sized : Sized bytesPerSector spc fats) {clusters bits : Nat}
    (width : IsWidth bits) (small : clusters ≤ u32Max)
    : tableSectors clusters bits bytesPerSector spc aligning
      = .ok (tableSize clusters bits bytesPerSector spc aligning) := by
  have sector := sized.sector_bounds
  have cluster := sized.cluster
  have pos : 0 < bytesPerSector := by omega
  have bytes : tableBytes clusters bits ≤ (u32Max + 2) * 4 := by
    have := (tableBytes_bounds clusters width).2
    rcases width with rfl | rfl | rfl <;> omega
  have sectors : divCeil (tableBytes clusters bits) bytesPerSector ≤ 2 ^ 26 := by
    rw [divCeil_le_iff pos]
    have := Nat.mul_le_mul_left (2 ^ 26) sector.1
    have large : (u32Max + 2) * 4 ≤ 2 ^ 26 * 512 := by decide
    omega
  have fits : divCeil (tableBytes clusters bits) bytesPerSector ≤ u32Max :=
    sectors.trans (by decide)
  rw [tableSectors, Nat.min_eq_left fits]
  refine align_eq cluster.1 ?_
  have : (2 : Nat) ^ 26 + 128 ≤ u32Max := by decide
  omega

/-- What a candidate reaches: the table sized for the estimate, and as many whole clusters as
the space past the tables holds.
-/
structure Reaches (fatDataSectors bits bytesPerSector spc fats : Nat) (aligning : Bool)
    (c : Candidate)
    : Prop where
  pos : 0 < c.clusters
  table
    : c.fatSectors
      = tableSize (clusterEstimate fatDataSectors bits bytesPerSector spc fats) bits
          bytesPerSector spc aligning
  fits : fats * c.fatSectors + c.clusters * spc ≤ fatDataSectors
  full : fatDataSectors < fats * c.fatSectors + (c.clusters + 1) * spc

theorem checkedSub_eq_some {a b c : Nat} : checkedSub a b = some c ↔ b ≤ a ∧ a - b = c := by
  rw [checkedSub, Option.ite_none_right_eq_some, Option.some.injEq]

theorem checkedMul_eq_some {a b c : Nat}
    : checkedMul a b = some c ↔ a * b ≤ u32Max ∧ a * b = c := by
  rw [checkedMul, Option.ite_none_right_eq_some, Option.some.injEq]

/-- A candidate is computed without overflow, and is none or reaches what it says. -/
theorem candidate_spec (sized : Sized bytesPerSector spc fats) (aligning : Bool)
    (fatDataSectors : Nat) {bits : Nat} (width : IsWidth bits)
    : ∃ result, candidate fatDataSectors bits bytesPerSector spc fats aligning = .ok result
      ∧ ∀ c, result = some c → Reaches fatDataSectors bits bytesPerSector spc fats aligning c := by
  have pos := sized.cluster.1
  have estimate : clusterEstimate fatDataSectors bits bytesPerSector spc fats ≤ u32Max :=
    Nat.min_le_right _ _
  simp only [candidate, tableSectors_eq sized width estimate, bind, Except.bind, div32,
    if_neg pos.ne', pure, Except.pure]
  generalize same : tableSize (clusterEstimate fatDataSectors bits bytesPerSector spc fats) bits
    bytesPerSector spc aligning = fatSectors
  split
  next => exact ⟨none, rfl, by simp⟩
  next tables product =>
    obtain ⟨-, rfl⟩ := checkedMul_eq_some.mp product
    split
    next => exact ⟨none, rfl, by simp⟩
    next data left =>
      obtain ⟨room, rfl⟩ := checkedSub_eq_some.mp left
      refine ⟨_, rfl, fun c found => ?_⟩
      split at found
      next => cases found
      next some_ =>
        obtain rfl := Option.some.inj found
        have floor := Nat.div_mul_le_self (fatDataSectors - fats * fatSectors) spc
        have next_ := Nat.lt_mul_of_div_lt
          (Nat.lt_add_one ((fatDataSectors - fats * fatSectors) / spc)) pos
        exact ⟨Nat.pos_of_ne_zero some_, same.symm, by simp only; omega, by simp only; omega⟩

/-- The estimate charges each cluster for its own bytes and its own entries, and is never cut
off by its width.
-/
theorem clusterEstimate_bounds (sized : Sized bytesPerSector spc fats)
    {fatDataSectors bits : Nat} (width : IsWidth bits) (small : fatDataSectors ≤ u32Max)
    : clusterEstimate fatDataSectors bits bytesPerSector spc fats
          * (2 * spc * bytesPerSector + fats * (bits / 4))
        ≤ 2 * fatDataSectors * bytesPerSector + 2 * fats * (bits / 4)
      ∧ 2 * fatDataSectors * bytesPerSector + 2 * fats * (bits / 4)
        < (clusterEstimate fatDataSectors bits bytesPerSector spc fats + 1)
          * (2 * spc * bytesPerSector + fats * (bits / 4)) := by
  have sector := sized.sector_bounds
  have perCluster : bytesPerSector ≤ spc * bytesPerSector :=
    Nat.le_mul_of_pos_left _ sized.cluster.1
  have pos : 0 < 2 * spc * bytesPerSector + fats * (bits / 4) := by
    rw [Nat.mul_assoc]
    omega
  have uncut : (2 * fatDataSectors * bytesPerSector + 2 * fats * (bits / 4))
      / (2 * spc * bytesPerSector + fats * (bits / 4)) ≤ u32Max := by
    refine (Nat.le_of_lt_succ ((Nat.div_lt_iff_lt_mul pos).mpr ?_)).trans small
    have scaled := Nat.mul_le_mul_left (fatDataSectors + 1) perCluster
    rcases sized.fats with rfl | rfl <;> rcases width with rfl | rfl | rfl <;> nlinarith
  rw [clusterEstimate, Nat.min_eq_left uncut]
  refine ⟨Nat.div_mul_le_self _ _, ?_⟩
  exact Nat.lt_mul_of_div_lt (Nat.lt_succ_self _) pos

/-- The estimate is no lower than the count: a table sized for it has an entry for every
cluster.
-/
theorem Reaches.le_estimate (sized : Sized bytesPerSector spc fats) {fatDataSectors bits : Nat}
    (width : IsWidth bits) (small : fatDataSectors ≤ u32Max) {c : Candidate}
    (reaches : Reaches fatDataSectors bits bytesPerSector spc fats aligning c)
    : c.clusters ≤ clusterEstimate fatDataSectors bits bytesPerSector spc fats := by
  obtain ⟨-, charged⟩ := clusterEstimate_bounds sized width small
  have table := (tableSize_bounds sized
    (clusterEstimate fatDataSectors bits bytesPerSector spc fats) bits aligning).1
  rw [← reaches.table] at table
  have entries := (tableBytes_bounds
    (clusterEstimate fatDataSectors bits bytesPerSector spc fats) width).1
  have filled := Nat.mul_le_mul_right bytesPerSector reaches.fits
  generalize clusterEstimate fatDataSectors bits bytesPerSector spc fats = estimate at *
  by_contra more
  have whole := Nat.mul_le_mul_right (spc * bytesPerSector)
    (show estimate + 1 ≤ c.clusters by omega)
  rcases sized.fats with rfl | rfl <;> rcases width with rfl | rfl | rfl <;> nlinarith

/-- The estimate is at most a few clusters above the count: the rounding of the tables and of
the data region is all that is lost.
-/
theorem Reaches.estimate_le (sized : Sized bytesPerSector spc fats) {fatDataSectors bits : Nat}
    (width : IsWidth bits) (small : fatDataSectors ≤ u32Max) {c : Candidate}
    (reaches : Reaches fatDataSectors bits bytesPerSector spc fats aligning c)
    : clusterEstimate fatDataSectors bits bytesPerSector spc fats ≤ c.clusters + 5 := by
  obtain ⟨charged, -⟩ := clusterEstimate_bounds sized width small
  have table := (tableSize_bounds sized
    (clusterEstimate fatDataSectors bits bytesPerSector spc fats) bits aligning).2
  rw [← reaches.table] at table
  have entries := (tableBytes_bounds
    (clusterEstimate fatDataSectors bits bytesPerSector spc fats) width).2
  have sector := sized.sector_bounds
  have perCluster : bytesPerSector ≤ spc * bytesPerSector :=
    Nat.le_mul_of_pos_left _ sized.cluster.1
  have filled := Nat.mul_le_mul_right bytesPerSector reaches.full
  generalize clusterEstimate fatDataSectors bits bytesPerSector spc fats = estimate at *
  by_contra more
  have whole := Nat.mul_le_mul_right (spc * bytesPerSector)
    (show c.clusters + 6 ≤ estimate by omega)
  rcases sized.fats with rfl | rfl <;> rcases width with rfl | rfl | rfl <;> nlinarith

end

end Ferrosys.Fat
