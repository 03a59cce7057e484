import Ferrosys.ExFat.Geometry
import Ferrosys.Fat.Geometry.Soundness
import Ferrosys.Library.Outcome

/-! What the exFAT planner plans: the same in every build as over unbounded numbers, with every
region in the volume and clear of the others, and recovered from the boot sector that records it.
-/

namespace Ferrosys.ExFat

open Arith Checked Machine
open Ferrosys.Fat (isPowerOfTwo checkedSub)

/-- `value` rounded up to a multiple of `unit`, over unbounded numbers. -/
def roundedUp (value unit : Nat) : Nat := divCeil value unit * unit

/-! The quantities of a plan, over unbounded numbers. -/

namespace PlanRequest

variable (request : PlanRequest)

def sector : Nat := request.bytesPerSector.toNat

def volumeLength : Nat := request.volumeBytes.toNat / request.sector

def volume : Nat := request.volumeLength * request.sector

def bytesPerCluster : UInt32 := request.clusterSize.forVolume request.volume

def cluster : Nat := request.bytesPerCluster.toNat

def align : Nat := request.boundaryAlign.boundary.toNat

/-- Where the table begins. -/
def fatAt : Nat := roundedUp (reservedSectors * request.sector) request.align

/-- The bound on the clusters, before the table has a size. -/
def maxClusters : Nat := (request.volume - (request.fatAt + tableTail)) / (request.cluster + 4) + 1

def fatBytes : Nat := roundedUp ((request.maxClusters + 2) * 4) request.sector

/-- Where the cluster heap begins. -/
def heapAt : Nat := roundedUp (request.fatAt + request.fatBytes) request.align

def clusters : Nat := (request.volume - request.heapAt) / request.cluster

def bitmapBytes : Nat := divCeil request.clusters 8

def bitmapClusters : Nat := divCeil request.bitmapBytes request.cluster

def upcaseClusters : Nat := divCeil recommendedUpcaseBytes request.cluster

/-- What the planner checks of a request. -/
structure Fits : Prop where
  sectorSize : supportedSector request.sector = true
  large : minVolumeSectors ≤ request.volumeLength
  power : isPowerOfTwo request.cluster = true
  coarse : request.sector ≤ request.cluster
  bounded : request.cluster ≤ maxBytesPerCluster
  alignPower : isPowerOfTwo request.align = true
  alignCoarse : request.sector ≤ request.align
  room : request.fatAt + tableTail ≤ request.volume
  table : request.fatBytes / request.sector ≤ u32Max
  heap : request.heapAt < request.volume
  numbered : request.clusters ≤ maxClusterCount
  residents : request.bitmapClusters + request.upcaseClusters + 1 ≤ request.clusters

/-- The layout planned for a request that fits. -/
def planned : ExfatLayout where
  bytesPerSector := request.bytesPerSector
  bytesPerCluster := request.bytesPerCluster
  volumeLength := UInt64.ofNat request.volumeLength
  fatOffset := UInt32.ofNat (request.fatAt / request.sector)
  fatLength := UInt32.ofNat (request.fatBytes / request.sector)
  clusterHeapOffset := UInt32.ofNat (request.heapAt / request.sector)
  clusterCount := UInt32.ofNat request.clusters
  firstClusterOfRoot :=
    UInt32.ofNat (firstCluster + request.bitmapClusters + request.upcaseClusters)
  bitmapCluster := UInt32.ofNat firstCluster
  bitmapBytes := UInt64.ofNat request.bitmapBytes
  upcaseCluster := UInt32.ofNat (firstCluster + request.bitmapClusters)
  upcaseBytes := UInt64.ofNat recommendedUpcaseBytes

/-- The plan of a request over unbounded numbers, where nothing overflows and nothing saturates. -/
def plan : Except GeometryError ExfatLayout := do
  Checked.refuseIf (!supportedSector request.sector) (.sectorSizeUnsupported request.sector)
  Checked.refuseIf (decide (request.volumeLength < minVolumeSectors))
    (.volumeTooSmall request.volumeLength minVolumeSectors)
  Checked.refuseIf (!isPowerOfTwo request.cluster || decide (request.cluster < request.sector))
    (.clusterSizeUnsupported request.cluster request.sector)
  Checked.refuseIf (decide (request.cluster > maxBytesPerCluster))
    (.clusterTooLarge request.cluster maxBytesPerCluster)
  Checked.refuseIf (!isPowerOfTwo request.align || decide (request.align < request.sector))
    (.boundaryAlignUnsupported request.align request.sector)
  Checked.refuseIf (decide (request.volume < request.fatAt + tableTail))
    (.noClusterHeap request.fatAt request.volume)
  Checked.refuseIf (decide (request.fatBytes / request.sector > u32Max))
    (.tooManyClusters request.maxClusters maxClusterCount)
  Checked.refuseIf (decide (request.heapAt ≥ request.volume))
    (.noClusterHeap request.heapAt request.volume)
  Checked.refuseIf (decide (request.clusters > maxClusterCount))
    (.tooManyClusters request.clusters maxClusterCount)
  Checked.refuseIf (decide (request.bitmapClusters + request.upcaseClusters + 1 > request.clusters))
    (.heapTooSmall request.clusters
      (min (request.bitmapClusters + request.upcaseClusters + 1) u32Max))
  return request.planned

/-- A request is planned exactly where it fits. -/
theorem plan_eq_ok {layout : ExfatLayout}
    : request.plan = .ok layout ↔ request.Fits ∧ layout = request.planned := by
  simp only [plan, bind_eq_ok, refuseIf_eq_ok, Bool.not_eq_false', decide_eq_false_iff_not, not_lt,
    Bool.or_eq_false_iff, gt_iff_lt, ge_iff_le, not_le]
  constructor
  · rintro ⟨-, sectorSize, -, large, -, ⟨power, coarse⟩, -, bounded, -, ⟨alignPower, alignCoarse⟩,
      -, room, -, table, -, heap, -, numbered, -, residents, made⟩
    exact ⟨⟨sectorSize, large, power, coarse, bounded, alignPower, alignCoarse, room, table, heap,
      numbered, residents⟩, (Except.ok.inj made).symm⟩
  · rintro ⟨fits, rfl⟩
    exact ⟨(), fits.sectorSize, (), fits.large, (), ⟨fits.power, fits.coarse⟩, (), fits.bounded, (),
      ⟨fits.alignPower, fits.alignCoarse⟩, (), fits.room, (), fits.table, (), fits.heap, (),
      fits.numbered, (), fits.residents, rfl⟩

end PlanRequest

/-! Rounding. -/

theorem le_roundedUp {value unit : Nat} (pos : 0 < unit) : value ≤ roundedUp value unit :=
  le_divCeil_mul pos

theorem roundedUp_lt {value unit : Nat} (pos : 0 < unit) : roundedUp value unit < value + unit :=
  divCeil_mul_lt pos

theorem dvd_roundedUp (value unit : Nat) : unit ∣ roundedUp value unit := Nat.dvd_mul_left _ _

/-! The numbers of a plan, under what the planner has checked so far. -/

namespace PlanRequest

variable {request : PlanRequest}

theorem sector_bounds (size : supportedSector request.sector = true)
    : 512 ≤ request.sector ∧ request.sector ≤ 4096 := by
  simp only [supportedSector, Bool.or_eq_true, beq_iff_eq] at size
  omega

theorem volume_le : request.volume ≤ request.volumeBytes.toNat := Nat.div_mul_le_self _ _

theorem volume_lt : request.volume < 2 ^ 64 := volume_le.trans_lt request.volumeBytes.toNat_lt

theorem align_lt : request.align < 2 ^ 32 := request.boundaryAlign.boundary.toNat_lt

theorem fatAt_lt (size : supportedSector request.sector = true)
    (coarse : request.sector ≤ request.align) : request.fatAt < 2 ^ 33 := by
  have bounds := sector_bounds size
  have rounded : request.fatAt < reservedSectors * request.sector + request.align :=
    roundedUp_lt (by omega)
  have last := request.align_lt
  simp only [reservedSectors, bootRegionSectors] at rounded
  omega

/-- The bound on the clusters is far below a word, a cluster being a sector at least. -/
theorem maxClusters_lt (size : supportedSector request.sector = true)
    (coarse : request.sector ≤ request.cluster) : request.maxClusters < 2 ^ 55 + 1 := by
  have bounds := sector_bounds size
  have fewer : (request.volume - (request.fatAt + tableTail)) / (request.cluster + 4)
      ≤ (request.volume - (request.fatAt + tableTail)) / 512 :=
    Nat.div_le_div_left (by omega) (by omega)
  have last := request.volume_lt
  unfold maxClusters
  omega

theorem fatBytes_lt (size : supportedSector request.sector = true)
    (coarse : request.sector ≤ request.cluster) : request.fatBytes < 2 ^ 58 := by
  have bounds := sector_bounds size
  have most := maxClusters_lt size coarse
  have rounded : request.fatBytes < (request.maxClusters + 2) * 4 + request.sector :=
    roundedUp_lt (by omega)
  omega

theorem heapAt_lt (size : supportedSector request.sector = true)
    (coarse : request.sector ≤ request.cluster) (alignCoarse : request.sector ≤ request.align)
    : request.heapAt < 2 ^ 59 := by
  have bounds := sector_bounds size
  have rounded : request.heapAt < request.fatAt + request.fatBytes + request.align :=
    roundedUp_lt (by omega)
  have first := fatAt_lt size alignCoarse
  have table := fatBytes_lt size coarse
  have last := request.align_lt
  omega

/-- The clusters that fit behind the table are no more than the bound it was sized for. -/
theorem clusters_le (size : supportedSector request.sector = true)
    (alignCoarse : request.sector ≤ request.align) : request.clusters ≤ request.maxClusters := by
  have bounds := sector_bounds size
  have table : (request.maxClusters + 2) * 4 ≤ request.fatBytes := le_roundedUp (by omega)
  have heap : request.fatAt + request.fatBytes ≤ request.heapAt := le_roundedUp (by omega)
  have charged : request.volume - (request.fatAt + tableTail)
      < request.maxClusters * (request.cluster + 4) :=
    Nat.lt_mul_of_div_lt (Nat.lt_succ_self _) (by omega)
  rw [Nat.mul_add] at charged
  have room : request.volume - request.heapAt ≤ request.maxClusters * request.cluster := by
    simp only [tableTail] at charged
    omega
  exact Nat.div_le_of_le_mul (by rwa [Nat.mul_comm])

/-- The bound the table was sized for is not far above the clusters there are. -/
theorem maxClusters_le (size : supportedSector request.sector = true)
    (coarse : request.sector ≤ request.cluster) (alignCoarse : request.sector ≤ request.align)
    (room : request.fatAt + tableTail ≤ request.volume)
    (numbered : request.clusters ≤ maxClusterCount)
    : request.maxClusters ≤ 2 ^ 33 := by
  have bounds := sector_bounds size
  have table : request.fatBytes < (request.maxClusters + 2) * 4 + request.sector :=
    roundedUp_lt (by omega)
  have heap : request.heapAt < request.fatAt + request.fatBytes + request.align :=
    roundedUp_lt (by omega)
  have charged : (request.maxClusters - 1) * (request.cluster + 4)
      ≤ request.volume - (request.fatAt + tableTail) := by
    rw [maxClusters, Nat.add_sub_cancel]
    exact Nat.div_mul_le_self _ _
  have counted : request.volume - request.heapAt < (request.clusters + 1) * request.cluster :=
    Nat.lt_mul_of_div_lt (Nat.lt_succ_self _) (by omega)
  have last := request.align_lt
  have wide : (request.clusters + 1) * request.cluster ≤ (2 ^ 32 - 2) * request.cluster :=
    Nat.mul_le_mul_right _ (by rw [maxClusterCount] at numbered; omega)
  rw [Nat.mul_add] at charged
  by_contra many
  have more : 2 ^ 33 * request.cluster ≤ (request.maxClusters - 1) * request.cluster :=
    Nat.mul_le_mul_right _ (by omega)
  simp only [tableTail] at charged room
  omega

theorem sectors_of_heapAt (size : supportedSector request.sector = true)
    (coarse : request.sector ≤ request.cluster) (alignCoarse : request.sector ≤ request.align)
    (room : request.fatAt + tableTail ≤ request.volume)
    (numbered : request.clusters ≤ maxClusterCount)
    : request.heapAt / request.sector ≤ u32Max := by
  have bounds := sector_bounds size
  have most := maxClusters_le size coarse alignCoarse room numbered
  have table : request.fatBytes < (request.maxClusters + 2) * 4 + request.sector :=
    roundedUp_lt (by omega)
  have heap : request.heapAt < request.fatAt + request.fatBytes + request.align :=
    roundedUp_lt (by omega)
  have first := fatAt_lt size alignCoarse
  have last := request.align_lt
  have fewer : request.heapAt / request.sector ≤ request.heapAt / 512 :=
    Nat.div_le_div_left (by omega) (by omega)
  rw [u32Max]
  omega

/-- A bitmap takes no more clusters than it has bits. -/
theorem bitmapClusters_le : request.bitmapClusters ≤ request.clusters := by
  rcases Nat.eq_zero_or_pos request.cluster with none_ | pos
  · simp [bitmapClusters, divCeil, none_]
  · refine (divCeil_le_iff pos).mpr ((divCeil_le_iff (by decide)).mpr ?_)
    have wide : request.clusters ≤ request.clusters * request.cluster :=
      Nat.le_mul_of_pos_right _ pos
    omega

theorem upcaseClusters_le (size : supportedSector request.sector = true)
    (coarse : request.sector ≤ request.cluster) : request.upcaseClusters ≤ 12 := by
  have bounds := sector_bounds size
  refine (divCeil_le_iff (by omega)).mpr ?_
  rw [recommendedUpcaseBytes]
  omega

end PlanRequest

/-! Every build computes what unbounded numbers come to. -/

/-- A refusal is the same in a build that may panic, and what follows it is to be the same where it
does not refuse.
-/
theorem refuseIf_bind {ε α : Type} {bad : Bool} {error : ε} {rest : Unit → Except (Fault ε) α}
    {plain : Unit → Except ε α}
    (later : bad = false → rest () = (plain ()).mapError .refused)
    : (Machine.refuseIf bad error >>= rest)
      = (Checked.refuseIf bad error >>= plain).mapError .refused := by
  cases bad with
  | true => rfl
  | false => exact later rfl

theorem roundUp_of_lt {build : Build} {value unit : Nat} (pos : 0 < unit)
    (fits : roundedUp value unit < 2 ^ 64)
    : roundUp build value unit = .ok (roundedUp value unit) := by
  rw [roundUp, ceilDiv_of_pos pos, ok_bind]
  exact mul_of_lt fits

theorem add32_of_le {build : Build} {a b : Nat} (fits : a + b ≤ u32Max)
    : add32 build a b = .ok (a + b) := if_pos fits

theorem sectorsOf_of_le {bytes sector : Nat} (pos : 0 < sector) (fits : bytes / sector ≤ u32Max)
    : sectorsOf bytes sector = .ok (UInt32.ofNat (bytes / sector)) := by
  rw [sectorsOf, div_of_pos pos, ok_bind, if_neg (by omega)]
  rfl

/-- A step that answers is gone on from. -/
theorem bind_of_eq {ε α β : Type} {first : Except ε α} {rest : α → Except ε β} {a : α}
    {whole : Except ε β} (answered : first = .ok a) (later : rest a = whole)
    : (first >>= rest) = whole := by
  rw [answered]
  exact later

theorem bind_error {ε α β : Type} {first : Except ε α} {rest : α → Except ε β} {error : ε}
    (refused : first = .error error) : (first >>= rest) = .error error := by
  rw [refused]
  rfl

/-- The planner computes in every build what the plan over unbounded numbers comes to. -/
theorem planLayout_eq (build : Build) (request : PlanRequest)
    : planLayout build request = request.plan.mapError .refused := by
  unfold planLayout PlanRequest.plan
  dsimp only
  refine refuseIf_bind fun supported => ?_
  have size : supportedSector request.sector = true := by
    change (!supportedSector request.sector) = false at supported
    simpa using supported
  have bounds := PlanRequest.sector_bounds size
  have pos : 0 < request.sector := by omega
  refine bind_of_eq (a := request.volumeLength) (div_of_pos pos) (refuseIf_bind fun large => ?_)
  refine bind_of_eq (a := request.volume) (mul_of_lt request.volume_lt)
    (refuseIf_bind fun power => ?_)
  have coarse : request.sector ≤ request.cluster :=
    not_lt.mp (of_decide_eq_false (Bool.or_eq_false_iff.mp power).2)
  refine refuseIf_bind fun bounded => refuseIf_bind fun aligned => ?_
  have alignCoarse : request.sector ≤ request.align :=
    not_lt.mp (of_decide_eq_false (Bool.or_eq_false_iff.mp aligned).2)
  have bounded : request.cluster ≤ maxBytesPerCluster := not_lt.mp (of_decide_eq_false bounded)
  have shortCluster : request.cluster ≤ 2 ^ 25 := bounded
  have fatAt := PlanRequest.fatAt_lt size alignCoarse
  -- The table begins behind the boot regions.
  refine bind_of_eq (mul_of_lt (b := request.sector)
    (by rw [reservedSectors, bootRegionSectors]; omega)) ?_
  refine bind_of_eq (a := request.fatAt) (roundUp_of_lt (show 0 < request.align by omega)
    (fatAt.trans (by decide))) ?_
  refine bind_of_eq (add_of_lt (a := request.fatAt) (b := tableTail) (by rw [tableTail]; omega)) ?_
  -- The room for the table and the heap.
  by_cases room : request.fatAt + tableTail ≤ request.volume
  case neg =>
    have none_ : checkedSub request.volume (request.fatAt + tableTail) = none := if_neg room
    have short : decide (request.volume < request.fatAt + tableTail) = true :=
      decide_eq_true (not_le.mp room)
    rw [short]
    exact bind_error (congrArg (okOr · _) none_)
  refine bind_of_eq (congrArg (okOr · _) (if_pos room : checkedSub request.volume _ = some _)) ?_
  rw [decide_eq_false (not_lt.mpr room)]
  have clusters := PlanRequest.maxClusters_lt size coarse
  have table := PlanRequest.fatBytes_lt size coarse
  have heapAt := PlanRequest.heapAt_lt size coarse alignCoarse
  refine bind_of_eq (add_of_lt (a := request.cluster) (b := 4) (by omega)) ?_
  refine bind_of_eq (div_of_pos (show 0 < request.cluster + 4 by omega)) ?_
  refine bind_of_eq (a := request.maxClusters) (add_of_lt (clusters.trans (by decide))) ?_
  refine bind_of_eq (add_of_lt (a := request.maxClusters) (b := 2) (by omega)) ?_
  refine bind_of_eq (mul_of_lt (a := request.maxClusters + 2) (b := 4) (by omega)) ?_
  refine bind_of_eq (a := request.fatBytes) (roundUp_of_lt pos (table.trans (by decide))) ?_
  refine bind_of_eq (div_of_pos pos) (refuseIf_bind fun few => ?_)
  -- The heap behind the table, and the clusters in it.
  refine bind_of_eq (add_of_lt (a := request.fatAt) (b := request.fatBytes) (by omega)) ?_
  refine bind_of_eq (a := request.heapAt) (roundUp_of_lt (show 0 < request.align by omega)
    (heapAt.trans (by decide))) (refuseIf_bind fun heap => ?_)
  have heap : request.heapAt < request.volume := not_le.mp (of_decide_eq_false heap)
  refine bind_of_eq (sub_of_le heap.le) ?_
  refine bind_of_eq (a := request.clusters) (div_of_pos (show 0 < request.cluster by omega))
    (refuseIf_bind fun many => ?_)
  have numbered : request.clusters ≤ maxClusterCount := not_lt.mp (of_decide_eq_false many)
  have counted : (UInt32.ofNat request.clusters).toNat = request.clusters :=
    UInt32.toNat_ofNat_of_lt' (numbered.trans_lt (by decide))
  simp only [counted]
  -- The residents of the heap.
  have bitmap : request.bitmapClusters ≤ request.clusters := PlanRequest.bitmapClusters_le
  have upcase : request.upcaseClusters ≤ 12 := PlanRequest.upcaseClusters_le size coarse
  have most : request.clusters ≤ 0xFFFFFFF5 := numbered
  refine bind_of_eq (a := request.bitmapClusters)
    (ceilDiv_of_pos (show 0 < request.cluster by omega)) ?_
  refine bind_of_eq (a := request.upcaseClusters)
    (ceilDiv_of_pos (show 0 < request.cluster by omega)) ?_
  refine bind_of_eq (add_of_lt (a := request.bitmapClusters) (b := request.upcaseClusters)
    (by omega)) ?_
  refine bind_of_eq (add_of_lt (a := request.bitmapClusters + request.upcaseClusters) (b := 1)
    (by omega)) (refuseIf_bind fun held => ?_)
  have held : request.bitmapClusters + request.upcaseClusters + 1 ≤ request.clusters :=
    not_lt.mp (of_decide_eq_false held)
  have first : firstCluster = 2 := rfl
  have bitmapped : (UInt32.ofNat request.bitmapClusters).toNat = request.bitmapClusters :=
    UInt32.toNat_ofNat_of_lt' (show request.bitmapClusters < 2 ^ 32 by omega)
  have upcased : (UInt32.ofNat request.upcaseClusters).toNat = request.upcaseClusters :=
    UInt32.toNat_ofNat_of_lt' (show request.upcaseClusters < 2 ^ 32 by omega)
  have high : u32Max = 2 ^ 32 - 1 := rfl
  rw [bitmapped]
  refine bind_of_eq (add32_of_le (by omega)) ?_
  rw [upcased]
  refine bind_of_eq (add32_of_le (by omega)) ?_
  have early : request.fatAt / request.sector ≤ u32Max :=
    (Nat.div_le_div_right (le_roundedUp (by omega) |>.trans' (Nat.le_add_right _ _))).trans
      (PlanRequest.sectors_of_heapAt size coarse alignCoarse room numbered)
  refine bind_of_eq (sectorsOf_of_le pos early) ?_
  exact bind_of_eq (sectorsOf_of_le pos
    (PlanRequest.sectors_of_heapAt size coarse alignCoarse room numbered)) rfl

/-! What a layout is to be. -/

namespace ExfatLayout

/-- The boot regions, the table and the heap follow one another inside the volume, in bytes. -/
structure Regions (layout : ExfatLayout) : Prop where
  boot : reservedSectors * layout.sector ≤ layout.fatOffset.toNat * layout.sector
  table : (layout.fatOffset.toNat + layout.fatLength.toNat) * layout.sector
    ≤ layout.clusterHeapOffset.toNat * layout.sector
  heap : layout.clusterHeapOffset.toNat * layout.sector
    + layout.clusterCount.toNat * layout.cluster ≤ layout.totalBytes
  entries : (layout.clusterCount.toNat + firstCluster) * 4 ≤ layout.fatLength.toNat * layout.sector
  whole : layout.sector ∣ layout.cluster

/-- Every cluster's table entry is in the table and every cluster's bytes are in the heap: inside
the volume, and clear of the boot regions and of each other.
-/
structure Safe (layout : ExfatLayout) : Prop where
  entry : ∀ n < layout.clusterCount.toNat + firstCluster, ∃ at_, layout.fatEntryByte n = some at_
    ∧ reservedSectors * layout.sector ≤ at_
    ∧ at_ + 4 ≤ layout.clusterHeapOffset.toNat * layout.sector ∧ at_ + 4 ≤ layout.totalBytes
  cluster : ∀ n, firstCluster ≤ n → n < layout.clusterCount.toNat + firstCluster →
    ∃ at_, layout.clusterStartByte n = some at_
      ∧ reservedSectors * layout.sector ≤ at_
      ∧ layout.clusterHeapOffset.toNat * layout.sector ≤ at_
      ∧ at_ + layout.cluster ≤ layout.totalBytes

/-- The bitmap, the up-case table and the root directory take runs of clusters that follow one
another inside the heap, and the bitmap has a bit for every cluster.
-/
structure Residents (layout : ExfatLayout) : Prop where
  bits : layout.clusterCount.toNat ≤ layout.bitmapBytes.toNat * 8
  bitmap : firstCluster ≤ layout.bitmapCluster.toNat
  upcase : layout.bitmapCluster.toNat + layout.clustersFor layout.bitmapBytes.toNat
    ≤ layout.upcaseCluster.toNat
  root : layout.upcaseCluster.toNat + layout.clustersFor layout.upcaseBytes.toNat
    ≤ layout.firstClusterOfRoot.toNat
  heap : layout.firstClusterOfRoot.toNat + 1 ≤ layout.clusterCount.toNat + firstCluster

theorem Regions.safe {layout : ExfatLayout} (regions : layout.Regions) : layout.Safe := by
  obtain ⟨boot, table, heap, entries, whole⟩ := regions
  rw [Nat.add_mul] at table
  constructor
  · intro n inside
    refine ⟨_, if_neg (by omega), by omega, by omega, ?_⟩
    have := Nat.zero_le (layout.clusterCount.toNat * layout.cluster)
    omega
  · intro n first inside
    have run : (layout.clusterHeapOffset.toNat + (n - firstCluster) * layout.sectorsPerCluster)
          * layout.sector
        = layout.clusterHeapOffset.toNat * layout.sector + (n - firstCluster) * layout.cluster := by
      rw [Nat.add_mul, Nat.mul_assoc, sectorsPerCluster, Nat.div_mul_cancel whole]
    have last : (n - firstCluster + 1) * layout.cluster
        ≤ layout.clusterCount.toNat * layout.cluster := Nat.mul_le_mul_right _ (by omega)
    rw [Nat.succ_mul] at last
    refine ⟨_, ?_, ?_, Nat.le_add_right _ ((n - firstCluster) * layout.cluster), by omega⟩
    · rw [clusterStartByte, clusterStartSector, if_neg (by omega), Option.map_some, run]
    · omega

end ExfatLayout

/-- A boot sector's cluster is its sector, as often as its shift says. -/
theorem MainBootSector.cluster_eq {boot : MainBootSector} {sector cluster : UInt32}
    (sized : boot.bytesPerSector = some sector) (clustered : boot.bytesPerCluster = some cluster)
    : cluster.toNat = sector.toNat * 2 ^ boot.sectorsPerClusterShift.toNat := by
  simp only [bytesPerCluster, sized, Option.bind_eq_bind, Option.bind_some,
    Option.ite_none_right_eq_some, Option.some.injEq] at clustered
  obtain ⟨⟨-, most⟩, rfl⟩ := clustered
  simp only [bytesPerSector, Option.ite_none_right_eq_some, Option.some.injEq] at sized
  obtain ⟨⟨-, shift⟩, rfl⟩ := sized
  have small : 2 ^ boot.bytesPerSectorShift.toNat ≤ 2 ^ 12 :=
    Nat.pow_le_pow_right (by decide) shift
  have short : 2 ^ (boot.bytesPerSectorShift.toNat + boot.sectorsPerClusterShift.toNat) ≤ 2 ^ 25 :=
    Nat.pow_le_pow_right (by decide) most
  have sector : (UInt32.ofNat (1 <<< boot.bytesPerSectorShift.toNat)).toNat
      = 2 ^ boot.bytesPerSectorShift.toNat := by
    rw [Nat.one_shiftLeft]
    exact UInt32.toNat_ofNat_of_lt' (by rw [UInt32.size]; omega)
  rw [sector, Nat.shiftLeft_eq, ← Nat.pow_add]
  exact UInt32.toNat_ofNat_of_lt' (by rw [UInt32.size]; omega)

/-- A volume a boot sector describes keeps its regions apart, and the source holds it whole. -/
theorem layoutFromBoot_regions {boot : MainBootSector} {available : Nat} {layout : ExfatLayout}
    (opened : layoutFromBoot boot available = .ok layout)
    : layout.Regions ∧ layout.totalBytes ≤ available := by
  simp only [layoutFromBoot, bind_eq_ok, refuseIf_eq_ok, okOr_eq_ok, checkedMul_eq_some,
    checkedAdd_eq_some, decide_eq_false_iff_not, not_lt, not_le, gt_iff_lt, ge_iff_le,
    Bool.or_eq_false_iff] at opened
  obtain ⟨-, -, sector, sized, cluster, clustered, -, -, volume, ⟨-, rfl⟩, -, held, -, boots, _,
    ⟨-, rfl⟩, -, table, -, heap, -, -, -, fits, -, entries, -, root, made⟩ := opened
  obtain rfl := Except.ok.inj made
  refine ⟨⟨boots, ?_, ?_, ?_, ?_⟩, held⟩
  · rw [Nat.add_mul]
    exact table
  · simp only [ExfatLayout.totalBytes, ExfatLayout.sector, ExfatLayout.cluster]
    omega
  · simp only [ExfatLayout.sector]
    omega
  · exact ⟨_, MainBootSector.cluster_eq sized clustered⟩

/-! What is planned. -/

namespace PlanRequest

variable {request : PlanRequest}

/-- The fields of a plan hold its numbers whole: no field cuts one off, and no offset saturates. -/
structure Exact (request : PlanRequest) (layout : ExfatLayout) : Prop where
  sector : layout.bytesPerSector = request.bytesPerSector
  cluster : layout.bytesPerCluster = request.bytesPerCluster
  volumeLength : layout.volumeLength.toNat = request.volumeLength
  fatOffset : layout.fatOffset.toNat * request.sector = request.fatAt
  fatLength : layout.fatLength.toNat * request.sector = request.fatBytes
  heapOffset : layout.clusterHeapOffset.toNat * request.sector = request.heapAt
  clusterCount : layout.clusterCount.toNat = request.clusters
  bitmapCluster : layout.bitmapCluster.toNat = firstCluster
  bitmapBytes : layout.bitmapBytes.toNat = request.bitmapBytes
  upcaseCluster : layout.upcaseCluster.toNat = firstCluster + request.bitmapClusters
  upcaseBytes : layout.upcaseBytes.toNat = recommendedUpcaseBytes
  root : layout.firstClusterOfRoot.toNat
    = firstCluster + request.bitmapClusters + request.upcaseClusters

theorem isPowerOfTwo_iff {n : Nat} : isPowerOfTwo n = true ↔ ∃ k, n = 2 ^ k := by
  constructor
  · intro power
    exact ⟨_, beq_iff_eq.mp power⟩
  · rintro ⟨k, rfl⟩
    exact Fat.isPowerOfTwo_two_pow k

/-- The sizes of a sector are powers of two. -/
theorem sector_power (size : supportedSector request.sector = true)
    : ∃ k, 9 ≤ k ∧ k ≤ 12 ∧ request.sector = 2 ^ k := by
  simp only [supportedSector, Bool.or_eq_true, beq_iff_eq] at size
  rcases size with ((size | size) | size) | size
  · exact ⟨9, by omega, by omega, size⟩
  · exact ⟨10, by omega, by omega, size⟩
  · exact ⟨11, by omega, by omega, size⟩
  · exact ⟨12, by omega, by omega, size⟩

/-- A power of two no smaller than a sector is a whole number of sectors. -/
theorem sector_dvd (size : supportedSector request.sector = true) {n : Nat}
    (power : isPowerOfTwo n = true) (coarse : request.sector ≤ n) : request.sector ∣ n := by
  obtain ⟨k, -, -, same⟩ := sector_power size
  obtain ⟨j, rfl⟩ := isPowerOfTwo_iff.mp power
  rw [same] at coarse ⊢
  exact Nat.pow_dvd_pow 2 ((Nat.pow_le_pow_iff_right (by decide)).mp coarse)

/-- A plan's numbers are all in its fields. -/
theorem Fits.exact_ (fits : request.Fits) : request.Exact request.planned := by
  have bounds := sector_bounds fits.sectorSize
  have pos : 0 < request.sector := by omega
  have aligned := sector_dvd fits.sectorSize fits.alignPower fits.alignCoarse
  have heapAt := sectors_of_heapAt fits.sectorSize fits.coarse fits.alignCoarse fits.room
    fits.numbered
  have alignPos : 0 < request.align := pos.trans_le fits.alignCoarse
  have fatAt : request.fatAt / request.sector ≤ u32Max :=
    (Nat.div_le_div_right ((Nat.le_add_right _ _).trans (le_roundedUp alignPos))).trans heapAt
  have residents := fits.residents
  have numbered : request.clusters ≤ 0xFFFFFFF5 := fits.numbered
  have first : firstCluster = 2 := rfl
  have high : u32Max = 2 ^ 32 - 1 := rfl
  have table := fits.table
  have short : request.volumeLength < 2 ^ 64 :=
    (Nat.div_le_self _ _).trans_lt request.volumeBytes.toNat_lt
  constructor
  · rfl
  · rfl
  · exact UInt64.toNat_ofNat_of_lt' short
  · change (UInt32.ofNat _).toNat * _ = _
    rw [UInt32.toNat_ofNat_of_lt' (by rw [UInt32.size]; omega)]
    exact Nat.div_mul_cancel (aligned.trans (dvd_roundedUp _ _))
  · change (UInt32.ofNat _).toNat * _ = _
    rw [UInt32.toNat_ofNat_of_lt' (by rw [UInt32.size]; omega)]
    exact Nat.div_mul_cancel (dvd_roundedUp _ _)
  · change (UInt32.ofNat _).toNat * _ = _
    rw [UInt32.toNat_ofNat_of_lt' (by rw [UInt32.size]; omega)]
    exact Nat.div_mul_cancel (aligned.trans (dvd_roundedUp _ _))
  · exact UInt32.toNat_ofNat_of_lt' (by rw [UInt32.size]; omega)
  · rfl
  · refine UInt64.toNat_ofNat_of_lt' ((divCeil_le_iff (by decide)).mpr
      (show request.clusters ≤ (2 ^ 32) * 8 by omega) |>.trans_lt (by decide))
  · exact UInt32.toNat_ofNat_of_lt' (by rw [UInt32.size]; omega)
  · rfl
  · exact UInt32.toNat_ofNat_of_lt' (by rw [UInt32.size]; omega)

/-- What is planned has its regions in the volume and apart. -/
theorem Fits.regions (fits : request.Fits) : request.planned.Regions := by
  have exact_ := fits.exact_
  have bounds := sector_bounds fits.sectorSize
  have alignPos : 0 < request.align := by have := fits.alignCoarse; omega
  have sector : request.planned.sector = request.sector := rfl
  have cluster : request.planned.cluster = request.cluster := rfl
  have total : request.planned.totalBytes = request.volume := by
    rw [ExfatLayout.totalBytes, exact_.volumeLength]
    rfl
  constructor
  · rw [sector, exact_.fatOffset]
    exact le_roundedUp alignPos
  · rw [sector, Nat.add_mul, exact_.fatOffset, exact_.fatLength, exact_.heapOffset]
    exact le_roundedUp alignPos
  · rw [sector, cluster, total, exact_.heapOffset, exact_.clusterCount]
    have room := Nat.div_mul_le_self (request.volume - request.heapAt) request.cluster
    have heap := fits.heap
    change request.clusters * request.cluster ≤ _ at room
    omega
  · rw [sector, exact_.clusterCount, exact_.fatLength]
    have enough := clusters_le fits.sectorSize fits.alignCoarse
    have table : (request.maxClusters + 2) * 4 ≤ request.fatBytes := le_roundedUp (by omega)
    rw [firstCluster]
    omega
  · exact sector_dvd fits.sectorSize fits.power fits.coarse

theorem Fits.placed (fits : request.Fits) : request.planned.Residents := by
  have exact_ := fits.exact_
  constructor
  · rw [exact_.clusterCount, exact_.bitmapBytes]
    exact le_divCeil_mul (by decide)
  · exact exact_.bitmapCluster.ge
  · rw [exact_.bitmapCluster, exact_.bitmapBytes, exact_.upcaseCluster]
    exact Nat.le_refl _
  · rw [exact_.upcaseCluster, exact_.upcaseBytes, exact_.root]
    exact Nat.le_refl _
  · rw [exact_.root, exact_.clusterCount]
    have := fits.residents
    omega

/-- The shifts of a plan give back its sizes. -/
theorem Fits.shifts (fits : request.Fits) (serial used : UInt32) (code : Bytes)
    : (bootSector request.planned serial code used).bytesPerSector = some request.bytesPerSector
      ∧ (bootSector request.planned serial code used).bytesPerCluster
        = some request.bytesPerCluster := by
  obtain ⟨k, low, high, sector⟩ := sector_power fits.sectorSize
  obtain ⟨j, cluster⟩ := isPowerOfTwo_iff.mp fits.power
  have coarse : k ≤ j := by
    have := fits.coarse
    rw [sector, cluster] at this
    exact (Nat.pow_le_pow_iff_right (by decide)).mp this
  have most : j ≤ 25 := by
    have := fits.bounded
    rw [cluster, maxBytesPerCluster, maxClusterShift] at this
    exact (Nat.pow_le_pow_iff_right (by decide)).mp this
  have zeros : ∀ m ≤ 25, trailingZeros (2 ^ m) = m := by decide
  have sectorShift
      : (bootSector request.planned serial code used).bytesPerSectorShift.toNat = k := by
    change (UInt8.ofNat (trailingZeros request.sector)).toNat = k
    rw [sector, zeros k (by omega)]
    exact UInt8.toNat_ofNat_of_lt' (by rw [UInt8.size]; omega)
  have clusterShift
      : (bootSector request.planned serial code used).sectorsPerClusterShift.toNat = j - k := by
    change (UInt8.ofNat (trailingZeros (request.cluster / request.sector))).toNat = j - k
    rw [sector, cluster, Nat.pow_div coarse (by decide), zeros (j - k) (by omega)]
    exact UInt8.toNat_ofNat_of_lt' (by rw [UInt8.size]; omega)
  have sized : (bootSector request.planned serial code used).bytesPerSector
      = some request.bytesPerSector := by
    rw [MainBootSector.bytesPerSector, sectorShift, if_pos ⟨low, high⟩, Nat.one_shiftLeft, ← sector]
    exact congrArg some UInt32.ofNat_toNat
  refine ⟨sized, ?_⟩
  rw [MainBootSector.bytesPerCluster]
  simp only [sized, sectorShift, clusterShift, Option.bind_eq_bind, Option.bind_some]
  rw [if_pos ⟨by omega, by rw [maxClusterShift]; omega⟩, Nat.shiftLeft_eq]
  have whole : request.bytesPerSector.toNat * 2 ^ (j - k) = request.bytesPerCluster.toNat := by
    change request.sector * _ = request.cluster
    rw [sector, cluster, ← Nat.pow_add, Nat.add_sub_cancel' coarse]
  rw [whole, UInt32.ofNat_toNat]

/-- The boot sector of a plan is recovered, in a source that holds the volume, to the plan itself;
but the up-case table's place is not recorded, and reads as the first cluster.
-/
theorem Fits.recovered (fits : request.Fits) {serial used : UInt32} {code : Bytes} {available : Nat}
    (held : request.planned.totalBytes ≤ available)
    : layoutFromBoot (bootSector request.planned serial code used) available
      = .ok { request.planned with upcaseCluster := UInt32.ofNat firstCluster } := by
  obtain ⟨sized, clustered⟩ := fits.shifts serial used code
  have exact_ := fits.exact_
  have regions := fits.regions
  have placed := fits.placed
  have short : request.planned.volumeLength.toNat * request.planned.sector < 2 ^ 64 := by
    rw [exact_.volumeLength]
    exact request.volume_lt
  have bounds := sector_bounds fits.sectorSize
  have heap : request.planned.clusterHeapOffset.toNat * request.planned.sector
      < request.planned.totalBytes := by
    change _ * request.sector < _ * request.sector
    rw [exact_.heapOffset, exact_.volumeLength]
    exact fits.heap
  have table := regions.table
  rw [Nat.add_mul] at table
  have whole := regions.heap
  have entries := regions.entries
  have last := placed.heap
  have first : firstCluster ≤ request.planned.firstClusterOfRoot.toNat :=
    placed.bitmap.trans ((Nat.le_add_right _ _).trans (placed.upcase.trans
      ((Nat.le_add_right _ _).trans placed.root)))
  simp only [layoutFromBoot, bind_eq_ok, refuseIf_eq_ok, okOr_eq_ok, checkedMul_eq_some,
    checkedAdd_eq_some, decide_eq_false_iff_not, not_lt, not_le, gt_iff_lt, ge_iff_le,
    Bool.or_eq_false_iff]
  refine ⟨(), bne_eq_false_iff_eq.mpr rfl, _, sized, _, clustered, (), ?_, _, ⟨short, rfl⟩, (),
    held, (), regions.boot, _, ⟨?_, rfl⟩, (), table, (), heap, (), ?_, (), ?_, (), ?_, (),
    ⟨first, ?_⟩, ?_⟩
  · exact fits.large.trans exact_.volumeLength.ge
  · exact table.trans_lt (heap.trans short)
  · exact exact_.clusterCount.le.trans fits.numbered
  · exact Nat.le_sub_of_add_le (by rw [Nat.add_comm]; exact whole)
  · exact (Nat.le_div_iff_mul_le (by decide)).mpr entries
  · change request.planned.firstClusterOfRoot.toNat - firstCluster
      < request.planned.clusterCount.toNat
    omega
  · refine congrArg Except.ok ?_
    have bits : UInt64.ofNat (divCeil (UInt32.ofNat request.clusters).toNat 8)
        = request.planned.bitmapBytes := by
      rw [show (UInt32.ofNat request.clusters).toNat = request.clusters from exact_.clusterCount]
      rfl
    simp only [bootSector, ← bits]
    rfl

end PlanRequest

/-! What the planner and its inverse answer. -/

/-- A request that is planned in one build fits, and its plan is that over unbounded numbers. -/
theorem planLayout_eq_ok {build : Build} {request : PlanRequest} {layout : ExfatLayout}
    : planLayout build request = .ok layout ↔ request.Fits ∧ layout = request.planned := by
  rw [planLayout_eq, mapError_eq_ok, PlanRequest.plan_eq_ok]

/-- What a plan is to be: the same in every build, with its numbers whole, its regions and its
residents apart and in the volume, and recovered from its own boot sector.
-/
structure SoundPlan (request : PlanRequest) (layout : ExfatLayout) : Prop where
  everyBuild : ∀ build, planLayout build request = .ok layout
  exact_ : request.Exact layout
  regions : layout.Regions
  safe : layout.Safe
  residents : layout.Residents
  recovered : ∀ serial code used available, layout.totalBytes ≤ available →
    layoutFromBoot (bootSector layout serial code used) available
      = .ok { layout with upcaseCluster := UInt32.ofNat firstCluster }

/-- Every layout the planner answers with is sound, and every layout recovered from a boot sector
has its clusters and their entries in a volume the source holds, clear of the boot regions.
-/
theorem layouts_sound
    : (∀ build request layout, planLayout build request = .ok layout →
        SoundPlan request layout)
      ∧ ∀ boot available layout, layoutFromBoot boot available = .ok layout →
        layout.Safe ∧ layout.totalBytes ≤ available := by
  constructor
  · intro build request layout planned
    obtain ⟨fits, rfl⟩ := planLayout_eq_ok.mp planned
    exact ⟨fun build => planLayout_eq_ok.mpr ⟨fits, rfl⟩, fits.exact_, fits.regions,
      fits.regions.safe, fits.placed, fun _ _ _ _ held => fits.recovered held⟩
  · intro boot available layout opened
    obtain ⟨regions, held⟩ := layoutFromBoot_regions opened
    exact ⟨regions.safe, held⟩

/-- The layout of a volume of 512 MiB at every default. -/
def halfGiBLayout : ExfatLayout where
  bytesPerSector := 512
  bytesPerCluster := 32768
  volumeLength := 1048576
  fatOffset := 2048
  fatLength := 128
  clusterHeapOffset := 4096
  clusterCount := 16320
  firstClusterOfRoot := 4
  bitmapCluster := 2
  bitmapBytes := 2040
  upcaseCluster := 3
  upcaseBytes := 5836

/-- A volume of 512 MiB is planned, and its boot sector recovers its clusters. -/
theorem layouts_sound_of_halfGiB
    : SoundPlan (.new 536870912) halfGiBLayout
      ∧ { halfGiBLayout with upcaseCluster := 2 }.Safe ∧ halfGiBLayout.totalBytes ≤ 536870912 := by
  have sound := layouts_sound.1 .checked (.new 536870912) halfGiBLayout (by decide +kernel)
  exact ⟨sound, layouts_sound.2 (bootSector halfGiBLayout 1 [] 4) 536870912 _ (by decide +kernel)⟩

/-- The up-case table of a plan is not where the boot sector's layout has it. -/
theorem recovered_moves_upcase
    : ¬ ∀ request layout serial code used available,
      planLayout .checked request = .ok layout → layout.totalBytes ≤ available →
      layoutFromBoot (bootSector layout serial code used) available = .ok layout := by
  intro same
  have here := same (.new 536870912) halfGiBLayout 1 [] 4 536870912 (by decide +kernel) (by decide)
  exact absurd here (by decide +kernel)

end Ferrosys.ExFat
