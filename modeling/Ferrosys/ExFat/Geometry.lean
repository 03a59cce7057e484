import Ferrosys.Bytes
import Ferrosys.Fat.Geometry
import Ferrosys.Library.Machine

/-! The exFAT geometry planner, from a volume's size to where every region of it begins, and the
same arithmetic run backwards over a boot sector. The planner's 64-bit and 32-bit operations are
those of a build, so that a result that does not fit wraps around or panics here as well.
-/

namespace Ferrosys.ExFat

open Arith Machine
open Ferrosys.Fat (isPowerOfTwo checkedSub)

def firstCluster : Nat := 2
def maxClusterCount : Nat := 0xFFFFFFF5
def minVolumeSectors : Nat := 2048
def maxClusterShift : Nat := 25
def maxBytesPerCluster : Nat := 2 ^ maxClusterShift
def defaultBoundaryAlign : UInt32 := 0x100000
def bootRegionSectors : Nat := 12
def reservedSectors : Nat := 2 * bootRegionSectors
def recommendedUpcaseBytes : Nat := 2918 * 2
def u32Max : Nat := 2 ^ 32 - 1

/-- What the bound on the clusters takes off before it divides: the two entries every table
reserves, less one.
-/
def tableTail : Nat := 4 * 2 + 1

inductive ClusterSize where
  | auto
  | bytes (n : UInt32)
deriving DecidableEq

inductive BoundaryAlign where
  | auto
  | bytes (n : UInt32)
deriving DecidableEq

inductive GeometryError where
  | sectorSizeUnsupported (bytesPerSector : Nat)
  | clusterSizeUnsupported (bytesPerCluster bytesPerSector : Nat)
  | clusterTooLarge (bytesPerCluster limit : Nat)
  | boundaryAlignUnsupported (bytes bytesPerSector : Nat)
  | volumeTooSmall (sectors minimum : Nat)
  | noClusterHeap (heapAt volumeBytes : Nat)
  | tooManyClusters (clusters limit : Nat)
  | heapTooSmall (clusters needed : Nat)
deriving DecidableEq

/-- A planned computation: it answers, it refuses the request, or it panics. -/
abbrev Planned := Except (Fault GeometryError)

/-- A complete layout. Sectors are counted from the volume's own start. -/
structure ExfatLayout where
  bytesPerSector : UInt32
  bytesPerCluster : UInt32
  volumeLength : UInt64
  fatOffset : UInt32
  fatLength : UInt32
  clusterHeapOffset : UInt32
  clusterCount : UInt32
  firstClusterOfRoot : UInt32
  bitmapCluster : UInt32
  bitmapBytes : UInt64
  upcaseCluster : UInt32
  upcaseBytes : UInt64
deriving DecidableEq

/-- How many of a word's low bits are clear. -/
def trailingZeros (word : Nat) : Nat := ((List.range 32).find? (word.testBit ·)).getD 32

namespace ExfatLayout

variable (self : ExfatLayout)

def sector : Nat := self.bytesPerSector.toNat

def cluster : Nat := self.bytesPerCluster.toNat

def sectorsPerCluster : Nat := self.cluster / self.sector

def bytesPerSectorShift : UInt8 := UInt8.ofNat (trailingZeros self.sector)

def sectorsPerClusterShift : UInt8 := UInt8.ofNat (trailingZeros self.sectorsPerCluster)

def totalBytes : Nat := self.volumeLength.toNat * self.sector

/-- The first sector of cluster `n`, where the volume has it. -/
def clusterStartSector (n : Nat) : Option Nat :=
  if n < firstCluster ∨ n - firstCluster ≥ self.clusterCount.toNat then none
  else some (self.clusterHeapOffset.toNat + (n - firstCluster) * self.sectorsPerCluster)

/-- Where cluster `n` begins, in bytes. -/
def clusterStartByte (n : Nat) : Option Nat :=
  (self.clusterStartSector n).map (· * self.sector)

/-- Where the table's entry for cluster `n` begins, in bytes. The two reserved numbers have one. -/
def fatEntryByte (n : Nat) : Option Nat :=
  if n ≥ firstCluster + self.clusterCount.toNat then none
  else some (self.fatOffset.toNat * self.sector + n * 4)

/-- How many clusters a run of `bytes` occupies. -/
def clustersFor (bytes : Nat) : Nat := divCeil bytes self.cluster

end ExfatLayout

structure PlanRequest where
  volumeBytes : UInt64
  bytesPerSector : UInt32
  clusterSize : ClusterSize
  boundaryAlign : BoundaryAlign
deriving DecidableEq

/-- A request for a volume this many bytes long, at every default. -/
def PlanRequest.new (volumeBytes : UInt64) : PlanRequest where
  volumeBytes
  bytesPerSector := 512
  clusterSize := .auto
  boundaryAlign := .auto

/-- The allocation unit convention selects for a volume this large. -/
def conventionalClusterSize (volumeBytes : Nat) : UInt32 :=
  if volumeBytes < 7 * 2 ^ 20 then 512
  else if volumeBytes ≤ 256 * 2 ^ 20 then 4096
  else if volumeBytes ≤ 32 * 2 ^ 30 then 32768
  else 131072

def ClusterSize.forVolume (size : ClusterSize) (volumeBytes : Nat) : UInt32 :=
  match size with
  | auto => conventionalClusterSize volumeBytes
  | bytes n => n

def BoundaryAlign.boundary : BoundaryAlign → UInt32
  | auto => defaultBoundaryAlign
  | bytes n => n

/-- The sizes of a sector that the format defines. -/
def supportedSector (sector : Nat) : Bool :=
  sector == 512 || sector == 1024 || sector == 2048 || sector == 4096

/-- `value` rounded up to a multiple of `unit`. -/
def roundUp (build : Build) (value unit : Nat) : Planned Nat := do
  mul build (← ceilDiv value unit) unit

/-- A sum of two 32-bit words. -/
def add32 (build : Build) (a b : Nat) : Planned Nat :=
  if a + b ≤ u32Max then .ok (a + b)
  else
    match build with
    | .release => .ok ((a + b) % 2 ^ 32)
    | .checked => .error .panicked

/-- `bytes` as a count of sectors, which stays at what the field holds. -/
def sectorsOf (bytes sector : Nat) : Planned UInt32 := do
  let sectors ← div bytes sector
  return UInt32.ofNat (if sectors > u32Max then u32Max else sectors)

def planLayout (build : Build) (request : PlanRequest) : Planned ExfatLayout := do
  let bytesPerSector := request.bytesPerSector
  let sector := bytesPerSector.toNat
  refuseIf (!supportedSector sector) (.sectorSizeUnsupported sector)
  -- A partial sector is not addressable.
  let volumeLength ← div request.volumeBytes.toNat sector
  refuseIf (decide (volumeLength < minVolumeSectors))
    (.volumeTooSmall volumeLength minVolumeSectors)
  let volumeBytes ← mul build volumeLength sector
  let bytesPerCluster := request.clusterSize.forVolume volumeBytes
  let cluster := bytesPerCluster.toNat
  refuseIf (!isPowerOfTwo cluster || decide (cluster < sector))
    (.clusterSizeUnsupported cluster sector)
  refuseIf (decide (cluster > maxBytesPerCluster)) (.clusterTooLarge cluster maxBytesPerCluster)
  let align := request.boundaryAlign.boundary.toNat
  refuseIf (!isPowerOfTwo align || decide (align < sector)) (.boundaryAlignUnsupported align sector)
  let fatAt ← roundUp build (← mul build reservedSectors sector) align
  -- Every cluster is charged for its entry before the table has a size.
  let forTableAndHeap ←
    Checked.okOr (checkedSub volumeBytes (← add build fatAt tableTail))
      (.refused (.noClusterHeap fatAt volumeBytes))
  let maxClusters ← add build (← div forTableAndHeap (← add build cluster 4)) 1
  let fatBytes ← roundUp build (← mul build (← add build maxClusters 2) 4) sector
  let tableSectors ← div fatBytes sector
  refuseIf (decide (tableSectors > u32Max)) (.tooManyClusters maxClusters maxClusterCount)
  let heapAt ← roundUp build (← add build fatAt fatBytes) align
  refuseIf (decide (heapAt ≥ volumeBytes)) (.noClusterHeap heapAt volumeBytes)
  let clusters ← div (← sub build volumeBytes heapAt) cluster
  refuseIf (decide (clusters > maxClusterCount)) (.tooManyClusters clusters maxClusterCount)
  let clusterCount := UInt32.ofNat clusters
  let bitmapBytes := divCeil clusterCount.toNat 8
  let bitmapClusters ← ceilDiv bitmapBytes cluster
  let upcaseClusters ← ceilDiv recommendedUpcaseBytes cluster
  let residents ← add build (← add build bitmapClusters upcaseClusters) 1
  refuseIf (decide (residents > clusterCount.toNat))
    (.heapTooSmall clusterCount.toNat (min residents u32Max))
  let upcaseCluster ← add32 build firstCluster (UInt32.ofNat bitmapClusters).toNat
  let firstClusterOfRoot ← add32 build upcaseCluster (UInt32.ofNat upcaseClusters).toNat
  return {
    bytesPerSector
    bytesPerCluster
    volumeLength := UInt64.ofNat volumeLength
    fatOffset := ← sectorsOf fatAt sector
    fatLength := UInt32.ofNat tableSectors
    clusterHeapOffset := ← sectorsOf heapAt sector
    clusterCount
    firstClusterOfRoot := UInt32.ofNat firstClusterOfRoot
    bitmapCluster := UInt32.ofNat firstCluster
    bitmapBytes := UInt64.ofNat bitmapBytes
    upcaseCluster := UInt32.ofNat upcaseCluster
    upcaseBytes := UInt64.ofNat recommendedUpcaseBytes
  }

/-! The boot sector. -/

def fileSystemName : Bytes := [0x45, 0x58, 0x46, 0x41, 0x54, 0x20, 0x20, 0x20]
def jumpBoot : Bytes := [0xEB, 0x76, 0x90]
def fileSystemRevision : UInt16 := 0x0100
def fileSystemMajorRevision : Nat := fileSystemRevision.toNat / 256
def numberOfFats : UInt8 := 1
def driveSelect : UInt8 := 0x80

/-- The fields of a Main Boot Sector. -/
structure MainBootSector where
  jumpBoot : Bytes
  fileSystemName : Bytes
  partitionOffset : UInt64
  volumeLength : UInt64
  fatOffset : UInt32
  fatLength : UInt32
  clusterHeapOffset : UInt32
  clusterCount : UInt32
  firstClusterOfRoot : UInt32
  volumeSerial : UInt32
  fileSystemRevision : UInt16
  volumeFlags : UInt16
  bytesPerSectorShift : UInt8
  sectorsPerClusterShift : UInt8
  numberOfFats : UInt8
  driveSelect : UInt8
  percentInUse : UInt8
  bootCode : Bytes
deriving DecidableEq

namespace MainBootSector

variable (self : MainBootSector)

def majorRevision : Nat := self.fileSystemRevision.toNat / 256

def minorRevision : Nat := self.fileSystemRevision.toNat % 256

def bytesPerSector : Option UInt32 :=
  let shift := self.bytesPerSectorShift.toNat
  if 9 ≤ shift ∧ shift ≤ 12 then some (UInt32.ofNat (1 <<< shift)) else none

def bytesPerCluster : Option UInt32 := do
  let sector ← self.bytesPerSector
  let shift := self.bytesPerSectorShift.toNat + self.sectorsPerClusterShift.toNat
  -- The sum of the shifts is a byte.
  if shift < 2 ^ 8 ∧ shift ≤ maxClusterShift then
    some (UInt32.ofNat (sector.toNat <<< self.sectorsPerClusterShift.toNat))
  else none

end MainBootSector

/-- How full a volume with `used` of `total` clusters allocated is. -/
def percentInUse (used total : UInt32) : UInt8 :=
  if total = 0 then 0
  else
    let percent := used.toNat * 100 / total.toNat
    if percent > 100 then 100 else UInt8.ofNat percent

/-- The Main Boot Sector of a layout. `used` is how many clusters the tree allocates. -/
def bootSector (layout : ExfatLayout) (volumeSerial : UInt32) (bootCode : Bytes) (used : UInt32)
    : MainBootSector where
  jumpBoot
  fileSystemName
  partitionOffset := 0
  volumeLength := layout.volumeLength
  fatOffset := layout.fatOffset
  fatLength := layout.fatLength
  clusterHeapOffset := layout.clusterHeapOffset
  clusterCount := layout.clusterCount
  firstClusterOfRoot := layout.firstClusterOfRoot
  volumeSerial
  fileSystemRevision
  volumeFlags := 0
  bytesPerSectorShift := layout.bytesPerSectorShift
  sectorsPerClusterShift := layout.sectorsPerClusterShift
  numberOfFats
  driveSelect
  percentInUse := percentInUse used layout.clusterCount
  bootCode

/-- A boot sector that does not describe an exFAT volume, and what about it does not. -/
inductive BootDefect where
  | fileSystemRevision (major minor : Nat)
  | sectorShift (shift : Nat)
  | clusterShift (sectorShift clusterShift limit : Nat)
  | volumeLength (sectors : Nat) (why : String)
  | regionOutsideVolume (region why : String)
  | tableTooShort (tableBytes clusterCount : Nat)
  | rootOutsideHeap (cluster : Nat)
deriving DecidableEq

/-- Recover a layout from a boot sector, checking it against itself. `available` is how many bytes
the source holds from the volume's start. A product of two 32-bit numbers fits in 64 bits, and every
other result is checked, so that nothing here overflows.
-/
def layoutFromBoot (boot : MainBootSector) (available : Nat) : Except BootDefect ExfatLayout := do
  Checked.refuseIf (boot.majorRevision != fileSystemMajorRevision)
    (.fileSystemRevision boot.majorRevision boot.minorRevision)
  let bytesPerSector ←
    Checked.okOr boot.bytesPerSector (.sectorShift boot.bytesPerSectorShift.toNat)
  let bytesPerCluster ← Checked.okOr boot.bytesPerCluster
    (.clusterShift boot.bytesPerSectorShift.toNat boot.sectorsPerClusterShift.toNat maxClusterShift)
  let sector := bytesPerSector.toNat
  let volumeLength := boot.volumeLength.toNat
  Checked.refuseIf (decide (volumeLength < minVolumeSectors))
    (.volumeLength volumeLength "fewer sectors than two boot regions and a filesystem need")
  let volumeBytes ← Checked.okOr (checkedMul volumeLength sector)
    (.volumeLength volumeLength "the length in bytes does not fit in 64 bits")
  Checked.refuseIf (decide (volumeBytes > available))
    (.volumeLength volumeLength "the source does not hold that many")
  let fatAt := boot.fatOffset.toNat * sector
  let fatBytes := boot.fatLength.toNat * sector
  Checked.refuseIf (decide (fatAt < reservedSectors * sector))
    (.regionOutsideVolume "the allocation table" "it begins inside the boot regions")
  let heapAt := boot.clusterHeapOffset.toNat * sector
  let fatEnd ← Checked.okOr (checkedAdd fatAt fatBytes)
    (.regionOutsideVolume "the allocation table" "its end does not fit in 64 bits")
  Checked.refuseIf (decide (fatEnd > heapAt))
    (.regionOutsideVolume "the allocation table" "it runs into the cluster heap")
  Checked.refuseIf (decide (heapAt ≥ volumeBytes))
    (.regionOutsideVolume "the cluster heap" "it begins at or past the end of the volume")
  let clusterCount := boot.clusterCount.toNat
  Checked.refuseIf (decide (clusterCount > maxClusterCount))
    (.regionOutsideVolume "the cluster heap"
      "it claims more clusters than a cluster number addresses")
  let heapBytes := clusterCount * bytesPerCluster.toNat
  Checked.refuseIf (decide (heapBytes > volumeBytes - heapAt))
    (.regionOutsideVolume "the cluster heap" "its clusters run past the end of the volume")
  Checked.refuseIf (decide (fatBytes / 4 < clusterCount + firstCluster))
    (.tableTooShort fatBytes clusterCount)
  let root := boot.firstClusterOfRoot.toNat
  Checked.refuseIf (decide (root < firstCluster) || decide (root - firstCluster ≥ clusterCount))
    (.rootOutsideHeap root)
  -- The boot sector records neither the bitmap's place nor the up-case table's.
  return {
    bytesPerSector
    bytesPerCluster
    volumeLength := boot.volumeLength
    fatOffset := boot.fatOffset
    fatLength := boot.fatLength
    clusterHeapOffset := boot.clusterHeapOffset
    clusterCount := boot.clusterCount
    firstClusterOfRoot := boot.firstClusterOfRoot
    bitmapCluster := UInt32.ofNat firstCluster
    bitmapBytes := UInt64.ofNat (divCeil clusterCount 8)
    upcaseCluster := UInt32.ofNat firstCluster
    upcaseBytes := UInt64.ofNat recommendedUpcaseBytes
  }

end Ferrosys.ExFat
