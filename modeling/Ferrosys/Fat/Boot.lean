import Ferrosys.Fat.Geometry

/-! The boot sector a writer builds from a layout, and the layout a reader recovers from one.
A field of the boot sector is a natural number, and each narrowing into it is the source's own
reduction to the field's width.
-/

namespace Ferrosys.Fat

open Arith

def mediaFixed : Nat := 0xF8
def mediaRemovable : Nat := 0xF0
def driveFixed : Nat := 0x80
def driveRemovable : Nat := 0x00
def bootCodeOffsetFat1216 : Nat := 62
def bootCodeOffsetFat32 : Nat := 90
def extendedBootSignature : Nat := 0x29
def chsSmallMediaSectors : Nat := 524288

/-- A media descriptor the format defines. -/
def isMediaDescriptor (media : Nat) : Bool := media == mediaRemovable || media ≥ mediaFixed

/-- The volume identity record shared by all three types. -/
structure VolumeInfo where
  driveNumber : Nat
  reserved : Nat
  extBootSignature : Nat
  volumeId : Nat
  label : List Char
  fsType : List Char
deriving DecidableEq

/-- The fields FAT32 inserts before the volume identity record. -/
structure Fat32Params where
  fatSectors : Nat
  extFlags : Nat
  version : Nat
  rootCluster : Nat
  fsInfoSector : Nat
  backupBootSector : Nat
deriving DecidableEq

inductive BootSectorTail where
  | fat1216 (volume : VolumeInfo)
  | fat32 (params : Fat32Params) (volume : VolumeInfo)
deriving DecidableEq

/-- Sector 0 of a FAT volume. -/
structure BootSector where
  jump : Nat × Nat × Nat
  oemName : List Char
  bytesPerSector : Nat
  sectorsPerCluster : Nat
  reservedSectors : Nat
  fats : Nat
  rootEntries : Nat
  totalSectors16 : Nat
  media : Nat
  fatSectors16 : Nat
  sectorsPerTrack : Nat
  heads : Nat
  hiddenSectors : Nat
  totalSectors32 : Nat
  tail : BootSectorTail
deriving DecidableEq

namespace BootSector

variable (self : BootSector)

/-- The volume's sector count, from whichever of the two fields carries it. -/
def totalSectors : Nat :=
  if self.totalSectors16 ≠ 0 then self.totalSectors16 else self.totalSectors32

/-- Sectors in one file allocation table, from whichever of the two fields carries it. -/
def fatSectors : Nat :=
  if self.fatSectors16 ≠ 0 then self.fatSectors16
  else
    match self.tail with
    | .fat1216 _ => 0
    | .fat32 params _ => params.fatSectors

end BootSector

/-- What a format records besides the geometry. -/
structure FormatOptions where
  volumeId : Nat
  label : Option (List Char)
  oemName : List Char
  media : Nat
  hiddenSectors : Nat
deriving DecidableEq

def noName : List Char := "NO NAME    ".toList

def FormatOptions.new (volumeId : Nat) : FormatOptions where
  volumeId := volumeId
  label := none
  oemName := "ferrosys".toList
  media := mediaFixed
  hiddenSectors := 0

/-- The BIOS drive number that goes with the media descriptor. -/
def FormatOptions.driveNumber (self : FormatOptions) : Nat :=
  if self.media = mediaFixed then driveFixed else driveRemovable

/-- The legacy disk geometry: sectors per track and heads. -/
def chs (totalSectors : Nat) : Nat × Nat :=
  if totalSectors ≤ chsSmallMediaSectors then
    let heads :=
      if totalSectors ≤ 32768 then 2
      else if totalSectors ≤ 65536 then 4
      else if totalSectors ≤ 262144 then 8
      else 16
    (if totalSectors ≤ 4096 then 16 else 32, heads)
  else
    let perHead := 63 * 1024
    let heads :=
      if totalSectors ≤ 16 * perHead then 16
      else if totalSectors ≤ 32 * perHead then 32
      else if totalSectors ≤ 64 * perHead then 64
      else if totalSectors ≤ 128 * perHead then 128
      else 255
    (63, heads)

/-- Every planned value fits the boot sector field that records it. -/
def fitsBootSector (layout : FatLayout) : Bool :=
  layout.bytesPerSector ≤ u16Max
    && layout.sectorsPerCluster < 2 ^ 8
    && layout.reservedSectors ≤ u16Max
    && layout.fats < 2 ^ 8
    && layout.rootEntries ≤ u16Max
    && (layout.fat32.isSome || layout.fatSectors ≤ u16Max)

/-- The boot sector a layout and its options describe. A layout whose values do not fit fails
the writer's assertion.
-/
def bootSector (layout : FatLayout) (options : FormatOptions) : Checked BootSector := do
  assertThat (fitsBootSector layout)
  let (sectorsPerTrack, heads) := chs layout.totalSectors
  let volume : VolumeInfo :=
    {
      driveNumber := options.driveNumber
      reserved := 0
      extBootSignature := extendedBootSignature
      volumeId := options.volumeId
      label := options.label.getD noName
      fsType := layout.fatType.label
    }
  let (total16, total32) :=
    if layout.totalSectors ≤ u16Max then (layout.totalSectors, 0) else (0, layout.totalSectors)
  let (fatSectors16, tail) :=
    match layout.fat32 with
    | some fat32 =>
        (0,
          BootSectorTail.fat32
            {
              fatSectors := layout.fatSectors
              extFlags := 0
              version := 0
              rootCluster := fat32.rootCluster
              fsInfoSector := fat32.fsInfoSector
              backupBootSector := fat32.backupBootSector.getD 0
            }
            volume)
    | none => (layout.fatSectors % 2 ^ 16, BootSectorTail.fat1216 volume)
  return {
    jump :=
      (0xEB,
        match layout.fatType with
        | .fat32 => (bootCodeOffsetFat32 - 2) % 2 ^ 8
        | _ => (bootCodeOffsetFat1216 - 2) % 2 ^ 8,
        0x90)
    oemName := options.oemName
    bytesPerSector := layout.bytesPerSector % 2 ^ 16
    sectorsPerCluster := layout.sectorsPerCluster % 2 ^ 8
    reservedSectors := layout.reservedSectors % 2 ^ 16
    fats := layout.fats % 2 ^ 8
    rootEntries := layout.rootEntries % 2 ^ 16
    totalSectors16 := total16
    media := options.media
    fatSectors16 := fatSectors16
    sectorsPerTrack := sectorsPerTrack
    heads := heads
    hiddenSectors := options.hiddenSectors
    totalSectors32 := total32
    tail := tail
  }

/-- The field that stopped a volume from being read as FAT, and its value. -/
structure BootDefect where
  field : String
  value : Nat
deriving DecidableEq

/-- Refuse the boot sector for `field` where `bad` holds. -/
def defectIf (bad : Bool) (field : String) (value : Nat) : Except BootDefect Unit :=
  if bad then .error ⟨field, value⟩ else .ok ()

def orDefect {α : Type} (found : Option α) (field : String) (value : Nat)
    : Except BootDefect α :=
  match found with
  | none => .error ⟨field, value⟩
  | some a => .ok a

/-- `a + b` where it fits 32 bits. -/
def checkedAdd (a b : Nat) : Option Nat := if a + b ≤ u32Max then some (a + b) else none

/-- The FAT32 placements a parameter block names. -/
def fat32Placements (params : Fat32Params) (reservedSectors : Nat) : Fat32Layout :=
  let backupBoot := if params.backupBootSector ≠ 0 then some params.backupBootSector else none
  {
    rootCluster := params.rootCluster
    fsInfoSector := params.fsInfoSector
    backupBootSector := backupBoot
    backupFsInfoSector :=
      backupBoot.bind fun b =>
        let at_ := b + params.fsInfoSector
        if at_ < reservedSectors then some (at_ % 2 ^ 16) else none
  }

/-- The two shapes disagree about the root directory, and each is the other's strongest
check.
-/
def checkRoot (tail : BootSectorTail) (rootEntries : Nat) : Except BootDefect Unit :=
  match tail with
  | .fat1216 _ => defectIf (rootEntries == 0) "BPB_RootEntCnt" 0
  | .fat32 params _ => do
      defectIf (rootEntries != 0) "BPB_RootEntCnt" rootEntries
      defectIf (params.rootCluster < 2) "BPB_RootClus" params.rootCluster

/-- The type: FAT32 by the shape of the tail, and the smaller two by the count. -/
def deriveType (tail : BootSectorTail) (clusters : Nat) : Except BootDefect FatType :=
  match tail with
  | .fat32 _ _ => .ok .fat32
  | .fat1216 _ =>
      match FatType.ofClusterCount clusters with
      | .fat32 => .error ⟨"BPB_TotSec32", clusters⟩
      | twelveOrSixteen => .ok twelveOrSixteen

def derivePlacements (tail : BootSectorTail) (clusters reservedSectors : Nat)
    : Except BootDefect (Option Fat32Layout) :=
  match tail with
  | .fat1216 _ => .ok none
  | .fat32 params _ => do
      defectIf (params.rootCluster - 2 ≥ clusters) "BPB_RootClus" params.rootCluster
      return some (fat32Placements params reservedSectors)

/-- The layout a boot sector describes, or the field that stops it describing one. -/
def layoutFromBoot (boot : BootSector) (available : Nat) : Except BootDefect FatLayout := do
  let (j0, j1, j2) := boot.jump
  defectIf (!((j0 == 0xEB && j2 == 0x90) || j0 == 0xE9)) "BS_jmpBoot"
    (j0 * 2 ^ 16 + j1 * 2 ^ 8 + j2)
  defectIf (!isSectorSize boot.bytesPerSector) "BPB_BytsPerSec" boot.bytesPerSector
  let spc := boot.sectorsPerCluster
  defectIf (spc == 0 || !isPowerOfTwo spc || spc > 128) "BPB_SecPerClus" spc
  defectIf (!(boot.fats == 1 || boot.fats == 2)) "BPB_NumFATs" boot.fats
  defectIf (boot.reservedSectors == 0) "BPB_RsvdSecCnt" 0
  defectIf (!isMediaDescriptor boot.media) "BPB_Media" boot.media
  let totalSectors := boot.totalSectors
  defectIf (totalSectors == 0) "BPB_TotSec32" 0
  let volumeBytes := totalSectors * boot.bytesPerSector
  defectIf (volumeBytes > available) "BPB_TotSec32" volumeBytes
  let fatSectors := boot.fatSectors
  defectIf (fatSectors == 0) "BPB_FATSz32" 0
  checkRoot boot.tail boot.rootEntries
  let rootBytes := boot.rootEntries * dirEntryBytes
  let rootDirSectors := min (divCeil rootBytes boot.bytesPerSector) u32Max
  let tables ← orDefect (checkedMul boot.fats fatSectors) "BPB_FATSz32" fatSectors
  let overhead ←
    orDefect ((checkedAdd boot.reservedSectors tables).bind (checkedAdd · rootDirSectors))
      "BPB_RsvdSecCnt" boot.reservedSectors
  let dataSectors ← orDefect (checkedSub totalSectors overhead) "BPB_TotSec32" totalSectors
  let clusters := dataSectors / spc
  defectIf (clusters == 0) "BPB_SecPerClus" spc
  let fatType ← deriveType boot.tail clusters
  defectIf (clusters > fatType.maxClusters) "BPB_TotSec32" clusters
  let tableEntries := fatSectors * boot.bytesPerSector * 8 / fatType.entryBits
  defectIf (tableEntries < clusters + 2) "BPB_FATSz32" tableEntries
  let fat32 ← derivePlacements boot.tail clusters boot.reservedSectors
  return {
    fatType := fatType
    bytesPerSector := boot.bytesPerSector
    sectorsPerCluster := spc
    reservedSectors := boot.reservedSectors
    fats := boot.fats
    rootEntries := boot.rootEntries
    totalSectors := totalSectors
    fatSectors := fatSectors
    rootDirSectors := rootDirSectors
    firstDataSector := overhead
    clusters := clusters
    fat32 := fat32
  }

end Ferrosys.Fat
