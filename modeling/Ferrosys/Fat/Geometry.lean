import Ferrosys.Library.Arith

/-! The FAT geometry planner: a pure function from a volume size and a handful of parameters
to a complete layout. Every 32-bit sum, difference and product of the source is checked here,
so that a plan which would overflow one, or fail the planner's own assertion, is a panic
rather than a layout. The 64-bit values stay below 2^47 once the sector size is validated.
-/

namespace Ferrosys.Fat

open Arith

def dirEntryBytes : Nat := 32
def maxClustersFat12 : Nat := 4084
def minClustersFat16 : Nat := 4087
def maxClustersFat16 : Nat := 65524
def minClustersFat32 : Nat := 65525
def maxClustersFat32 : Nat := 268435445
def maxBytesPerCluster : Nat := 32768
def fat32AutoThresholdBytes : Nat := 512 * 1024 * 1024
def alignmentThresholdSectors : Nat := 8192
def fsInfoSector : Nat := 1
def u16Max : Nat := 2 ^ 16 - 1
def u32Max : Nat := 2 ^ 32 - 1

inductive FatType where
  | fat12
  | fat16
  | fat32
deriving DecidableEq

namespace FatType

/-- Bits in one file allocation table entry. -/
def entryBits : FatType → Nat
  | fat12 => 12
  | fat16 => 16
  | fat32 => 32

def label : FatType → List Char
  | fat12 => "FAT12   ".toList
  | fat16 => "FAT16   ".toList
  | fat32 => "FAT32   ".toList

def minClusters : FatType → Nat
  | fat12 => 1
  | fat16 => minClustersFat16
  | fat32 => minClustersFat32

def maxClusters : FatType → Nat
  | fat12 => maxClustersFat12
  | fat16 => maxClustersFat16
  | fat32 => maxClustersFat32

/-- Which type a cluster count derives to. -/
def ofClusterCount (clusters : Nat) : FatType :=
  if clusters < maxClustersFat12 + 1 then fat12
  else if clusters < minClustersFat32 then fat16
  else fat32

end FatType

inductive FatTypeRequest where
  | auto
  | exactly (kind : FatType)
  | undersizedFat32
deriving DecidableEq

inductive ClusterSize where
  | auto
  | sectors (n : Nat)
deriving DecidableEq

inductive RootEntries where
  | auto
  | count (n : Nat)
deriving DecidableEq

inductive ReservedSectors where
  | auto
  | count (n : Nat)
deriving DecidableEq

inductive GeometryError where
  | sectorSizeUnsupported (bytesPerSector : Nat)
  | clusterSizeUnsupported (sectorsPerCluster : Nat)
  | clusterTooLarge (bytes limit : Nat)
  | fatCountUnsupported (fats : Nat)
  | reservedSectorsTooFew (reserved minimum : Nat)
  | reservedSectorsTooMany (reserved limit : Nat)
  | rootEntriesUnsupported (rootEntries limit : Nat)
  | rootEntriesOnFat32 (rootEntries : Nat)
  | volumeTooLarge (sectors limit : Nat)
  | noTypeFits (sectors sectorsPerCluster : Nat)
  | ambiguousClusterCount (clusters low high highPlusOne : Nat)
  | clustersBelowMinimum (requested : FatType) (clusters minimum : Nat)
  | clustersAboveMaximum (requested : FatType) (clusters maximum : Nat)
deriving DecidableEq

/-- How a plan fails: by refusing the request, or by an overflow or a failed assertion. -/
inductive PlanFault where
  | refused (error : GeometryError)
  | panicked
deriving DecidableEq

abbrev Checked := Except PlanFault

def refuse {α : Type} (error : GeometryError) : Checked α := .error (.refused error)

/-- Refuse with `error` where `bad` holds. -/
def refuseIf (bad : Bool) (error : GeometryError) : Checked Unit :=
  if bad then refuse error else .ok ()

/-- Panic unless `holds`. -/
def assertThat (holds : Bool) : Checked Unit := if holds then .ok () else .error .panicked

def inU32 (n : Nat) : Checked Nat := if n ≤ u32Max then .ok n else .error .panicked
def add32 (a b : Nat) : Checked Nat := inU32 (a + b)
def mul32 (a b : Nat) : Checked Nat := inU32 (a * b)
def sub32 (a b : Nat) : Checked Nat := if b ≤ a then .ok (a - b) else .error .panicked
def div32 (a b : Nat) : Checked Nat := if b = 0 then .error .panicked else .ok (a / b)
def divCeil32 (a b : Nat) : Checked Nat := if b = 0 then .error .panicked else .ok (divCeil a b)

/-- `a - b` where it does not go below zero. -/
def checkedSub (a b : Nat) : Option Nat := if b ≤ a then some (a - b) else none

/-- `a * b` where it fits 32 bits. -/
def checkedMul (a b : Nat) : Option Nat := if a * b ≤ u32Max then some (a * b) else none

def isPowerOfTwo (n : Nat) : Bool := n == 2 ^ n.log2

/-- The FAT32 placements that have no counterpart on the smaller two types. -/
structure Fat32Layout where
  rootCluster : Nat
  fsInfoSector : Nat
  backupBootSector : Option Nat
  backupFsInfoSector : Option Nat
deriving DecidableEq

/-- A complete FAT layout. -/
structure FatLayout where
  fatType : FatType
  bytesPerSector : Nat
  sectorsPerCluster : Nat
  reservedSectors : Nat
  fats : Nat
  rootEntries : Nat
  totalSectors : Nat
  fatSectors : Nat
  rootDirSectors : Nat
  firstDataSector : Nat
  clusters : Nat
  fat32 : Option Fat32Layout
deriving DecidableEq

/-- Bytes the filesystem describes. -/
def FatLayout.totalBytes (self : FatLayout) : Nat := self.totalSectors * self.bytesPerSector

/-- What to plan. -/
structure PlanRequest where
  volumeBytes : Nat
  bytesPerSector : Nat
  sectorsPerCluster : ClusterSize
  fats : Nat
  rootEntries : RootEntries
  reservedSectors : ReservedSectors
  fatType : FatTypeRequest
deriving DecidableEq

/-- A request with every knob at the value convention selects. -/
def PlanRequest.new (volumeBytes : Nat) : PlanRequest where
  volumeBytes := volumeBytes
  bytesPerSector := 512
  sectorsPerCluster := .auto
  fats := 2
  rootEntries := .auto
  reservedSectors := .auto
  fatType := .auto

def isSectorSize (bytes : Nat) : Bool :=
  bytes == 512 || bytes == 1024 || bytes == 2048 || bytes == 4096

/-- Refuse what no volume size could rescue. -/
def PlanRequest.validate (self : PlanRequest) : Checked Unit := do
  refuseIf (!isSectorSize self.bytesPerSector) (.sectorSizeUnsupported self.bytesPerSector)
  refuseIf (!(self.fats == 1 || self.fats == 2)) (.fatCountUnsupported self.fats)
  match self.sectorsPerCluster with
  | .auto => .ok ()
  | .sectors n => do
      refuseIf (!isPowerOfTwo n || n > 128) (.clusterSizeUnsupported n)
      refuseIf (n * self.bytesPerSector > maxBytesPerCluster)
        (.clusterTooLarge (n * self.bytesPerSector) maxBytesPerCluster)

-----------------------------------------------------------------------------------------
-- Candidates: how large a type's table is, and how many clusters it leaves
-----------------------------------------------------------------------------------------

structure Candidate where
  fatSectors : Nat
  clusters : Nat
deriving DecidableEq

/-- The three candidates of one cluster size. -/
structure Candidates where
  twelve : Option Candidate
  sixteen : Option Candidate
  thirtyTwo : Option Candidate
deriving DecidableEq

def Candidates.get (self : Candidates) : FatType → Option Candidate
  | .fat12 => self.twelve
  | .fat16 => self.sixteen
  | .fat32 => self.thirtyTwo

/-- Round `sectors` up to a whole number of clusters where the volume is worth aligning. -/
def align (sectors sectorsPerCluster : Nat) (aligning : Bool) : Checked Nat :=
  if aligning then do
    let count ← divCeil32 sectors sectorsPerCluster
    mul32 count sectorsPerCluster
  else
    .ok sectors

/-- Bytes of a table of `clusters` clusters and the two entries at its head. -/
def tableBytes (clusters bits : Nat) : Nat :=
  let entries := clusters + 2
  match bits with
  | 12 => divCeil (entries * 3) 2
  | 16 => entries * 2
  | _ => entries * 4

def tableSectors (clusters bits bytesPerSector spc : Nat) (aligning : Bool) : Checked Nat :=
  let sectors := divCeil (tableBytes clusters bits) bytesPerSector
  align (min sectors u32Max) spc aligning

/-- The clusters that would fit if every cluster paid for its own entry in every table. -/
def clusterEstimate (fatDataSectors bits bytesPerSector spc fats : Nat) : Nat :=
  let twoEntries := bits / 4
  let numerator := 2 * fatDataSectors * bytesPerSector + 2 * fats * twoEntries
  let denominator := 2 * spc * bytesPerSector + fats * twoEntries
  min (numerator / denominator) u32Max

/-- The clusters and table size one type reaches. -/
def candidate (fatDataSectors bits bytesPerSector spc fats : Nat) (aligning : Bool)
    : Checked (Option Candidate) := do
  let estimate := clusterEstimate fatDataSectors bits bytesPerSector spc fats
  let fatSectors ← tableSectors estimate bits bytesPerSector spc aligning
  match checkedMul fats fatSectors with
  | none => return none
  | some tables =>
      match checkedSub fatDataSectors tables with
      | none => return none
      | some data => do
          let clusters ← div32 data spc
          return if clusters = 0 then none else some ⟨fatSectors, clusters⟩

def startingClusterSize (fat32 : Bool) (sectors : Nat) : Nat :=
  if !fat32 then 4
  else if sectors > 32 * 1024 * 1024 * 2 then 64
  else if sectors > 16 * 1024 * 1024 * 2 then 32
  else if sectors > 8 * 1024 * 1024 * 2 then 16
  else if sectors > 260 * 1024 * 2 then 8
  else 1

/-- Which reserved sector holds the backup boot sector. -/
def backupBootSector (reserved info : Nat) : Option Nat :=
  if reserved ≥ 7 ∧ info ≠ 6 then some 6
  else if reserved ≥ 3 + info ∧ info ≠ reserved - 2 ∧ info ≠ reserved - 1 then
    some (reserved - 2)
  else if reserved ≥ 3 ∧ info ≠ reserved - 1 then some (reserved - 1)
  else none

/-- The candidate of `kind`, where its count lies in the range the request admits. -/
def fits (request : FatTypeRequest) (candidates : Candidates) (kind : FatType)
    : Option Candidate :=
  let low := if request = .undersizedFat32 ∧ kind = .fat32 then 1 else kind.minClusters
  (candidates.get kind).filter fun c => low ≤ c.clusters && c.clusters ≤ kind.maxClusters

/-- The candidate the request picks among those it accepts. -/
def select (request : FatTypeRequest) (candidates : Candidates)
    : Option (FatType × Candidate) :=
  match request with
  | .exactly kind => (fits request candidates kind).map fun c => (kind, c)
  | .undersizedFat32 => (fits request candidates .fat32).map fun c => (.fat32, c)
  | .auto =>
      match fits request candidates .fat12, fits request candidates .fat16 with
      | some a, some b => if b.clusters > a.clusters then some (.fat16, b) else some (.fat12, a)
      | some a, none => some (.fat12, a)
      | none, some b => some (.fat16, b)
      | none, none => none

/-- The FAT12 candidate to shorten, where the volume lies between FAT12 and FAT16. -/
def stepDown (request : FatTypeRequest) (candidates : Candidates) : Option Candidate :=
  if request = .auto ∨ request = .exactly .fat12 then
    match candidates.twelve with
    | none => none
    | some twelve =>
        if twelve.clusters ≤ maxClustersFat12 then none
        else
          match candidates.sixteen with
          | some sixteen => if sixteen.clusters < minClustersFat16 then some twelve else none
          | none => none
  else
    none

/-- Why nothing fit, said as precisely as the candidates allow. -/
def diagnose (request : FatTypeRequest) (sectors spc : Nat) (candidates : Candidates)
    : GeometryError :=
  let named : Option FatType :=
    match request with
    | .exactly kind => some kind
    | .undersizedFat32 => some .fat32
    | .auto => none
  match named.bind fun kind => (candidates.get kind).map fun c => (kind, c) with
  | none => .noTypeFits sectors spc
  | some (kind, c) =>
      if c.clusters > kind.maxClusters then
        .clustersAboveMaximum kind c.clusters kind.maxClusters
      else if kind = .fat16 ∧ c.clusters > maxClustersFat12 ∧ c.clusters < minClustersFat16 then
        .ambiguousClusterCount c.clusters (maxClustersFat12 + 1) (minClustersFat16 - 1)
          minClustersFat16
      else
        .clustersBelowMinimum kind c.clusters kind.minClusters

-----------------------------------------------------------------------------------------
-- The search over cluster sizes
-----------------------------------------------------------------------------------------

/-- What every pass of the search shares. -/
structure Volume where
  totalSectors : Nat
  bytesPerSector : Nat
  fats : Nat
  reserved : Nat
  rootDirSectors : Nat
  aligning : Bool
deriving DecidableEq

/-- What every type would reach at one cluster size. -/
def Volume.candidates (v : Volume) (spc : Nat) : Checked Candidates := do
  let reservedAligned ← align v.reserved spc v.aligning
  let rootAligned ← align v.rootDirSectors spc v.aligning
  match checkedSub v.totalSectors reservedAligned with
  | none => return ⟨none, none, none⟩
  | some fatData32 =>
      match checkedSub fatData32 rootAligned with
      | none => return ⟨none, none, none⟩
      | some fatData1216 => do
          let twelve ← candidate fatData1216 12 v.bytesPerSector spc v.fats v.aligning
          let sixteen ← candidate fatData1216 16 v.bytesPerSector spc v.fats v.aligning
          let thirtyTwo ← candidate fatData32 32 v.bytesPerSector spc v.fats v.aligning
          return ⟨twelve, sixteen, thirtyTwo⟩

/-- What the search settles on. -/
structure Chosen where
  fatType : FatType
  candidate : Candidate
  spc : Nat
deriving DecidableEq

/-- The search: the first cluster size the request can be satisfied at, doubling from `spc`
to `last`. Each doubling shortens the distance to `last`.
-/
def search (v : Volume) (request : FatTypeRequest) (last : Nat)
    : (fuel spc : Nat) → last - spc < fuel → (spc < last → 0 < spc) → Checked Chosen
  | 0, _, enough, _ => absurd enough (Nat.not_lt_zero _)
  | fuel + 1, spc, _, positive => do
      let candidates ← v.candidates spc
      match select request candidates with
      | some (kind, c) => return ⟨kind, c, spc⟩
      | none =>
          if more : spc < last then
            if spc * 2 ≤ u32Max then
              search v request last fuel (spc * 2) (by have := positive more; omega)
                (by omega)
            else
              .error .panicked
          else
            match stepDown request candidates with
            | some c => return ⟨.fat12, c, spc⟩
            | none => refuse (diagnose request v.totalSectors spc candidates)

/-- The first and the last cluster size to try. The first is never zero where it may be
doubled.
-/
abbrev ClusterSizes := { sizes : Nat × Nat // sizes.1 < sizes.2 → 0 < sizes.1 }

def searchFrom (v : Volume) (request : FatTypeRequest) (sizes : ClusterSizes)
    : Checked Chosen :=
  search v request sizes.val.2 (sizes.val.2 - sizes.val.1 + 1) sizes.val.1
    (Nat.lt_succ_self _) sizes.property

def PlanRequest.clusterSizes (self : PlanRequest) (fat32Intended : Bool) : ClusterSizes :=
  match self.sectorsPerCluster with
  | .sectors n => ⟨(n, n), fun less => absurd less (lt_irrefl n)⟩
  | .auto =>
      let ceiling := min (max (maxBytesPerCluster / self.bytesPerSector) 1) 128
      let starting :=
        startingClusterSize fat32Intended (self.volumeBytes / self.bytesPerSector)
      ⟨(min starting ceiling, ceiling), fun _ => by
        have ceilingPos : 0 < ceiling := by omega
        have startingPos : 0 < starting := by
          simp only [starting, startingClusterSize]
          split_ifs <;> decide
        exact lt_min startingPos ceilingPos⟩

-----------------------------------------------------------------------------------------
-- The plan
-----------------------------------------------------------------------------------------

/-- Whether FAT32 is what the request is heading for. -/
def PlanRequest.fat32Intended (self : PlanRequest) : Bool :=
  match self.fatType with
  | .exactly .fat32 | .undersizedFat32 => true
  | .exactly _ => false
  | .auto => self.volumeBytes ≥ fat32AutoThresholdBytes

/-- The type the search is for: convention selects FAT32 outright for a large volume. -/
def PlanRequest.searchedType (self : PlanRequest) : FatTypeRequest :=
  if self.fatType = .auto ∧ self.fat32Intended = true then .exactly .fat32 else self.fatType

/-- The reserved sectors asked for, before they are aligned. -/
def PlanRequest.reservedRequested (self : PlanRequest) : Checked Nat := do
  let reserved :=
    match self.reservedSectors with
    | .auto => if self.fat32Intended then 32 else 1
    | .count n => n
  let minimum := if self.fat32Intended then 2 else 1
  refuseIf (reserved < minimum) (.reservedSectorsTooFew reserved minimum)
  refuseIf (reserved > u16Max) (.reservedSectorsTooMany reserved u16Max)
  return reserved

/-- The root directory entries asked for, before the region is aligned. -/
def PlanRequest.rootEntriesRequested (self : PlanRequest) : Checked Nat :=
  if self.fat32Intended then
    match self.rootEntries with
    | .auto => .ok 0
    | .count n => if n ≠ 0 then refuse (.rootEntriesOnFat32 n) else .ok 0
  else
    let n :=
      match self.rootEntries with
      | .auto => 512
      | .count n => n
    if n = 0 ∨ n > u16Max then refuse (.rootEntriesUnsupported n u16Max) else .ok n

/-- The counts a layout is built from. -/
structure Counts where
  clusters : Nat
  fatSectors : Nat
  totalSectors : Nat
deriving DecidableEq

/-- What the search chose, with a FAT12 in the disputed range shortened to the largest count
no driver disputes.
-/
def shorten (v : Volume) (chosen : Chosen) (reservedAligned rootAligned : Nat)
    : Checked Counts :=
  if chosen.fatType = .fat12 ∧ chosen.candidate.clusters > maxClustersFat12 then do
    let fatSectors ←
      tableSectors maxClustersFat12 12 v.bytesPerSector chosen.spc v.aligning
    let tables ← mul32 v.fats fatSectors
    let data ← mul32 maxClustersFat12 chosen.spc
    let totalSectors ← add32 (← add32 (← add32 reservedAligned tables) rootAligned) data
    return ⟨maxClustersFat12, fatSectors, totalSectors⟩
  else
    return ⟨chosen.candidate.clusters, chosen.candidate.fatSectors, v.totalSectors⟩

/-- The FAT32 placements in a reserved region. -/
def fat32Layout (reservedAligned : Nat) : Fat32Layout :=
  let backup := backupBootSector reservedAligned fsInfoSector
  {
    rootCluster := 2
    fsInfoSector := fsInfoSector
    backupBootSector := backup
    backupFsInfoSector := (backup.map (· + fsInfoSector)).filter (· < reservedAligned)
  }

/-- The root entry count the boot sector records: the region's full capacity where it was
aligned, and the count asked for where it was not.
-/
def recordedRootEntries (v : Volume) (rootAligned rootEntriesRequested : Nat) : Checked Nat :=
  if v.aligning then mul32 rootAligned (v.bytesPerSector / 32) else .ok rootEntriesRequested

/-- Lay out what the search chose. -/
def settle (v : Volume) (rootEntriesRequested : Nat) (chosen : Chosen) : Checked FatLayout := do
  let spc := chosen.spc
  let reservedAligned ← align v.reserved spc v.aligning
  let rootAligned ← align v.rootDirSectors spc v.aligning
  let counts ← shorten v chosen reservedAligned rootAligned
  let tables ← mul32 v.fats counts.fatSectors
  let firstDataSector ← add32 (← add32 reservedAligned tables) rootAligned
  let derived ← div32 (← sub32 counts.totalSectors firstDataSector) spc
  assertThat (derived == counts.clusters)
  let rootEntries ← recordedRootEntries v rootAligned rootEntriesRequested
  refuseIf (rootEntries > u16Max) (.rootEntriesUnsupported rootEntries u16Max)
  refuseIf (reservedAligned > u16Max) (.reservedSectorsTooMany reservedAligned u16Max)
  return {
    fatType := chosen.fatType
    bytesPerSector := v.bytesPerSector
    sectorsPerCluster := spc
    reservedSectors := reservedAligned
    fats := v.fats
    rootEntries := rootEntries
    totalSectors := counts.totalSectors
    fatSectors := counts.fatSectors
    rootDirSectors := rootAligned
    firstDataSector := firstDataSector
    clusters := counts.clusters
    fat32 := if chosen.fatType = .fat32 then some (fat32Layout reservedAligned) else none
  }

/-- Plan the complete layout of a FAT volume. -/
def planLayout (request : PlanRequest) : Checked FatLayout := do
  request.validate
  let volumeSectors := request.volumeBytes / request.bytesPerSector
  refuseIf (volumeSectors > u32Max) (.volumeTooLarge volumeSectors u32Max)
  let reserved ← request.reservedRequested
  let rootEntriesRequested ← request.rootEntriesRequested
  let rootDirBytes ← mul32 rootEntriesRequested 32
  let rootDirSectors ← divCeil32 rootDirBytes request.bytesPerSector
  let volume : Volume :=
    {
      totalSectors := volumeSectors
      bytesPerSector := request.bytesPerSector
      fats := request.fats
      reserved := reserved
      rootDirSectors := rootDirSectors
      aligning := volumeSectors > alignmentThresholdSectors
    }
  let sizes := request.clusterSizes request.fat32Intended
  let chosen ← searchFrom volume request.searchedType sizes
  settle volume rootEntriesRequested chosen

end Ferrosys.Fat
