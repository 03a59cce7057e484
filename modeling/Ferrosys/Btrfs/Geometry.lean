import Ferrosys.Btrfs.Feature
import Ferrosys.Library.Loop
import Ferrosys.Library.Machine
import Mathlib.Data.List.Destutter
import Mathlib.Data.List.Sort

/-! The btrfs geometry planner: a pure function from a volume size, the replication of its two
kinds of block group and a description of its content to where every chunk sits. Each plain sum,
difference and product of the source is one of the build's, so that a plan says what the program
does with the overflow checks as well as without them.
-/

namespace Ferrosys.Btrfs

open Arith Machine

def reservedHead : Nat := 2 ^ 20
def stripeLen : Nat := 64 * 2 ^ 10
def bootstrapSystemChunk : Nat := 4 * 2 ^ 20
def volumeShare : Nat := 10
def largeVolume : Nat := 50 * 2 ^ 30
def defaultNodeSize : Nat := 16 * 2 ^ 10
def defaultSectorSize : Nat := 4096
def minBlockSize : Nat := 4096
def maxBlockSize : Nat := 65536
def superInfoSize : Nat := 4096

/-- Where the copies of the superblock belong. -/
def mirrors : List Nat := [64 * 2 ^ 10, 64 * 2 ^ 20, 256 * 2 ^ 30]

/-- How a block group is replicated across the one device an image is. -/
inductive Profile where
  | single
  | dup
deriving DecidableEq

namespace Profile

def copies : Profile → Nat
  | single => 1
  | dup => 2

def flag : Profile → FlagWord
  | single => 0
  | dup => BlockGroupFlags.dup

end Profile

inductive SectorSize where
  | auto
  | bytes (n : UInt32)
deriving DecidableEq

inductive NodeSize where
  | auto
  | bytes (n : UInt32)
deriving DecidableEq

/-- How much a filesystem will be given. -/
structure Content where
  directories : UInt64
  files : UInt64
  names : UInt64
  longestName : UInt32
  longestValue : UInt64
  xattrs : UInt64
  subvolumes : UInt64
  dataBytes : UInt64
  dataExtents : UInt64
deriving DecidableEq

/-- A filesystem holding nothing but the root directory of its one subvolume. -/
def Content.empty : Content := ⟨1, 0, 0, 0, 0, 0, 0, 0, 0⟩

/-- How many tree blocks a layout may consume, and the size of each. -/
structure Reservation where
  metadataBlocks : Nat
  systemBlocks : Nat
  nodeSize : Nat
deriving DecidableEq

inductive GeometryError where
  | sectorSizeUnsupported (bytes : Nat)
  | nodeSizeUnsupported (bytes sectorSize : Nat)
  | volumeTooSmall (volumeBytes minimum : Nat)
  | contentTooLarge (volumeBytes needed : Nat)
  | chunkMapTooLarge (chunks neededBlocks availableBlocks : Nat)
  | featureUnsupported (bits : FlagWord) (names : String)
  | featureIncoherent (feature requires : String)
deriving DecidableEq

/-- What a step of the planner comes to. -/
abbrev Planned := Except (Fault GeometryError)

def writableIncompat : FlagWord :=
  IncompatFlags.mixedBackref ||| IncompatFlags.defaultSubvol ||| IncompatFlags.bigMetadata
    ||| IncompatFlags.extendedIref ||| IncompatFlags.skinnyMetadata ||| IncompatFlags.noHoles
    ||| IncompatFlags.metadataUuid

def writableCompatRo : FlagWord :=
  CompatRoFlags.freeSpaceTree ||| CompatRoFlags.freeSpaceTreeValid
    ||| CompatRoFlags.blockGroupTree

def defaultIncompat : FlagWord :=
  IncompatFlags.mixedBackref ||| IncompatFlags.extendedIref ||| IncompatFlags.skinnyMetadata
    ||| IncompatFlags.noHoles

def defaultCompatRo : FlagWord := writableCompatRo

def defaultMetadataProfile : Profile := .dup

def defaultDataProfile : Profile := .single

/-- What a caller states about the filesystem to be planned. -/
structure PlanRequest where
  volumeBytes : UInt64
  sectorSize : SectorSize
  nodeSize : NodeSize
  metadataProfile : Profile
  dataProfile : Profile
  incompatFlags : FlagWord
  compatRoFlags : FlagWord
  content : Content
deriving DecidableEq

namespace PlanRequest

/-- A request for a volume this many bytes long, at every default. -/
def new (volumeBytes : UInt64) : PlanRequest where
  volumeBytes
  sectorSize := .auto
  nodeSize := .auto
  metadataProfile := defaultMetadataProfile
  dataProfile := defaultDataProfile
  incompatFlags := defaultIncompat
  compatRoFlags := defaultCompatRo
  content := .empty

/-- The bytes of the device. -/
def volume (request : PlanRequest) : Nat := request.volumeBytes.toNat

end PlanRequest

/-- A chunk with an address: a run of logical space, what it holds, and where each copy of it
begins on the device.
-/
structure PlannedChunk where
  logical : Nat
  length : Nat
  flags : FlagWord
  copies : List Nat
deriving DecidableEq

/-- Everything about a filesystem that is decided before a byte of it is written. -/
structure BtrfsLayout where
  volumeBytes : Nat
  sectorSize : Nat
  nodeSize : Nat
  incompatFlags : FlagWord
  compatRoFlags : FlagWord
  chunks : List PlannedChunk
  superblockMirrors : List Nat
  reservation : Reservation
deriving DecidableEq

/-- Whether a size is one the format accepts for a sector or a node. -/
def isBlockSize (bytes : Nat) : Bool :=
  bytes == 2 ^ bytes.log2 && minBlockSize ≤ bytes && bytes ≤ maxBlockSize

/-- The sector and node sizes a request resolves to. -/
def blockSizes (request : PlanRequest) : Planned (Nat × Nat) := do
  let sectorSize :=
    match request.sectorSize with
    | .auto => defaultSectorSize
    | .bytes bytes => bytes.toNat
  refuseIf (!isBlockSize sectorSize) (.sectorSizeUnsupported sectorSize)
  let nodeSize :=
    match request.nodeSize with
    | .auto => max defaultNodeSize sectorSize
    | .bytes bytes => bytes.toNat
  refuseIf (!isBlockSize nodeSize || nodeSize < sectorSize)
    (.nodeSizeUnsupported nodeSize sectorSize)
  return (sectorSize, nodeSize)

/-- The feature words a filesystem will carry, with what the geometry implies folded in. -/
def validatedFeatures (request : PlanRequest) (nodeSize : Nat) : Planned FlagWord := do
  let unsupported := request.incompatFlags.without writableIncompat
  refuseIf (!unsupported.isEmpty)
    (.featureUnsupported unsupported (unsupported.describe IncompatFlags.flags))
  let unsupportedRo := request.compatRoFlags.without writableCompatRo
  refuseIf (!unsupportedRo.isEmpty)
    (.featureUnsupported unsupportedRo (unsupportedRo.describe CompatRoFlags.flags))
  if request.compatRoFlags.contains CompatRoFlags.blockGroupTree then
    refuseIf (!request.compatRoFlags.contains CompatRoFlags.freeSpaceTree)
      (.featureIncoherent "block-group-tree" "free-space-tree")
    refuseIf (!request.incompatFlags.contains IncompatFlags.noHoles)
      (.featureIncoherent "block-group-tree" "no-holes")
  if minBlockSize < nodeSize then
    return request.incompatFlags ||| IncompatFlags.bigMetadata
  else
    refuseIf (request.incompatFlags.contains IncompatFlags.bigMetadata)
      (.featureIncoherent "big-metadata" "a node larger than four kibibytes")
    return request.incompatFlags

/-- The fewest bytes a volume can be and still hold these profiles' chunks. -/
def minimumVolumeBytes (metadata data : Profile) : Nat :=
  let bootstrap := reservedHead + bootstrapSystemChunk + 2 * (8 * 2 ^ 20)
  let metadataBytes :=
    match metadata with
    | .dup => 2 * (8 * 2 ^ 20 + 32 * 2 ^ 20)
    | .single => 8 * 2 ^ 20 + 8 * 2 ^ 20
  let dataBytes :=
    match data with
    | .dup => 2 * (64 * 2 ^ 20)
    | .single => 8 * 2 ^ 20
  bootstrap + metadataBytes + dataBytes

/-- The length a chunk is preferred to be, the least it may be, and the most. -/
structure LengthRule where
  preferred : Nat
  minLength : Nat
  maxLength : Nat
deriving DecidableEq

/-- The rule of an unreplicated chunk, whatever it holds. -/
def LengthRule.generic : LengthRule := ⟨8 * 2 ^ 20, 2 ^ 20, 32 * 2 ^ 20⟩

/-- The rule of a chunk, which depends on what it holds only where it is replicated. -/
def lengthRule (kind : FlagWord) (profile : Profile) (volumeBytes : Nat) : LengthRule :=
  match profile with
  | .single => .generic
  | .dup =>
      if kind.contains BlockGroupFlags.system then
        { LengthRule.generic with maxLength := 16 * 2 ^ 20 }
      else if kind.contains BlockGroupFlags.data then ⟨2 ^ 30, 64 * 2 ^ 20, 10 * 2 ^ 30⟩
      else if kind.contains BlockGroupFlags.metadata then
        let most := if largeVolume < volumeBytes then 2 ^ 30 else 256 * 2 ^ 20
        ⟨most, 32 * 2 ^ 20, most⟩
      else .generic

/-- `value` rounded down to a whole number of `unit`s. -/
def roundDown (value unit : Nat) : Nat := value - value % unit

/-- The length of one chunk, as the format's own allocator derives it. No step of it can
overflow.
-/
def chunkLength (kind : FlagWord) (profile : Profile) (volumeBytes : Nat) : Nat :=
  let rule := lengthRule kind profile volumeBytes
  let share := volumeBytes / volumeShare
  let most := if share < rule.maxLength then share else rule.maxLength
  let length :=
    if most < rule.preferred then roundDown (most / profile.copies) stripeLen else rule.preferred
  let length := if length < rule.minLength then rule.minLength else length
  roundDown length stripeLen

/-- One chunk to be laid down, before its address is known. A chunk that is not kept moves both
cursors and is then dropped.
-/
structure Pending where
  kind : FlagWord
  profile : Profile
  length : Nat
  keep : Bool
deriving DecidableEq

/-- Bytes each kind of block group gives up to superblock copies. -/
structure Lost where
  metadata : Nat
  data : Nat
deriving DecidableEq

namespace Lost

def none : Lost := ⟨0, 0⟩

/-- Whether this loses no more of either kind than `counted` allowed for. -/
def within (lost counted : Lost) : Bool :=
  lost.metadata ≤ counted.metadata && lost.data ≤ counted.data

/-- The larger loss of each kind. -/
def max (lost other : Lost) : Lost :=
  ⟨Nat.max lost.metadata other.metadata, Nat.max lost.data other.data⟩

end Lost

/-- The chunks laid down for the filesystem itself: unreplicated ones to bootstrap it, and the
replicated ones that take their place.
-/
def firstChunks (request : PlanRequest) : List Pending :=
  let volume := request.volume
  let metadata := request.metadataProfile
  let data := request.dataProfile
  let keepsBootstrapMetadata := metadata == .single
  let keepsBootstrapData := data == .single
  let system := BlockGroupFlags.system
  let meta_ := BlockGroupFlags.metadata
  let dat := BlockGroupFlags.data
  [⟨system, .single, bootstrapSystemChunk, keepsBootstrapMetadata⟩,
    ⟨meta_, .single, chunkLength meta_ .single volume, keepsBootstrapMetadata⟩,
    ⟨dat, .single, chunkLength dat .single volume, keepsBootstrapData⟩]
  ++ (if keepsBootstrapMetadata then []
    else [⟨system, metadata, chunkLength system metadata volume, true⟩,
      ⟨meta_, metadata, chunkLength meta_ metadata volume, true⟩])
  ++ (if keepsBootstrapData then [] else [⟨dat, data, chunkLength dat data volume, true⟩])

/-- Bytes of this kind that the pending chunks keep. -/
def held (build : Build) (pending : List Pending) (kind : FlagWord) : Planned Nat :=
  sum build ((pending.filter fun entry => entry.keep && entry.kind.contains kind).map (·.length))

/-- How many chunks of `each` bytes it takes to cover what `held` leaves of `needed`. -/
def shortfall (needed held each : Nat) : Planned Nat :=
  if held < needed then ceilDiv (needed - held) each else .ok 0

/-- Bytes of the device all the chunks would take with the reserved head, where they fit a
word.
-/
def neededBytes (build : Build) (request : PlanRequest)
    (extraMetadata metadataEach extraData dataEach placed : Nat) : Planned (Option Nat) := do
  let some bytes := checkedMul extraMetadata
      (← mul build metadataEach request.metadataProfile.copies)
    | return none
  let some more := checkedMul extraData (← mul build dataEach request.dataProfile.copies)
    | return none
  let some bytes := checkedAdd bytes more
    | return none
  return checkedAdd bytes (← add build placed reservedHead)

/-- Every chunk to be laid down, where `lost` is what each kind of block group gives up to the
superblock copies.
-/
def pendingChunks (build : Build) (request : PlanRequest) (metadataBytes : Nat) (lost : Lost)
    : Planned (List Pending) := do
  let volume := request.volume
  let metadata := request.metadataProfile
  let data := request.dataProfile
  let meta_ := BlockGroupFlags.metadata
  let dat := BlockGroupFlags.data
  let pending := firstChunks request
  let metadataEach := chunkLength meta_ metadata volume
  let extraMetadata ← shortfall (satAdd metadataBytes lost.metadata)
    (← held build pending meta_) metadataEach
  let dataEach := chunkLength dat data volume
  let extraData ← shortfall (satAdd request.content.dataBytes.toNat lost.data)
    (← held build pending dat) dataEach
  let placed ← sum build
    (← pending.mapM fun entry => mul build entry.length entry.profile.copies)
  let needed ← neededBytes build request extraMetadata metadataEach extraData dataEach placed
  refuseIf (!needed.any (· ≤ volume)) (.contentTooLarge volume (needed.getD wordMax))
  return pending
    ++ List.replicate extraMetadata ⟨meta_, metadata, metadataEach, true⟩
    ++ List.replicate extraData ⟨dat, data, dataEach, true⟩

/-- The chunk a pending one becomes at these cursors, where it is kept. -/
def placeEntry (build : Build) (entry : Pending) (logical physical : Nat)
    : Planned (List PlannedChunk) := do
  if entry.keep then
    let starts ← (List.range entry.profile.copies).mapM fun n => do
      add build physical (← mul build n entry.length)
    return [⟨logical, entry.length, entry.kind ||| entry.profile.flag, starts⟩]
  else return []

/-- Lay the pending chunks out from these cursors on, and say where the device cursor ends. -/
def placeFrom (build : Build)
    : (pending : List Pending) → (logical physical : Nat) → Planned (List PlannedChunk × Nat)
  | [], _, physical => .ok ([], physical)
  | entry :: rest, logical, physical => do
      let here ← placeEntry build entry logical physical
      let nextLogical ← add build logical entry.length
      let nextPhysical ← add build physical (← mul build entry.length entry.profile.copies)
      let (later, stop) ← placeFrom build rest nextLogical nextPhysical
      return (here ++ later, stop)

/-- Lay every pending chunk out. -/
def placePending (build : Build) (pending : List Pending) (volume : Nat)
    : Planned (List PlannedChunk) := do
  let (chunks, physical) ← placeFrom build pending reservedHead reservedHead
  debugAssert build (physical ≤ volume)
  return chunks

/-- How much of a block group is left unallocated where a copy of its chunk lies over a
superblock copy.
-/
def mirrorWindow : Nat := stripeLen

/-- Whether a device this many bytes long holds the whole of the superblock copy at `at_`. -/
def holdsMirror (deviceBytes at_ : Nat) : Bool :=
  (checkedAdd at_ superInfoSize).any (· ≤ deviceBytes)

/-- Every superblock copy a device this long holds. -/
def heldMirrors (volumeBytes : Nat) : List Nat := mirrors.filter (holdsMirror volumeBytes)

/-- The windows that one superblock copy takes from one copy of a chunk. -/
def windowsOver (build : Build) (chunk : PlannedChunk) (copy copyEnd at_ : Nat)
    : Planned (List Nat) := do
  let stop ← add build at_ superInfoSize
  if stop ≤ copy ∨ copyEnd ≤ at_ then return []
  else
    let first := (← sub build (max at_ copy) copy) / mirrorWindow
    let last := (← sub build (← sub build (min stop copyEnd) 1) copy) / mirrorWindow
    (List.range' first (last + 1 - first)).mapM fun stripe => do
      add build chunk.logical (← mul build stripe mirrorWindow)

/-- Where in `chunk` no block may be allocated: the logical address each window begins at. -/
def mirrorWindows (build : Build) (chunk : PlannedChunk) (mirrors : List Nat)
    : Planned (List Nat) := do
  let windows ← chunk.copies.mapM fun copy => do
    let copyEnd ← add build copy chunk.length
    mirrors.mapM (windowsOver build chunk copy copyEnd)
  return (windows.flatten.flatten.insertionSort (· ≤ ·)).destutter (· ≠ ·)

/-- Bytes of `chunk` its mirror windows take. -/
def windowBytes (build : Build) (chunk : PlannedChunk) (mirrors : List Nat) : Planned Nat := do
  mul build (← mirrorWindows build chunk mirrors).length mirrorWindow

/-- What chunks of this kind give up to these superblock copies. -/
def lostOf (build : Build) (chunks : List PlannedChunk) (mirrors : List Nat) (kind : FlagWord)
    : Planned Nat := do
  sum build
    (← (chunks.filter (·.flags.contains kind)).mapM (windowBytes build · mirrors))

/-- What these chunks give up to these superblock copies. -/
def Lost.of (build : Build) (chunks : List PlannedChunk) (mirrors : List Nat) : Planned Lost := do
  return ⟨← lostOf build chunks mirrors BlockGroupFlags.metadata,
    ← lostOf build chunks mirrors BlockGroupFlags.data⟩

/-- One turn of the planner's loop: count the chunks with what is lost so far, place them, and
stop once the placement loses no more.
-/
def placeTurn (build : Build) (request : PlanRequest) (metadataBytes : Nat)
    (mirrors : List Nat) (lost : Lost) : Loop.Next Lost (Planned (List PlannedChunk)) :=
  Loop.orStop do
    let pending ← pendingChunks build request metadataBytes lost
    let chunks ← placePending build pending request.volume
    let placed ← Lost.of build chunks mirrors
    return if placed.within lost then .stop (.ok chunks) else .go (lost.max placed)

/-- The blocks of the level above `width` of them. -/
def levelTurn (fanOut : Nat) (state : Nat × List Nat) : Loop.Next (Nat × List Nat) (List Nat) :=
  if 1 < state.1 then
    let width := divCeil state.1 (max fanOut 2)
    .go (width, state.2 ++ [width])
  else .stop state.2

/-- Every level is narrower than the one below it. -/
theorem levelTurn_lowers (fanOut : Nat) : Loop.Lowers (levelTurn fanOut) (·.1) := by
  intro state next taken
  unfold levelTurn at taken
  split at taken
  next wide =>
    obtain rfl := Loop.Next.go.inj taken
    exact divCeil_lt wide (le_max_right _ _)
  next => cases taken

/-- How many blocks stand above `leaves`, level by level, in a tree of this fan-out. -/
def levelsAbove (leaves fanOut : Nat) : List Nat :=
  Loop.total (levelTurn fanOut) (·.1) (levelTurn_lowers fanOut) (leaves, [])

def headerSize : Nat := 101
def itemSize : Nat := 25
def keyPtrSize : Nat := 33
def rootItemSize : Nat := 439
def inodeItemSize : Nat := 160
def inodeRefSize : Nat := 10
def dirItemSize : Nat := 30
def chunkSize : Nat := 48
def stripeSize : Nat := 32
def devItemSize : Nat := 98
def csumBytesPerSector : Nat := 4
def maxCsumRecord : Nat := 2048
def extentRecordBytes : Nat := 64

/-- Records of `recordBytes` each, in blocks of `nodeSize`, leaves and internal nodes both. -/
def blocksFor (build : Build) (records recordBytes nodeSize : Nat) : Planned Nat := do
  if records = 0 then return 1
  else
    let capacity ← sub build nodeSize headerSize
    let perLeaf := max (← div capacity (← add build itemSize recordBytes)) 1
    let leaves ← ceilDiv records perLeaf
    return (levelsAbove leaves (capacity / keyPtrSize)).foldl satAdd leaves

/-- Bytes of the widest record the filesystem trees hold. -/
def fsRecordBytes (build : Build) (content : Content) : Planned Nat := do
  let nameBytes := content.longestName.toNat
  let ref ← add build inodeRefSize nameBytes
  let entry ← add build (← add build dirItemSize nameBytes) content.longestValue.toNat
  return max (max inodeItemSize ref) entry

/-- How many metadata blocks the filesystem may spend: every tree but the chunk tree. -/
def reserveMetadata (build : Build) (request : PlanRequest) (sectorSize nodeSize : Nat)
    (compatRo : FlagWord) (mirrors : Nat) : Planned Nat := do
  let content := request.content
  let subvolumes := satAdd content.subvolumes.toNat 1
  let dataExtents := satAdd content.dataExtents.toNat mirrors
  let trees := 6 + (compatRo.contains CompatRoFlags.freeSpaceTree).toNat
    + (compatRo.contains CompatRoFlags.blockGroupTree).toNat
  let rootRecords := satAdd (satAdd trees (satMul subvolumes 3)) 4
  let rootTree ← blocksFor build rootRecords rootItemSize nodeSize
  let fsRecords := satAdd (satAdd (satAdd (satAdd content.directories.toNat
    (satMul content.files.toNat 2)) (satMul content.names.toNat 3)) content.xattrs.toNat)
    dataExtents
  let fsTrees :=
    satAdd (← blocksFor build fsRecords (← fsRecordBytes build content) nodeSize) subvolumes
  let csumBytes := satMul (← ceilDiv content.dataBytes.toNat sectorSize) csumBytesPerSector
  let csumTree ← blocksFor build (← ceilDiv csumBytes maxCsumRecord) maxCsumRecord nodeSize
  let smallTrees := satAdd (← mul build 3 (← blocksFor build 64 64 nodeSize))
    (← blocksFor build subvolumes 32 nodeSize)
  let outsideExtentTree := satAdd (satAdd (satAdd rootTree fsTrees) csumTree) smallTrees
  let capacity ← sub build nodeSize headerSize
  let perLeaf := max (← div capacity (← add build itemSize extentRecordBytes)) 2
  let outsideRecords := satMul (satAdd outsideExtentTree dataExtents) 2
  let extentTree ← blocksFor build
    (satAdd outsideRecords (← ceilDiv outsideRecords (← sub build perLeaf 1)))
    extentRecordBytes nodeSize
  let total := satAdd outsideExtentTree extentTree
  return satAdd (satAdd total (total / 8)) 8

/-- Bytes of a chunk's record: a fixed head and one stripe per copy. -/
def chunkRecordBytes (build : Build) (chunk : PlannedChunk) : Planned Nat := do
  add build chunkSize (← mul build chunk.copies.length stripeSize)

/-- How many tree blocks the system chunk has room for, the windows of superblock copies apart. -/
def systemRoom (build : Build) (chunks : List PlannedChunk) (mirrors : List Nat) (nodeSize : Nat)
    : Planned Nat :=
  match chunks.find? (·.flags.contains BlockGroupFlags.system) with
  | none => .ok 0
  | some chunk => do
      div (← sub build chunk.length (← windowBytes build chunk mirrors)) nodeSize

/-- How many system blocks the filesystem may spend: the chunk tree, and nothing else. -/
def reserveSystem (build : Build) (chunks : List PlannedChunk) (mirrors : List Nat)
    (nodeSize : Nat) : Planned Nat := do
  let count := chunks.length
  let records ← chunks.mapM (chunkRecordBytes build)
  let recordBytes := max (records.max?.getD chunkSize) devItemSize
  let neededBlocks ← blocksFor build (satAdd count 1) recordBytes nodeSize
  let availableBlocks ← systemRoom build chunks mirrors nodeSize
  refuseIf (availableBlocks < neededBlocks)
    (.chunkMapTooLarge count neededBlocks availableBlocks)
  return neededBlocks

end Ferrosys.Btrfs
