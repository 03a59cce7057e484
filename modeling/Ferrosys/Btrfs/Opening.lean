import Ferrosys.Btrfs.Btree
import Ferrosys.Btrfs.Chunk
import Ferrosys.Btrfs.Superblock
import Mathlib.Data.List.MinMax

/-! Opening a btrfs image: the superblock chosen among the copies the device has, what became of
each of them, and the address space read through the one chosen.
-/

namespace Ferrosys.Btrfs

open Splice Checked OrderDual

/-- What was found at one of the places a superblock belongs. -/
inductive Mirror where
  | outsideDevice
  | truncated
  | absent
  | damaged
  | misplaced (bytenr : Nat)
  | present (generation : Nat)
  | diverged (generation : Nat)
deriving DecidableEq

inductive OpenError where
  | notBtrfs
  | badChecksum (object : String) (at_ : Nat)
  | misplacedSuperblock (expected bytenr : Nat)
  | mirrorDisagreement (mirror at_ : Nat) (fault : String)
  | unreadable (error : Unreadable)
  | chunk (error : ChunkError)
  | read (error : ReadError)
deriving DecidableEq

/-- What a caller states about the image to be opened. -/
structure OpenOptions where
  base : Nat
  len : Option Nat
  policy : ReadPolicy
  maxWalkEntries : Nat
deriving DecidableEq

/-- The source, ending where the caller's region does. -/
def bounded (src : Bytes) (options : OpenOptions) : Bytes :=
  match options.len with
  | none => src
  | some len => src.take (min (options.base + len) (2 ^ 64 - 1))

/-- The copy of the superblock at one of its places, or what is there instead. A source of bytes
fails a read by ending and in no other way.
-/
def readMirror (src : Bytes) (base at_ : Nat) : Except Mirror Record := do
  let offset ← okOr (offsetOf base at_) .truncated
  let bytes ← (readExactAt src offset superInfoSize).mapError fun _ => .truncated
  let record ← (Record.parse bytes).mapError fun _ => .absent
  refuseIf (!checksumHolds bytes record.superblock.csumType) .damaged
  refuseIf (record.superblock.bytenr != at_) (.misplaced record.superblock.bytenr)
  return record

namespace Mirror

/-- A copy before it is held against the live one. -/
def ofFound : Except Mirror Record → Mirror
  | .error mirror => mirror
  | .ok record => .present record.superblock.generation

/-- There is no copy to ask. -/
def isMissing : Mirror → Bool
  | absent | outsideDevice | truncated => true
  | _ => false

/-- What a strict open has against this copy where the live one is of this generation. -/
def fault (generation : Nat) : Mirror → Option String
  | outsideDevice => none
  | present written =>
      if written = generation then none else some "a copy of the superblock is behind the live one"
  | truncated => some "the source is shorter than the device it describes"
  | absent => some "a copy of the superblock is missing"
  | damaged => some "a copy of the superblock fails its checksum"
  | misplaced _ => some "a copy of the superblock records another place as its own"
  | diverged _ =>
      some "a copy of the superblock at the live generation is not a copy of the live one"

end Mirror

/-- How a copy compares: by its generation, and of one generation the earlier place first. -/
def rank (candidate : Nat × Record) : Nat ×ₗ Natᵒᵈ :=
  toLex (candidate.2.superblock.generation, toDual candidate.1)

/-- The copies that verified, and which place each was at. -/
def candidates (found : List (Except Mirror Record)) : List (Nat × Record) :=
  found.zipIdx.filterMap fun entry => entry.1.toOption.map (Prod.mk entry.2)

/-- The live copy. -/
def choose (found : List (Except Mirror Record)) : Option Record :=
  ((candidates found).argmax rank).map (·.2)

/-- Why no copy is live. -/
def noneUsable (found : List (Except Mirror Record)) : OpenError :=
  match (found.map Mirror.ofFound).find? (!·.isMissing) with
  | some .damaged => .badChecksum "superblock" (mirrors.headD 0)
  | some (.misplaced bytenr) => .misplacedSuperblock (mirrors.headD 0) bytenr
  | _ => .notBtrfs

/-- What became of a copy, held against the live one and the device it describes. -/
def judge (live : Record) (at_ : Nat) (found : Except Mirror Record) : Mirror :=
  if !holdsMirror live.superblock.devItem.totalBytes at_ then .outsideDevice
  else
    match found with
    | .error mirror => mirror
    | .ok record =>
        let generation := record.superblock.generation
        if generation == live.superblock.generation && !sameRecord record.bytes live.bytes then
          .diverged generation
        else .present generation

/-- Refuse the first copy that is at fault, counting from `index`. -/
def refuseFaulty (generation : Nat) : (index : Nat) → List (Nat × Mirror) → Except OpenError Unit
  | _, [] => .ok ()
  | index, (at_, state) :: rest =>
      match state.fault generation with
      | some fault => .error (.mirrorDisagreement index at_ fault)
      | none => refuseFaulty generation (index + 1) rest

def checkMirrors (policy : ReadPolicy) (generation : Nat) (judged : List (Nat × Mirror))
    : Except OpenError Unit :=
  match policy with
  | .strict => refuseFaulty generation 0 judged
  | .lenient => .ok ()

/-- The superblock an image is opened through, and what was found at each of its places. -/
def liveSuperblock (build : Features) (src : Bytes) (base : Nat) (policy : ReadPolicy)
    : Except OpenError (Record × List Mirror) := do
  let found := mirrors.map (readMirror src base)
  let live ← okOr (choose found) (noneUsable found)
  (checkReadable build live.superblock).mapError .unreadable
  let judged := (mirrors.zip found).map fun entry => (entry.1, judge live entry.1 entry.2)
  checkMirrors policy live.superblock.generation judged
  return (live, judged.map (·.2))

/-- The chunks of a device, each on it. -/
structure DeviceMap (deviceBytes : Nat) where
  chunks : List MappedChunk
  sound : Sound deviceBytes chunks

namespace DeviceMap

variable {deviceBytes : Nat}

def map (self : DeviceMap deviceBytes) : ChunkMap := ⟨self.chunks, self.sound.apart⟩

def insert (self : DeviceMap deviceBytes) (devid : Nat) (announced : Announced)
    : Except ChunkError (DeviceMap deviceBytes) :=
  match (insertChunk devid deviceBytes self.chunks announced).1 with
  | .error error => .error error
  | .ok () =>
      .ok ⟨(insertChunk devid deviceBytes self.chunks announced).2,
        (insertChunk_spec self.sound announced).1⟩

/-- What a bootstrap array maps. -/
theorem fromBootstrap_sound {devid : Nat} {array : Bytes} {chunks : List MappedChunk}
    (loaded : Btrfs.fromBootstrap devid deviceBytes array = .ok chunks)
    : Sound deviceBytes chunks := by
  obtain ⟨-, calls, -, rfl⟩ := loadTurn_total (Nat.zero_le _) loaded
  exact (insertAll_spec sound_nil calls).1

def fromBootstrap (deviceBytes devid : Nat) (array : Bytes)
    : Except ChunkError (DeviceMap deviceBytes) :=
  match loaded : Btrfs.fromBootstrap devid deviceBytes array with
  | .error error => .error error
  | .ok chunks => .ok ⟨chunks, fromBootstrap_sound loaded⟩

end DeviceMap

/-- The chunk items met on the way through the chunk tree, and why one of them was refused. -/
structure Gathered where
  found : List Announced
  failure : Option ChunkError

/-- Take one item of the chunk tree, and say whether to go on. -/
def Gathered.take (self : Gathered) (key : DiskKey) (data : Bytes) : Gathered × Bool :=
  if key.kind ≠ ItemType.chunkItem then (self, true)
  else
    match Chunk.readFrom data with
    | .error error => ({ self with failure := some (.parse error) }, false)
    | .ok chunk =>
        if chunk.encodedLen ≤ data.length then
          ({ self with found := self.found ++ [⟨key, chunk, data.take chunk.encodedLen⟩] }, true)
        else
          ({ self with failure := some (.badChunk key.offset
              "a chunk item declares more stripes than the item holds") }, false)

/-- The map while the chunk tree's chunks are added to it, and where the two disagreed. -/
structure Mapping (deviceBytes : Nat) where
  map : DeviceMap deviceBytes
  conflicts : List Nat

/-- Add one chunk of the chunk tree. One already mapped is held against the mapping it has. -/
def Mapping.add {deviceBytes : Nat} (devid : Nat) (policy : ReadPolicy)
    (self : Mapping deviceBytes) (announced : Announced)
    : Except ChunkError (Mapping deviceBytes) :=
  let logical := announced.key.offset
  match (self.map.map.chunkAt logical).filter (·.logical == logical) with
  | some existing => do
      let repeated ← announced.mapped devid deviceBytes
      refuseIf (repeated != existing && policy == .strict) (.badChunk logical
        "the chunk tree maps this chunk differently from the superblock's bootstrap array")
      return if repeated == existing then self
        else { self with conflicts := self.conflicts ++ [logical] }
  | none => do
      return { self with map := ← self.map.insert devid announced }

/-- An image opened. -/
structure Opened where
  volume : Volume
  superblock : SuperBlock
  mirrors : List Mirror
  bootstrapConflicts : List Nat
  sourceBytes : Nat

def chunkTreeObjectid : Nat := 3

/-- The chunk tree, which the bootstrap array exists to make reachable. -/
def SuperBlock.chunkTree (self : SuperBlock) : TreeRoot where
  objectid := chunkTreeObjectid
  bytenr := self.chunkRoot
  level := self.chunkRootLevel
  generation := self.chunkRootGeneration

/-- The volume as it reads the chunk tree, through the chunks of the bootstrap array. -/
def bootVolume (src : Bytes) (options : OpenOptions) (sb : SuperBlock) (chunks : ChunkMap)
    : Volume where
  src
  base := options.base
  policy := options.policy
  maxWalkEntries := options.maxWalkEntries
  nodesize := sb.nodesize
  csumType := sb.csumType
  metadataId := sb.metadataId
  chunks

/-- Every chunk the chunk tree names. -/
def Volume.chunkItems (self : Volume) (sb : SuperBlock) : Except OpenError (List Announced) := do
  let gathered ← (self.forEachItem sb.chunkTree Gathered.take ⟨[], none⟩).mapError .read
  gathered.failure.elim (.ok gathered.found) (.error ∘ .chunk)

/-- Read the address space of an image whose superblock is chosen. -/
def mount (src : Bytes) (options : OpenOptions) (sb : SuperBlock) (found : List Mirror)
    : Except OpenError Opened := do
  let array ← okOr sb.sysChunkBytes (.chunk (.badBootstrap 0
    "the recorded length of the bootstrap array is longer than the array"))
  let bootstrap ← (DeviceMap.fromBootstrap sb.devItem.totalBytes sb.devItem.devid array).mapError
    .chunk
  let volume := bootVolume src options sb bootstrap.map
  let announced ← volume.chunkItems sb
  let mapping ← (announced.foldlM (Mapping.add sb.devItem.devid options.policy)
    ⟨bootstrap, []⟩).mapError .chunk
  return {
    volume := { volume with chunks := mapping.map.map }
    superblock := sb
    mirrors := found
    bootstrapConflicts := mapping.conflicts
    sourceBytes := src.length - options.base
  }

/-- Open the filesystem `options.base` bytes into a source. -/
def openWith (build : Features) (src : Bytes) (options : OpenOptions)
    : Except OpenError Opened := do
  let live ← liveSuperblock build (bounded src options) options.base options.policy
  mount (bounded src options) options live.1.superblock live.2

end Ferrosys.Btrfs
