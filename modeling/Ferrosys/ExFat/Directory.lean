import Ferrosys.ExFat.Dirent
import Ferrosys.ExFat.Read
import Ferrosys.Library.Chunks
import Ferrosys.Library.Utf
import Ferrosys.Resolve

/-! Reading an exFAT directory: the slots of its storage in order, the set of entries being
assembled from them, and the entry a complete set describes.
-/

namespace Ferrosys.ExFat

open Arith Checked Chunks Splice

/-- A directory carries an entry the format does not define as it stands. -/
inductive Deviation where
  | setChecksumMismatch (index computed stored : Nat)
  | incompleteEntrySet (index : Nat) (detail : String)
  | straySecondaryEntry (index : Nat)
  | unknownCriticalEntry (index : Nat) (entryType : EntryType)
  | illFormedName (index : Nat)
  | nameHashMismatch (index computed stored : Nat)
  | reservedCharacter (index code : Nat)
  | hostileName (index : Nat)
  | excessNameEntries (want have_ index : Nat)
  | entriesAfterEnd (index : Nat)
  | misplacedRootEntry (index : Nat) (entryType : String)
  | volumeGuidWithSecondaries (index count : Nat)
  | reservedAttributes (index bits : Nat)
  | malformedTimestamp (index : Nat) (field : String)
  | streamWithoutAllocation (index declared : Nat)
  | allocationWithoutLength (index firstCluster : Nat)
  | directoryWithoutAllocation (index : Nat)
  | allocationNotPossible (index : Nat)
  | noFatChainWithoutAllocation (index : Nat)
  | directoryValidLength (index valid declared : Nat)
  | validLengthPastEnd (valid declared : Nat)
  | validLengthTrails (valid declared : Nat)
  | streamPastHeap (declared limit : Nat)
  | directoryTooLong (index declared limit : Nat)
  | directoryLengthNotClusters (index declared bytesPerCluster : Nat)
deriving DecidableEq

def Deviation.severity : Deviation → Severity
  | setChecksumMismatch .. | nameHashMismatch .. => .integrity
  | hostileName .. | incompleteEntrySet .. | straySecondaryEntry .. | directoryWithoutAllocation ..
  | streamWithoutAllocation .. | directoryTooLong .. | validLengthPastEnd .. | streamPastHeap .. =>
      .structural
  | validLengthTrails .. => .cosmetic
  | _ => .conformance

inductive DirectoryError where
  | read (error : ReadError)
  | parse (error : ParseError)
  | notADirectory
  | deviation (error : Deviation)
deriving DecidableEq

/-- Where on the volume a deviation was met. -/
structure Location where
  sector : Option Nat
  cluster : Option Nat
  entry : Option Nat
deriving DecidableEq

def Location.atEntry (index : Nat) : Location := ⟨none, none, some index⟩

/-- The allocation an entry that is not interpreted describes. -/
structure BenignAllocation where
  index : Nat
  storage : Storage
  bytes : Nat
deriving DecidableEq

/-- What a directory parse does with a deviation it meets: what the policy says, or keep it, with
the allocations of the entries that are not interpreted.
-/
inductive OnDeviation where
  | policy (policy : ReadPolicy)
  | collect (findings : List (Location × Deviation)) (allocations : List BenignAllocation)
deriving DecidableEq

namespace OnDeviation

/-- Record a deviation: an error where the policy makes it fatal. -/
def record (self : OnDeviation) (at_ : Location) (error : Deviation)
    : Except DirectoryError OnDeviation :=
  match self with
  | policy policy_ =>
      if policy_.isFatal error.severity then .error (.deviation error) else .ok (.policy policy_)
  | collect findings allocations => .ok (.collect (findings ++ [(at_, error)]) allocations)

/-- Record a deviation where there is one. -/
def recordIf (self : OnDeviation) (bad : Bool) (at_ : Location) (error : Deviation)
    : Except DirectoryError OnDeviation :=
  if bad then self.record at_ error else .ok self

/-- Keep an allocation. An ordinary read keeps none. -/
def claim (self : OnDeviation) (allocation : BenignAllocation) : OnDeviation :=
  match self with
  | policy policy_ => .policy policy_
  | collect findings allocations => .collect findings (allocations ++ [allocation])

end OnDeviation

/-- The allocation an entry in the generic template describes, where its flags say it may address
clusters.
-/
def genericAllocation (slot : Bytes) (primary : Bool) : Option (Storage × Nat) :=
  let flags := if primary then getU16 slot 4 % 2 ^ 8 else getU8 slot 1
  let first := getU32 slot 20
  let bytes := getU64 slot 24
  if !flags.testBit secondaryAllocationPossible then none
  else if first = 0 ∨ bytes = 0 then none
  else
    some (if flags.testBit secondaryNoFatChain then .contiguous first else .chain first, bytes)

/-- Keep the allocation a slot describes, where it describes one. -/
def claimGeneric (deviations : OnDeviation) (index : Nat) (slot : Bytes) (primary : Bool)
    : OnDeviation :=
  match genericAllocation slot primary with
  | some (storage, bytes) => deviations.claim ⟨index, storage, bytes⟩
  | none => deviations

/-- One slot of a directory, as it sits on disk. -/
structure Slot where
  bytes : Bytes
  index : Nat
  cluster : Nat
  sector : Nat
  size : bytes.length = dirEntrySize
deriving DecidableEq

namespace Slot

variable (self : Slot)

def entryType : EntryType := ExFat.entryType self.bytes

def location : Location := ⟨some self.sector, some self.cluster, some self.index⟩

/-- The slot holds an entry in use that continues the set before it. -/
def continues : Bool := self.entryType.inUse && self.entryType.isSecondary

/-- Entries the slot's primary entry says follow it. -/
def secondaryCount : Nat := getU8 self.bytes 1

end Slot

/-- A set of entries being assembled, slot by slot. -/
structure PendingSet where
  index : Nat
  want : Nat
  bytes : Bytes
  benign : Bool
deriving DecidableEq

namespace PendingSet

/-- A set opened by a primary entry, expecting `secondary` entries behind it. -/
def new (index secondary : Nat) (primary : Bytes) (benign : Bool) : PendingSet :=
  ⟨index, secondary, primary, benign⟩

variable (self : PendingSet)

/-- Take one more entry. -/
def push (entry : Bytes) : PendingSet := { self with bytes := self.bytes ++ entry }

/-- Entries taken so far, the primary one excepted. -/
def taken : Nat := self.bytes.length / dirEntrySize - 1

def isComplete : Bool := self.taken ≥ self.want

end PendingSet

/-- A volume's up-case table: the units it folds to another one. -/
structure UpcaseTable where
  mapped : List (UInt16 × UInt16)

def UpcaseTable.foldUnit (self : UpcaseTable) (unit : UInt16) : UInt16 :=
  (self.mapped.lookup unit).getD unit

def UpcaseTable.fold (self : UpcaseTable) (name : List UInt16) : List UInt16 :=
  name.map self.foldUnit

/-- A volume's reader with the table it folds names through. -/
structure VolumeReader extends Reader where
  upcase : UpcaseTable

/-- A node with the times its entry records. The root has no entry, and none. -/
structure TimedNode extends Node where
  times : Option Times
deriving DecidableEq

/-- A name in a directory. -/
structure Entry where
  name : Bytes
  node : TimedNode
deriving DecidableEq

def maxDirectoryBytes : Nat := 256 * 2 ^ 20

/-- The bytes of the whole cluster heap. -/
def Layout.heapBytes (self : Layout) : Nat := self.clusterCount * self.bytesPerCluster

def reservedNameChars : List Nat := [0x22, 0x2A, 0x2F, 0x3A, 0x3C, 0x3E, 0x3F, 0x5C, 0x7C]

def isReservedNameChar (ch : Char) : Bool := reservedNameChars.contains ch.toNat || ch.toNat < 0x20

/-- Units as UTF-8, with a replacement character where one stands for none, and whether they were
well formed.
-/
def decodeName (units : List UInt16) : Bytes × Bool :=
  let chars := Utf.decodeUtf16 units
  (Utf.encodeUtf8 (chars.map (·.getD '\uFFFD')), chars.all (·.isSome))

namespace VolumeReader

variable (self : VolumeReader)

/-- A length held to every bound the format puts on one, each that it passes reported. -/
def boundLength (declared : Nat) (isDir : Bool) (index : Nat) (deviations : OnDeviation)
    : Except DirectoryError (Nat × OnDeviation) := do
  let at_ := Location.atEntry index
  let heap := self.layout.heapBytes
  let deviations ← deviations.recordIf (declared > heap) at_ (.streamPastHeap declared heap)
  let declared := if declared > heap then heap else declared
  if isDir then
    let deviations ← deviations.recordIf (declared > maxDirectoryBytes) at_
      (.directoryTooLong index declared maxDirectoryBytes)
    let declared := if declared > maxDirectoryBytes then maxDirectoryBytes else declared
    let bytesPerCluster := self.layout.bytesPerCluster
    let deviations ← deviations.recordIf (declared % bytesPerCluster ≠ 0) at_
      (.directoryLengthNotClusters index declared bytesPerCluster)
    return (declared, deviations)
  else return (declared, deviations)

/-- Judge one time a file entry records. -/
def checkTime (deviations : OnDeviation) (index : Nat) (field : String) (packed tenth : Nat)
    : Except DirectoryError OnDeviation :=
  deviations.recordIf (!(unpackTimestamp packed tenth).isWellFormed) (.atEntry index)
    (.malformedTimestamp index field)

/-- Judge the three times a file entry records. The access time has no hundredths. -/
def checkTimes (file : FileEntry) (index : Nat) (deviations : OnDeviation)
    : Except DirectoryError OnDeviation := do
  let deviations ← checkTime deviations index "creation time" file.create file.createTenth
  let deviations ← checkTime deviations index "modification time" file.modify file.modifyTenth
  checkTime deviations index "access time" file.access 0

/-- The stream owns nothing. -/
def unallocated (stream : StreamExtensionEntry) : Bool :=
  stream.firstCluster == 0 || stream.dataLength == 0

/-- Where a stream's bytes are. -/
def storageOf (stream : StreamExtensionEntry) : Storage :=
  if unallocated stream then .none
  else if stream.noFatChain then .contiguous stream.firstCluster
  else .chain stream.firstCluster

/-- Judge what a stream addresses, and its flags. -/
def checkAllocation (stream : StreamExtensionEntry) (isDir : Bool) (index : Nat)
    (deviations : OnDeviation) : Except DirectoryError OnDeviation := do
  let at_ := Location.atEntry index
  let deviations ← deviations.recordIf (stream.firstCluster == 0 && stream.dataLength != 0) at_
    (.streamWithoutAllocation index stream.dataLength)
  let deviations ← deviations.recordIf (stream.firstCluster != 0 && stream.dataLength == 0) at_
    (.allocationWithoutLength index stream.firstCluster)
  let deviations ← deviations.recordIf (unallocated stream && isDir) at_
    (.directoryWithoutAllocation index)
  let deviations ← deviations.recordIf (!stream.flags.testBit secondaryAllocationPossible) at_
    (.allocationNotPossible index)
  deviations.recordIf (unallocated stream && stream.noFatChain) at_
    (.noFatChainWithoutAllocation index)

/-- The written length held to the declared one, which a directory's is. -/
def validLength (valid declared : Nat) (isDir : Bool) (index : Nat) (deviations : OnDeviation)
    : Except DirectoryError (Nat × OnDeviation) :=
  let at_ := Location.atEntry index
  if isDir && valid != declared then do
    let deviations ← deviations.record at_ (.directoryValidLength index valid declared)
    return (declared, deviations)
  else if valid > declared then do
    let deviations ← deviations.record at_ (.validLengthPastEnd valid declared)
    return (declared, deviations)
  else do
    let deviations ← deviations.recordIf (valid < declared) at_ (.validLengthTrails valid declared)
    return (valid, deviations)

/-- The node a file entry and its stream extension describe, its lengths held to their bounds. -/
def nodeOf (file : FileEntry) (stream : StreamExtensionEntry) (index : Nat)
    (deviations : OnDeviation) : Except DirectoryError (TimedNode × OnDeviation) := do
  let at_ := Location.atEntry index
  let isDir := file.attributes &&& directoryAttribute == directoryAttribute
  let reserved := ExFat.reservedAttributes file.attributes
  let deviations ← deviations.recordIf (reserved != 0) at_ (.reservedAttributes index reserved)
  let deviations ← checkTimes file index deviations
  let deviations ← checkAllocation stream isDir index deviations
  let (declared, deviations) ← self.boundLength stream.dataLength isDir index deviations
  let (valid, deviations) ← validLength stream.validDataLength declared isDir index deviations
  -- A bounded length is no longer than the recorded one, which has 64 bits.
  return ({
    storage := storageOf stream
    attributes := file.attributes
    dataLength := Fin.ofNat (2 ^ 64) declared
    validDataLength := valid
    times := some (timesOf file)
  }, deviations)

/-- The units of the name entries of a set, in order. A benign entry among them is stepped over. -/
def gatherNames (index : Nat)
    : List Bytes → List UInt16 → OnDeviation → Except DirectoryError (List UInt16 × OnDeviation)
  | [], units, deviations => .ok (units, deviations)
  | slot :: rest, units, deviations =>
      if entryType slot = .fileName then do
        let more ← (FileNameEntry.readFrom slot).mapError .parse
        gatherNames index rest (units ++ more) deviations
      else if !(entryType slot).isBenign then do
        let deviations ← deviations.record (.atEntry index)
          (.unknownCriticalEntry index (entryType slot))
        gatherNames index rest units deviations
      else gatherNames index rest units (claimGeneric deviations index slot false)

/-- The entry of a set whose name is spelled by `units`, where it is a name an entry can have. -/
def finishName (file : FileEntry) (stream : StreamExtensionEntry) (index : Nat)
    (units : List UInt16) (deviations : OnDeviation)
    : Except DirectoryError (Option Entry × OnDeviation) := do
  let at_ := Location.atEntry index
  let computed := (nameHash (self.upcase.fold units)).toNat
  let deviations ← deviations.recordIf (computed != stream.nameHash) at_
    (.nameHashMismatch index computed stream.nameHash)
  let name := (decodeName units).1
  let deviations ← deviations.recordIf (!(decodeName units).2) at_ (.illFormedName index)
  if isHostileComponent name then do
    let deviations ← deviations.record at_ (.hostileName index)
    return (none, deviations)
  else
    let reserved := (Utf.lossy name).find? isReservedNameChar
    let deviations ← deviations.recordIf reserved.isSome at_
      (.reservedCharacter index ((reserved.map Char.toNat).getD 0))
    let (node, deviations) ← self.nodeOf file stream index deviations
    return (some ⟨name, node⟩, deviations)

/-- The entry of a set whose stream extension has been read. -/
def finishStream (file : FileEntry) (stream : StreamExtensionEntry) (index : Nat)
    (behind : List Bytes) (deviations : OnDeviation)
    : Except DirectoryError (Option Entry × OnDeviation) := do
  let at_ := Location.atEntry index
  let (units, deviations) ← gatherNames index behind [] deviations
  let want := stream.nameLength
  if units.length < want then do
    let deviations ← deviations.record at_ (.incompleteEntrySet index
      s!"its name is {want} code units and its entries carry {units.length}")
    return (none, deviations)
  else
    let carried := units.length / nameUnitsPerEntry
    let needed := divCeil want nameUnitsPerEntry
    let deviations ← deviations.recordIf (carried > needed) at_
      (.excessNameEntries needed carried index)
    self.finishName file stream index (units.take want) deviations

/-- The name a complete set describes, or none where a deviation leaves no name to hand back. -/
def finishSet (set : PendingSet) (deviations : OnDeviation)
    : Except DirectoryError (Option Entry × OnDeviation) := do
  let at_ := Location.atEntry set.index
  let index := set.index
  let computed := (entrySetChecksum set.bytes).toNat
  let file ← (FileEntry.readFrom set.bytes).mapError .parse
  let deviations ← deviations.recordIf (computed != file.setChecksum) at_
    (.setChecksumMismatch index computed file.setChecksum)
  if set.bytes.length < 2 * dirEntrySize then do
    let deviations ← deviations.record at_
      (.incompleteEntrySet index "it holds no stream extension")
    return (none, deviations)
  else
    match StreamExtensionEntry.readFrom (slice set.bytes dirEntrySize dirEntrySize) with
    | .error _ => do
        let deviations ← deviations.record at_
          (.incompleteEntrySet index "its first secondary entry is not a stream extension")
        return (none, deviations)
    | .ok stream =>
        self.finishStream file stream index
          (chunks dirEntrySize (set.bytes.drop (2 * dirEntrySize))) deviations

/-- Read a complete set headed by a benign primary entry that is not interpreted: its sum is held
to its bytes, and what its benign entries allocate is kept.
-/
def finishBenignSet (set : PendingSet) (deviations : OnDeviation)
    : Except DirectoryError OnDeviation := do
  let index := set.index
  let stored := getU16 set.bytes 2
  let computed := (entrySetChecksum set.bytes).toNat
  let deviations ← deviations.recordIf (computed != stored) (.atEntry index)
    (.setChecksumMismatch index computed stored)
  let deviations := claimGeneric deviations index (set.bytes.take dirEntrySize) true
  return (chunks dirEntrySize (set.bytes.drop dirEntrySize)).foldl
    (fun deviations slot =>
      if (entryType slot).isBenign then claimGeneric deviations index slot false else deviations)
    deviations

end VolumeReader

/-- Whether a walk goes on. -/
inductive ControlFlow where
  | continue_
  | break_
deriving DecidableEq

/-- How far the parse of a directory has come: the set in flight, the cluster the end marker sat
in, and what the one who reads the directory has made of its entries.
-/
structure Parse (σ : Type) where
  set : Option PendingSet
  ended : Option Nat
  reportedAfterEnd : Bool
  deviations : OnDeviation
  state : σ

namespace VolumeReader

variable (self : VolumeReader) {σ : Type}

/-- A slot behind the end marker: nothing there is handed back, and the walk stops at the end of
the marker's cluster.
-/
def visitAfterEnd (parse : Parse σ) (marker : Nat) (slot : Slot)
    : Except DirectoryError (ControlFlow × Parse σ) :=
  if slot.cluster ≠ marker then .ok (.break_, parse)
  else if !slot.entryType.isEndOfDirectory && !parse.reportedAfterEnd then do
    let deviations ← parse.deviations.record slot.location (.entriesAfterEnd slot.index)
    return (.continue_, { parse with deviations, reportedAfterEnd := true })
  else .ok (.continue_, parse)

/-- A file entry opens a set, unless it declares no entries behind it. -/
def openFile (parse : Parse σ) (slot : Slot) : Except DirectoryError (Parse σ) := do
  let file ← (FileEntry.readFrom slot.bytes).mapError .parse
  if file.secondaryCount = 0 then do
    let deviations ← parse.deviations.record slot.location (.incompleteEntrySet slot.index
      "it declares no entries behind it, and a file needs a stream extension and a name")
    return { parse with deviations }
  else
    return { parse with set := some (.new slot.index file.secondaryCount slot.bytes false) }

/-- What an entry only the root directory has is called. -/
def rootEntryName (type : EntryType) : String :=
  if type = .allocationBitmap then "allocation bitmap"
  else if type = .upcaseTable then "up-case table"
  else "volume label"

/-- A benign primary entry heads a set as every primary does. -/
def openBenign (isRoot : Bool) (parse : Parse σ) (slot : Slot)
    : Except DirectoryError (Parse σ) := do
  let at_ := slot.location
  let count := slot.secondaryCount
  let guid := slot.entryType == .volumeGuid
  let deviations ← parse.deviations.recordIf (guid && !isRoot) at_
    (.misplacedRootEntry slot.index "volume GUID")
  let deviations ← deviations.recordIf (guid && count != 0) at_
    (.volumeGuidWithSecondaries slot.index count)
  let pending := PendingSet.new slot.index count slot.bytes true
  if pending.isComplete then do
    let deviations ← finishBenignSet pending deviations
    return { parse with deviations }
  else return { parse with deviations, set := some pending }

/-- A slot outside a set, read as whatever it is. -/
def readSlot (isRoot : Bool) (parse : Parse σ) (slot : Slot)
    : Except DirectoryError (Parse σ) :=
  let type := slot.entryType
  if type.isEndOfDirectory then .ok { parse with ended := some slot.cluster }
  -- A slot that is not in use is skipped, and is no end.
  else if !type.inUse then .ok parse
  else if type.isSecondary then do
    let deviations ← parse.deviations.record slot.location (.straySecondaryEntry slot.index)
    return { parse with deviations }
  else if type = .file then openFile parse slot
  else if type = .allocationBitmap ∨ type = .upcaseTable ∨ type = .volumeLabel then do
    let deviations ← parse.deviations.recordIf (!isRoot) slot.location
      (.misplacedRootEntry slot.index (rootEntryName type))
    return { parse with deviations }
  else if type.isBenign then openBenign isRoot parse slot
  else do
    let deviations ← parse.deviations.record slot.location
      (.unknownCriticalEntry slot.index type)
    return { parse with deviations }

/-- Hand an entry to the one who reads the directory. -/
def handTo (each : σ → Entry → Nat → Except DirectoryError (ControlFlow × σ)) (parse : Parse σ)
    (entry : Entry) (index : Nat) : Except DirectoryError (ControlFlow × Parse σ) := do
  let (flow, state) ← each parse.state entry index
  return (flow, { parse with state })

/-- A slot that continues the set in flight, which it may complete. -/
def continueSet (each : σ → Entry → Nat → Except DirectoryError (ControlFlow × σ))
    (parse : Parse σ) (pending : PendingSet) (slot : Slot)
    : Except DirectoryError (ControlFlow × Parse σ) := do
  let pending := pending.push slot.bytes
  if pending.isComplete then
    if pending.benign then do
      let deviations ← finishBenignSet pending parse.deviations
      return (.continue_, { parse with deviations, set := none })
    else do
      let (found, deviations) ← self.finishSet pending parse.deviations
      match found with
      | some entry => handTo each { parse with deviations, set := none } entry pending.index
      | none => return (.continue_, { parse with deviations, set := none })
  else return (.continue_, { parse with set := some pending })

/-- One slot of a directory. What does not continue the set in flight ends it short, and is then
read as itself.
-/
def visit (isRoot : Bool) (each : σ → Entry → Nat → Except DirectoryError (ControlFlow × σ))
    (parse : Parse σ) (slot : Slot) : Except DirectoryError (ControlFlow × Parse σ) :=
  match parse.ended with
  | some marker => visitAfterEnd parse marker slot
  | none =>
      match parse.set with
      | none => do
          let parse ← readSlot isRoot parse slot
          return (.continue_, parse)
      | some pending =>
          if slot.continues then self.continueSet each parse pending slot
          else do
            let deviations ← parse.deviations.record (.atEntry pending.index)
              (.incompleteEntrySet pending.index
                s!"it declares {pending.want} entries behind it and {pending.taken} follow")
            let parse ← readSlot isRoot { parse with deviations, set := none } slot
            return (.continue_, parse)

end VolumeReader

section

variable {σ α ε : Type} {visit : σ → α → Except ε (ControlFlow × σ)} {state after : σ} {first : α}
  {rest : List α}

/-- Visit each in order, as long as the walk goes on. -/
def visitAll (visit : σ → α → Except ε (ControlFlow × σ))
    : σ → List α → Except ε (ControlFlow × σ)
  | state, [] => .ok (.continue_, state)
  | state, first :: rest => do
      let (flow, state) ← visit state first
      match flow with
      | .break_ => return (.break_, state)
      | .continue_ => visitAll visit state rest

theorem visitAll_of_error {error : ε} (visited : visit state first = .error error)
    : visitAll visit state (first :: rest) = .error error := by
  rw [visitAll, visited]
  rfl

theorem visitAll_of_break (visited : visit state first = .ok (.break_, after))
    : visitAll visit state (first :: rest) = .ok (.break_, after) := by
  rw [visitAll, visited]
  rfl

theorem visitAll_of_continue (visited : visit state first = .ok (.continue_, after))
    : visitAll visit state (first :: rest) = visitAll visit after rest := by
  rw [visitAll, visited]
  rfl

/-- A walk over two parts goes through the first and on into the second, by induction on the first.
-/
theorem visitAll_append_of_continue {front back : List α}
    (through : visitAll visit state front = .ok (.continue_, after))
    : visitAll visit state (front ++ back) = visitAll visit after back := by
  induction front generalizing state with
  | nil =>
      obtain ⟨-, rfl⟩ := Prod.mk.inj (Except.ok.inj through)
      rfl
  | cons first rest ih =>
      rw [List.cons_append]
      cases visited : visit state first with
      | error error => rw [visitAll_of_error visited] at through; cases through
      | ok answer =>
          obtain ⟨flow, middle⟩ := answer
          cases flow with
          | break_ => rw [visitAll_of_break visited] at through; cases through
          | continue_ =>
              rw [visitAll_of_continue visited] at through ⊢
              exact ih through

/-- A walk that does not go through the first of two parts never comes to the second. -/
theorem visitAll_append_of_stop {front back : List α}
    (stops : ∀ after, visitAll visit state front ≠ .ok (.continue_, after))
    : visitAll visit state (front ++ back) = visitAll visit state front := by
  induction front generalizing state with
  | nil => exact absurd rfl (stops state)
  | cons first rest ih =>
      rw [List.cons_append]
      cases visited : visit state first with
      | error error => rw [visitAll_of_error visited, visitAll_of_error visited]
      | ok answer =>
          obtain ⟨flow, middle⟩ := answer
          cases flow with
          | break_ => rw [visitAll_of_break visited, visitAll_of_break visited]
          | continue_ =>
              rw [visitAll_of_continue visited] at stops
              rw [visitAll_of_continue visited, visitAll_of_continue visited]
              exact ih stops

end

namespace Reader

variable (self : Reader) {σ ε : Type}

/-- The slots of a cluster's pieces, of which only a last one can be no whole slot. -/
def slotsFrom (index cluster firstSector : Nat) : (i : Nat) → List Bytes → List Slot
  | _, [] => []
  | i, piece :: rest =>
      let more := slotsFrom index cluster firstSector (i + 1) rest
      let slotsPerSector := max (self.layout.bytesPerSector / dirEntrySize) 1
      if size : piece.length = dirEntrySize then
        -- The index is counted in 32 bits, and stays at the last.
        ⟨piece, min (index + i) (2 ^ 32 - 1), cluster, firstSector + i / slotsPerSector, size⟩
          :: more
      else more

/-- The slots of a cluster, the first of them the directory's slot `index`. -/
def clusterSlots (cluster index : Nat) : Except ReadError (List Slot) := do
  let firstSector ← okOr (self.layout.clusterStartSector cluster) (.clusterOutOfRange cluster)
  let bytes ← self.readCluster cluster
  return self.slotsFrom index cluster firstSector 0 (chunks dirEntrySize bytes)

/-- The cluster behind one of a directory's, which is `at_` clusters on from the first, and the
clusters visited. A chain that comes to one of those again is refused.
-/
def clusterBehind (held : Held) (node : Node) (visited : List Nat) (cluster at_ : Nat)
    : Except ReadError (Option Nat × Held × List Nat) :=
  match node.storage with
  | .contiguous _ | .none =>
      match self.streamCluster held node.storage at_ with
      | .error error => .error error
      | .ok (next, held) => .ok (next, held, visited)
  | .chain start =>
      match self.nextCluster held cluster with
      | .error error => .error error
      | .ok (none, held) => .ok (none, held, visited)
      | .ok (some following, held) =>
          if visited.contains following then .error (.chainTooLong start self.layout.clusterCount)
          else .ok (some following, held, following :: visited)

/-- Visit the slots of the `left` clusters a directory's length still covers. -/
def eachCluster (lift : ReadError → ε) (visit : σ → Slot → Except ε (ControlFlow × σ))
    (node : Node) (start clusters : Nat)
    : (left : Nat) → (held : Held) → (visited : List Nat) → (current : Option Nat) → (index : Nat)
      → σ → Except ε σ
  | 0, _, _, _, _, state => .ok state
  | left + 1, held, visited, current, index, state =>
      match current with
      | none =>
          .error (lift (.streamTooShort start node.dataLength
            ((clusters - (left + 1)) * self.layout.bytesPerCluster)))
      | some cluster =>
          match self.clusterSlots cluster index with
          | .error error => .error (lift error)
          | .ok slots =>
              match visitAll visit state slots with
              | .error error => .error error
              | .ok (.break_, state) => .ok state
              | .ok (.continue_, state) =>
                  -- The cluster past the last is not asked for.
                  if left = 0 then .ok state
                  else
                    match self.clusterBehind held node visited cluster (clusters - left) with
                    | .error error => .error (lift error)
                    | .ok (next, held, visited) =>
                        eachCluster lift visit node start clusters left held visited next
                          (min (index + slots.length) (2 ^ 32 - 1)) state

/-- Visit every slot of a directory's storage, in order. -/
def forEachSlot (lift : ReadError → ε) (held : Held) (node : Node)
    (visit : σ → Slot → Except ε (ControlFlow × σ)) (state : σ) : Except ε σ :=
  match node.storage.firstCluster with
  | none => .ok state
  | some start =>
      let clusters := divCeil node.dataLength (max self.layout.bytesPerCluster 1)
      self.eachCluster lift visit node start clusters clusters held [start] (some start) 0 state

/-- Keep a slot. -/
def keepSlot (kept : List Slot) (slot : Slot) : Except ReadError (ControlFlow × List Slot) :=
  .ok (.continue_, kept ++ [slot])

/-- The slots of a directory's storage, in order, where all of it can be read. -/
def slotsOf (held : Held) (node : Node) : Except ReadError (List Slot) :=
  self.forEachSlot id held node keepSlot []

theorem visitAll_keepSlot (kept slots : List Slot)
    : visitAll keepSlot kept slots = .ok (.continue_, kept ++ slots) := by
  induction slots generalizing kept with
  | nil => rw [List.append_nil]; rfl
  | cons slot rest ih =>
      rw [visitAll_of_continue rfl, ih, List.append_assoc]
      rfl

/-- Clusters whose slots can all be kept are walked as those slots are, by induction on the clusters.
-/
theorem eachCluster_of_kept {node : Node} {start clusters left index : Nat} {held : Held}
    {visited : List Nat} {current : Option Nat} {kept slots : List Slot}
    (read : self.eachCluster id keepSlot node start clusters left held visited current index kept
      = .ok slots)
    : ∃ more, slots = kept ++ more ∧ ∀ (lift : ReadError → ε)
        (visit : σ → Slot → Except ε (ControlFlow × σ)) (state : σ),
        self.eachCluster lift visit node start clusters left held visited current index state
          = (visitAll visit state more).map Prod.snd := by
  induction left generalizing held visited current index kept with
  | zero =>
      obtain rfl := Except.ok.inj read
      exact ⟨[], (List.append_nil _).symm, fun _ _ _ => rfl⟩
  | succ left ih =>
      cases current with
      | none => cases read
      | some cluster =>
          rw [eachCluster] at read
          cases here : self.clusterSlots cluster index with
          | error error => rw [here] at read; cases read
          | ok found =>
              rw [here] at read
              dsimp only at read
              rw [visitAll_keepSlot] at read
              dsimp only at read
              split at read
              case isTrue last =>
                refine ⟨found, (Except.ok.inj read).symm, fun lift visit state => ?_⟩
                rw [eachCluster, here]
                dsimp only
                cases visitAll visit state found with
                | error error => rfl
                | ok answer =>
                    obtain ⟨flow, after⟩ := answer
                    cases flow with
                    | break_ => rfl
                    | continue_ => exact if_pos last
              case isFalse further =>
                cases behind : self.clusterBehind held node visited cluster (clusters - left) with
                | error error => rw [behind] at read; cases read
                | ok answer =>
                    obtain ⟨next, held', visited'⟩ := answer
                    rw [behind] at read
                    obtain ⟨more, rfl, walked⟩ := ih read
                    refine ⟨found ++ more, List.append_assoc .., fun lift visit state => ?_⟩
                    rw [eachCluster, here]
                    dsimp only
                    cases through : visitAll visit state found with
                    | error error =>
                        rw [visitAll_append_of_stop (fun _ same => by rw [through] at same; cases same), through]
                        rfl
                    | ok answer =>
                        obtain ⟨flow, after⟩ := answer
                        cases flow with
                        | break_ =>
                            rw [visitAll_append_of_stop (fun _ same => by rw [through] at same; cases same), through]
                            rfl
                        | continue_ =>
                            rw [visitAll_append_of_continue through]
                            dsimp only
                            rw [if_neg further, behind]
                            exact walked lift visit after

/-- A directory whose slots can all be read is walked as they are. -/
theorem forEachSlot_of_read {held : Held} {node : Node} {slots : List Slot}
    (read : self.slotsOf held node = .ok slots) (lift : ReadError → ε)
    (visit : σ → Slot → Except ε (ControlFlow × σ)) (state : σ)
    : self.forEachSlot lift held node visit state = (visitAll visit state slots).map Prod.snd := by
  unfold slotsOf forEachSlot at read
  unfold forEachSlot
  cases first : node.storage.firstCluster with
  | none =>
      rw [first] at read
      obtain rfl := Except.ok.inj read
      rfl
  | some start =>
      rw [first] at read
      obtain ⟨more, rfl, walked⟩ := self.eachCluster_of_kept read
      exact walked lift visit state

end Reader

namespace VolumeReader

variable (self : VolumeReader) {σ : Type}

/-- A set the directory ends within was never completed. -/
def parseEnd (parse : Parse σ) : Except DirectoryError (σ × OnDeviation) :=
  match parse.set with
  | none => .ok (parse.state, parse.deviations)
  | some unfinished => do
      let deviations ← parse.deviations.record (.atEntry unfinished.index)
        (.incompleteEntrySet unfinished.index
          (s!"it declares {unfinished.want} entries behind it and the directory ends after "
            ++ s!"{unfinished.taken}"))
      return (parse.state, deviations)

/-- The parse of a directory whose slots are given in order. -/
def parseSlots (isRoot : Bool) (deviations : OnDeviation)
    (each : σ → Entry → Nat → Except DirectoryError (ControlFlow × σ)) (state : σ)
    (slots : List Slot) : Except DirectoryError (σ × OnDeviation) := do
  let (_, parse) ← visitAll (self.visit isRoot each) ⟨none, none, false, deviations, state⟩ slots
  parseEnd parse

/-- Parse a directory: each entry is handed over as its set is completed. -/
def parseEntries (held : Held) (node : TimedNode) (deviations : OnDeviation)
    (each : σ → Entry → Nat → Except DirectoryError (ControlFlow × σ)) (state : σ)
    : Except DirectoryError (σ × OnDeviation) :=
  if !node.isDir then .error .notADirectory
  else do
    -- The root is the one directory no entry records.
    let isRoot := node.times.isNone
    let parse ← self.forEachSlot .read held node.toNode (self.visit isRoot each)
      ⟨none, none, false, deviations, state⟩
    parseEnd parse

/-- A directory whose slots can all be read is parsed as they are. -/
theorem parseEntries_of_read {held : Held} {node : TimedNode} {slots : List Slot}
    (dir : node.isDir = true) (read : self.slotsOf held node.toNode = .ok slots)
    (deviations : OnDeviation)
    (each : σ → Entry → Nat → Except DirectoryError (ControlFlow × σ)) (state : σ)
    : self.parseEntries held node deviations each state
      = self.parseSlots node.times.isNone deviations each state slots := by
  rw [parseEntries, dir, Bool.not_true, if_neg Bool.false_ne_true]
  dsimp only
  rw [self.forEachSlot_of_read read]
  unfold parseSlots
  cases visitAll (self.visit node.times.isNone each) ⟨none, none, false, deviations, state⟩ slots with
  | error error => rfl
  | ok answer => rfl

end VolumeReader

end Ferrosys.ExFat
