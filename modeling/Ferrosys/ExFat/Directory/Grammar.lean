import Ferrosys.ExFat.Directory
import Mathlib.Data.List.Infix

/-! What the slots of an exFAT directory say: the file sets among them, wherever they stand before
the first end marker, and the entry each describes.
-/

namespace Ferrosys.ExFat

open Arith Checked Chunks Splice

/-! The entry a set describes. -/

namespace Slot

/-- The bytes of slots in a row. -/
def allBytes (slots : List Slot) : Bytes := slots.flatMap Slot.bytes

theorem length_allBytes (slots : List Slot)
    : (allBytes slots).length = dirEntrySize * slots.length := by
  induction slots with
  | nil => rfl
  | cons slot rest ih =>
      rw [allBytes, List.flatMap_cons, List.length_append, ← allBytes, ih, slot.size,
        List.length_cons, Nat.mul_succ, Nat.add_comm]

/-- Slots in a row are cut back into themselves, by induction on the slots. -/
theorem chunks_allBytes (slots : List Slot)
    : chunks dirEntrySize (allBytes slots) = slots.map Slot.bytes := by
  have each : ∀ fuel, (allBytes slots).length ≤ fuel →
      chunksFrom dirEntrySize fuel (allBytes slots) = slots.map Slot.bytes := by
    induction slots with
    | nil => intro fuel _; cases fuel <;> rfl
    | cons slot rest ih =>
        intro fuel enough
        have size := slot.size
        have width : dirEntrySize = 32 := rfl
        have grown := length_allBytes (slot :: rest)
        rw [List.length_cons, width] at grown
        cases fuel with
        | zero => omega
        | succ fuel =>
            have split_ : allBytes (slot :: rest) = slot.bytes ++ allBytes rest := rfl
            have some_ : ∃ byte more, slot.bytes ++ allBytes rest = byte :: more := by
              cases held : slot.bytes with
              | nil => rw [held] at size; cases size
              | cons byte more => exact ⟨byte, more ++ allBytes rest, rfl⟩
            obtain ⟨byte, more, whole⟩ := some_
            have less := length_allBytes rest
            rw [width] at less
            rw [split_, whole, chunksFrom, ← whole, List.map_cons, ← size, List.take_left,
              List.drop_left, size, ih fuel (by omega)]
  exact each _ le_rfl

end Slot

open ExFat.Slot

/-- A file entry with some entries declared behind it, and that many in-use secondary slots. -/
structure FileSet where
  first : Slot
  secondaries : List Slot
  file : first.entryType = .file
  some_ : 1 ≤ first.secondaryCount
  counted : secondaries.length = first.secondaryCount
  follow : ∀ slot ∈ secondaries, slot.continues = true

namespace FileSet

variable (self : FileSet)

def slots : List Slot := self.first :: self.secondaries

def entryOfFile : FileEntry := FileEntry.fields (allBytes self.slots)

/-- The first secondary slot, which a set has. -/
def second : Slot := self.secondaries.headD self.first

def stream : StreamExtensionEntry := StreamExtensionEntry.fields self.second.bytes

/-- The units the name entries of the set hold. -/
def units : List UInt16 :=
  (self.secondaries.tail.filter (·.entryType = .fileName)).flatMap fun slot => nameUnits slot.bytes

/-- The first secondary slot is a stream extension, and the name entries hold the name it declares.
-/
def Named : Prop :=
  self.second.entryType = .streamExtension ∧ self.stream.nameLength ≤ self.units.length

instance : Decidable self.Named := inferInstanceAs (Decidable (_ ∧ _))

/-- The name a set declares. -/
def name : Bytes := (decodeName (self.units.take self.stream.nameLength)).1

end FileSet

/-- A declared length, held to what the volume and the format leave room for. -/
def Layout.boundedLength (self : Layout) (declared : Nat) (isDir : Bool) : Nat :=
  if isDir then min (min declared self.heapBytes) maxDirectoryBytes
  else min declared self.heapBytes

/-- The node a file entry and its stream extension describe. -/
def describedNode (layout : Layout) (file : FileEntry) (stream : StreamExtensionEntry)
    : TimedNode :=
  let isDir := file.attributes &&& directoryAttribute == directoryAttribute
  let declared := layout.boundedLength stream.dataLength isDir
  {
    storage := VolumeReader.storageOf stream
    attributes := file.attributes
    dataLength := Fin.ofNat (2 ^ 64) declared
    validDataLength := if isDir then declared else min stream.validDataLength declared
    times := some (timesOf file)
  }

/-- The entry a set describes. -/
def FileSet.described (self : FileSet) (layout : Layout) : Entry :=
  ⟨self.name, describedNode layout self.entryOfFile self.stream⟩

/-- The entry of a set that declares its name, where it is a name an entry can have. -/
def FileSet.entry (self : FileSet) (layout : Layout) : Option Entry :=
  if self.Named ∧ isHostileComponent self.name = false then some (self.described layout) else none

/-- The file set the slots begin with, where they begin with one. -/
def fileSetAt : List Slot → Option FileSet
  | [] => none
  | first :: rest =>
      let secondaries := rest.take first.secondaryCount
      if h : first.entryType = .file ∧ 1 ≤ first.secondaryCount
          ∧ secondaries.length = first.secondaryCount
          ∧ ∀ slot ∈ secondaries, slot.continues = true then
        some ⟨first, secondaries, h.1, h.2.1, h.2.2.1, h.2.2.2⟩
      else none

/-- The slots before the first end marker. -/
def content (slots : List Slot) : List Slot :=
  slots.takeWhile fun slot => !slot.entryType.isEndOfDirectory

/-- The file sets of a directory, in order. -/
def fileSets (slots : List Slot) : List FileSet := (content slots).tails.filterMap fileSetAt

/-- The entries of a directory, in order, each with the index of the slot its set begins at. -/
def entries (layout : Layout) (slots : List Slot) : List (Entry × Nat) :=
  (fileSets slots).filterMap fun set => (set.entry layout).map (·, set.first.index)

/-! The file sets of slots, one slot at a time. -/

section

variable {slot : Slot} {rest : List Slot}

theorem content_of_end (ends : slot.entryType.isEndOfDirectory = true)
    : content (slot :: rest) = [] := by
  rw [content, List.takeWhile_cons_of_neg (by simp [ends])]

theorem content_of_live (live : slot.entryType.isEndOfDirectory = false)
    : content (slot :: rest) = slot :: content rest := by
  rw [content, List.takeWhile_cons_of_pos (by simp [live])]
  rfl

/-- A slot that continues a set is no end marker and no file entry. -/
theorem Slot.continues_spec (continues : slot.continues = true)
    : slot.entryType.isEndOfDirectory = false ∧ slot.entryType ≠ .file := by
  rw [Slot.continues, Bool.and_eq_true] at continues
  constructor
  · refine Bool.eq_false_iff.mpr fun ends => ?_
    rw [eq_of_beq ends] at continues
    exact absurd continues.1 (by decide)
  · intro same
    rw [same] at continues
    exact absurd continues.2 (by decide)

theorem head_content {other : Slot} (leads : other ∈ (content (slot :: rest)).head?)
    : other = slot := by
  cases ends : slot.entryType.isEndOfDirectory with
  | true => rw [content_of_end ends] at leads; cases leads
  | false => rw [content_of_live ends] at leads; exact (Option.some.inj leads).symm

theorem entries_of_end (layout : Layout) (ends : slot.entryType.isEndOfDirectory = true)
    : entries layout (slot :: rest) = [] := by
  rw [entries, fileSets, content_of_end ends]
  rfl

/-- What a set found or not found at the first slot gives. -/
def foundAt (layout : Layout) (found : Option FileSet) : List (Entry × Nat) :=
  (found.bind fun set => (set.entry layout).map (·, set.first.index)).toList

theorem entries_of_live (layout : Layout) (live : slot.entryType.isEndOfDirectory = false)
    : entries layout (slot :: rest)
      = foundAt layout (fileSetAt (slot :: content rest)) ++ entries layout rest := by
  rw [entries, fileSets, content_of_live live, List.tails, List.filterMap_cons]
  cases fileSetAt (slot :: content rest) with
  | none => rfl
  | some set =>
      rw [List.filterMap_cons, foundAt, Option.bind_some]
      cases set.entry layout <;> rfl

theorem fileSetAt_of_other (other : slot.entryType ≠ .file) : fileSetAt (slot :: rest) = none := by
  rw [fileSetAt, dif_neg fun file => other file.1]

theorem entries_of_other (layout : Layout) (live : slot.entryType.isEndOfDirectory = false)
    (other : slot.entryType ≠ .file) : entries layout (slot :: rest) = entries layout rest := by
  rw [entries_of_live layout live, fileSetAt_of_other other]
  rfl

end

/-! The grammar, and the lengths of a node. -/

/-- The slots begin with a file set exactly where they are its slots and more. -/
theorem fileSetAt_eq_some {slots : List Slot} {set : FileSet}
    : fileSetAt slots = some set ↔ ∃ after, slots = set.slots ++ after := by
  constructor
  · intro found
    cases slots with
    | nil => cases found
    | cons first rest =>
        rw [fileSetAt] at found
        split at found
        case isTrue =>
          rw [← Option.some.inj found]
          exact ⟨rest.drop first.secondaryCount,
            (congrArg (first :: ·) (List.take_append_drop _ rest)).symm⟩
        case isFalse => cases found
  · rintro ⟨after, rfl⟩
    obtain ⟨first, secondaries, file, some_, counted, follow⟩ := set
    have cut : (secondaries ++ after).take first.secondaryCount = secondaries :=
      List.take_left' counted
    rw [FileSet.slots, List.cons_append, fileSetAt,
      dif_pos (by rw [cut]; exact ⟨file, some_, counted, follow⟩)]
    simp only [cut]

/-- A file set holds no end marker. -/
theorem FileSet.live (self : FileSet)
    : ∀ slot ∈ self.slots, slot.entryType.isEndOfDirectory = false := by
  intro slot member
  rcases List.mem_cons.mp member with rfl | member
  · rw [self.file]
    decide
  · exact (Slot.continues_spec (self.follow slot member)).1

/-- The file sets of a directory are those that stand anywhere before its first end marker. -/
theorem mem_fileSets {slots : List Slot} {set : FileSet}
    : set ∈ fileSets slots ↔ ∃ before after, slots = before ++ set.slots ++ after
      ∧ ∀ slot ∈ before, slot.entryType.isEndOfDirectory = false := by
  have rest := List.takeWhile_append_dropWhile
    (p := fun slot : Slot => !slot.entryType.isEndOfDirectory) (l := slots)
  constructor
  · intro member
    obtain ⟨tail, inside, found⟩ := List.mem_filterMap.mp member
    obtain ⟨before, whole⟩ := (List.mem_tails _ _).mp inside
    obtain ⟨after, rfl⟩ := fileSetAt_eq_some.mp found
    refine ⟨before, after ++ slots.dropWhile fun slot => !slot.entryType.isEndOfDirectory, ?_,
      fun slot held => ?_⟩
    · rw [content] at whole
      rw [← whole] at rest
      simpa using rest.symm
    · have live : slot ∈ content slots := whole ▸ List.mem_append_left _ held
      simpa using List.all_eq_true.mp List.all_takeWhile slot live
  · rintro ⟨before, after, rfl, live⟩
    have kept : content (before ++ set.slots ++ after)
        = before ++ set.slots ++ content after := by
      rw [content, List.takeWhile_append_of_pos]
      · rfl
      · intro slot member
        rcases List.mem_append.mp member with member | member
        · rw [live slot member]; rfl
        · rw [set.live slot member]; rfl
    refine List.mem_filterMap.mpr ⟨set.slots ++ content after, (List.mem_tails _ _).mpr ?_,
      fileSetAt_eq_some.mpr ⟨_, rfl⟩⟩
    rw [kept, List.append_assoc]
    exact List.suffix_append _ _

/-- A node's written length is within its length, and that within the heap. -/
theorem describedNode_lengths (layout : Layout) (file : FileEntry) {stream : StreamExtensionEntry}
    (wide : stream.dataLength < 2 ^ 64)
    : (describedNode layout file stream).validDataLength ≤ (describedNode layout file stream).dataLength
      ∧ (describedNode layout file stream).dataLength ≤ layout.heapBytes := by
  have bounds : ∀ isDir, layout.boundedLength stream.dataLength isDir ≤ layout.heapBytes
      ∧ layout.boundedLength stream.dataLength isDir ≤ stream.dataLength := by
    intro isDir
    rw [Layout.boundedLength]
    split <;> omega
  have held := bounds (file.attributes &&& directoryAttribute == directoryAttribute)
  have value : ((describedNode layout file stream).dataLength : Nat)
      = layout.boundedLength stream.dataLength
        (file.attributes &&& directoryAttribute == directoryAttribute) :=
    Nat.mod_eq_of_lt (held.2.trans_lt wide)
  rw [value]
  refine ⟨?_, held.1⟩
  rw [describedNode]
  dsimp only
  split
  · exact le_rfl
  · exact min_le_right _ _

theorem entries_lengths {layout : Layout} {slots : List Slot} {found : Entry × Nat}
    (member : found ∈ entries layout slots)
    : found.1.node.validDataLength ≤ found.1.node.dataLength
      ∧ found.1.node.dataLength ≤ layout.heapBytes := by
  obtain ⟨set, -, given⟩ := List.mem_filterMap.mp member
  obtain ⟨entry, described, rfl⟩ := Option.map_eq_some_iff.mp given
  rw [FileSet.entry] at described
  split at described
  case isTrue =>
    rw [← Option.some.inj described]
    exact describedNode_lengths layout _ (getU64_lt _ _)
  case isFalse => cases described

end Ferrosys.ExFat
