import Ferrosys.ExFat.Directory.Grammar

/-! A lenient parse of an exFAT directory hands over exactly the entries of its file sets, in order:
what one slot comes to, and the walk over all of them by induction.
-/

namespace Ferrosys.ExFat

open Arith Checked Chunks Splice

/-! Reading past every deviation. -/

/-- No deviation is fatal. -/
def OnDeviation.Tolerant (self : OnDeviation) : Prop := self ≠ .policy .strict

/-- A step that only records reads past everything. -/
def Passes (result : Except DirectoryError OnDeviation) : Prop :=
  ∃ after : OnDeviation, after.Tolerant ∧ result = .ok after

/-- A step reads past everything and answers with a value. -/
def Answers {α : Type} (result : Except DirectoryError (α × OnDeviation)) (value : α) : Prop :=
  ∃ after : OnDeviation, after.Tolerant ∧ result = .ok (value, after)

theorem Passes.ok {after : OnDeviation} (tolerant : after.Tolerant) : Passes (.ok after) :=
  ⟨after, tolerant, rfl⟩

theorem Answers.ok {α : Type} {value : α} {after : OnDeviation} (tolerant : after.Tolerant)
    : Answers (.ok (value, after)) value :=
  ⟨after, tolerant, rfl⟩

theorem Passes.bind {first : Except DirectoryError OnDeviation}
    {rest : OnDeviation → Except DirectoryError OnDeviation} (passes : Passes first)
    (more : ∀ after : OnDeviation, after.Tolerant → Passes (rest after)) : Passes (first >>= rest) := by
  obtain ⟨after, tolerant, rfl⟩ := passes
  exact more after tolerant

theorem Passes.answers {α : Type} {first : Except DirectoryError OnDeviation} {value : α}
    {rest : OnDeviation → Except DirectoryError (α × OnDeviation)} (passes : Passes first)
    (more : ∀ after : OnDeviation, after.Tolerant → Answers (rest after) value)
    : Answers (first >>= rest) value := by
  obtain ⟨after, tolerant, rfl⟩ := passes
  exact more after tolerant

theorem Answers.bind {α β : Type} {first : Except DirectoryError (α × OnDeviation)} {value : α}
    {result : β} {rest : α × OnDeviation → Except DirectoryError (β × OnDeviation)}
    (answers : Answers first value)
    (more : ∀ after : OnDeviation, after.Tolerant → Answers (rest (value, after)) result)
    : Answers (first >>= rest) result := by
  obtain ⟨after, tolerant, rfl⟩ := answers
  exact more after tolerant

namespace OnDeviation

variable {self : OnDeviation}

theorem record_passes (tolerant : self.Tolerant) (at_ : Location) (error : Deviation)
    : Passes (self.record at_ error) := by
  cases self with
  | policy policy_ =>
      cases policy_ with
      | strict => exact absurd rfl tolerant
      | lenient => exact .ok tolerant
  | collect findings allocations => exact .ok (by simp [Tolerant])

theorem recordIf_passes (tolerant : self.Tolerant) (bad : Bool) (at_ : Location) (error : Deviation)
    : Passes (self.recordIf bad at_ error) := by
  cases bad with
  | false => exact .ok tolerant
  | true => exact record_passes tolerant at_ error

theorem claimGeneric_tolerant (tolerant : self.Tolerant) (index : Nat) (slot : Bytes)
    (primary : Bool) : (claimGeneric self index slot primary).Tolerant := by
  unfold claimGeneric
  split
  · cases self with
    | policy policy_ => exact tolerant
    | collect findings allocations => simp [claim, Tolerant]
  · exact tolerant

end OnDeviation

open OnDeviation ExFat.Slot

/-! A complete set is finished as the entry it describes. -/

namespace VolumeReader

variable (self : VolumeReader) {deviations : OnDeviation}

theorem boundLength_answers (tolerant : deviations.Tolerant) (declared : Nat) (isDir : Bool)
    (index : Nat) : Answers (self.boundLength declared isDir index deviations)
      (self.layout.boundedLength declared isDir) := by
  unfold boundLength Layout.boundedLength
  refine (recordIf_passes tolerant ..).answers fun after tolerant => ?_
  have held : (if declared > self.layout.heapBytes then self.layout.heapBytes else declared)
      = min declared self.layout.heapBytes := by
    split <;> omega
  rw [held]
  cases isDir with
  | false => exact .ok tolerant
  | true =>
      refine (recordIf_passes tolerant ..).answers fun after tolerant => ?_
      refine (recordIf_passes tolerant ..).answers fun after tolerant => ?_
      have capped : (if min declared self.layout.heapBytes > maxDirectoryBytes then
          maxDirectoryBytes else min declared self.layout.heapBytes)
          = min (min declared self.layout.heapBytes) maxDirectoryBytes := by
        split <;> omega
      rw [capped]
      exact .ok tolerant

theorem checkTimes_passes (tolerant : deviations.Tolerant) (file : FileEntry) (index : Nat)
    : Passes (checkTimes file index deviations) :=
  (recordIf_passes tolerant ..).bind fun _ tolerant =>
    (recordIf_passes tolerant ..).bind fun _ tolerant => recordIf_passes tolerant ..

theorem checkAllocation_passes (tolerant : deviations.Tolerant) (stream : StreamExtensionEntry)
    (isDir : Bool) (index : Nat) : Passes (checkAllocation stream isDir index deviations) :=
  (recordIf_passes tolerant ..).bind fun _ tolerant =>
    (recordIf_passes tolerant ..).bind fun _ tolerant =>
      (recordIf_passes tolerant ..).bind fun _ tolerant =>
        (recordIf_passes tolerant ..).bind fun _ tolerant => recordIf_passes tolerant ..

theorem validLength_answers (tolerant : deviations.Tolerant) (valid declared : Nat) (isDir : Bool)
    (index : Nat) : Answers (validLength valid declared isDir index deviations)
      (if isDir then declared else min valid declared) := by
  unfold validLength
  split
  case isTrue differs =>
    rw [Bool.and_eq_true] at differs
    rw [if_pos differs.1]
    exact (record_passes tolerant ..).answers fun _ tolerant => .ok tolerant
  case isFalse same =>
    split
    case isTrue past =>
      have held : (if isDir then declared else min valid declared) = declared := by
        split <;> omega
      rw [held]
      exact (record_passes tolerant ..).answers fun _ tolerant => .ok tolerant
    case isFalse inside =>
      have held : (if isDir then declared else min valid declared) = valid := by
        cases isDir with
        | false => rw [if_neg (by simp)]; omega
        | true =>
            rw [Bool.true_and, bne_iff_ne, not_not] at same
            rw [if_pos rfl, same]
      rw [held]
      exact (recordIf_passes tolerant ..).answers fun _ tolerant => .ok tolerant

/-- A node is read as the one described, whatever it deviates in. -/
theorem nodeOf_answers (tolerant : deviations.Tolerant) (file : FileEntry)
    (stream : StreamExtensionEntry) (index : Nat)
    : Answers (self.nodeOf file stream index deviations)
      (describedNode self.layout file stream) := by
  unfold nodeOf
  refine (recordIf_passes tolerant ..).answers fun _ tolerant => ?_
  refine (checkTimes_passes tolerant ..).answers fun _ tolerant => ?_
  refine (checkAllocation_passes tolerant ..).answers fun _ tolerant => ?_
  refine (self.boundLength_answers tolerant ..).bind fun _ tolerant => ?_
  refine (validLength_answers tolerant ..).bind fun _ tolerant => ?_
  exact .ok tolerant

/-- The name entries' units are gathered in order, by induction on the slots. -/
theorem gatherNames_answers (tolerant : deviations.Tolerant) (index : Nat) (names : List Slot)
    (units : List UInt16) : Answers (gatherNames index (names.map Slot.bytes) units deviations)
      (units ++ (names.filter (·.entryType = .fileName)).flatMap fun slot =>
        nameUnits slot.bytes) := by
  induction names generalizing units deviations with
  | nil =>
      rw [List.filter_nil, List.flatMap_nil, List.append_nil]
      exact .ok tolerant
  | cons slot rest ih =>
      rw [List.map_cons, gatherNames]
      by_cases type : ExFat.entryType slot.bytes = .fileName
      · have same : slot.entryType = .fileName := type
        rw [if_pos type, FileNameEntry.readFrom_eq_ok slot.size.ge type,
          List.filter_cons_of_pos (by simpa using same), List.flatMap_cons, ← List.append_assoc]
        exact ih tolerant _
      · have other : slot.entryType ≠ .fileName := type
        rw [if_neg type, List.filter_cons_of_neg (by simpa using other)]
        split
        case isTrue => exact (record_passes tolerant ..).answers fun _ tolerant => ih tolerant _
        case isFalse => exact ih (claimGeneric_tolerant tolerant _ _ _) _

theorem finishName_answers (tolerant : deviations.Tolerant) (file : FileEntry)
    (stream : StreamExtensionEntry) (index : Nat) (units : List UInt16)
    : Answers (self.finishName file stream index units deviations)
      (if isHostileComponent (decodeName units).1 = false then
        some ⟨(decodeName units).1, describedNode self.layout file stream⟩ else none) := by
  unfold finishName
  refine (recordIf_passes tolerant ..).answers fun _ tolerant => ?_
  refine (recordIf_passes tolerant ..).answers fun _ tolerant => ?_
  split
  case isTrue hostile =>
    rw [if_neg (by rw [hostile]; simp)]
    exact (record_passes tolerant ..).answers fun _ tolerant => .ok tolerant
  case isFalse kind =>
    rw [if_pos (by simpa using kind)]
    refine (recordIf_passes tolerant ..).answers fun _ tolerant => ?_
    refine (self.nodeOf_answers tolerant ..).bind fun _ tolerant => ?_
    exact .ok tolerant

/-- A complete set is finished as the entry it describes. -/
theorem finishSet_answers (tolerant : deviations.Tolerant) (set : FileSet) {pending : PendingSet}
    (bytes : pending.bytes = allBytes set.slots)
    : Answers (self.finishSet pending deviations) (set.entry self.layout) := by
  obtain ⟨first, secondaries, file, some_, counted, follow⟩ := set
  cases secondaries with
  | nil => rw [← counted] at some_; cases some_
  | cons second names =>
      have width : dirEntrySize = 32 := rfl
      have whole : allBytes (first :: second :: names)
          = first.bytes ++ (second.bytes ++ allBytes names) := rfl
      have long := length_allBytes (first :: second :: names)
      rw [List.length_cons, List.length_cons, width] at long
      have type : ExFat.entryType (allBytes (first :: second :: names)) = .file := by
        have size := first.size
        rw [whole, ExFat.entryType, List.getElem?_append_left (by omega)]
        exact file
      have stream : slice (allBytes (first :: second :: names)) dirEntrySize dirEntrySize
          = second.bytes := by
        rw [slice, whole, ← first.size, List.drop_left, first.size, ← second.size, List.take_left]
      have behind : (allBytes (first :: second :: names)).drop (2 * dirEntrySize)
          = allBytes names := by
        rw [whole, ← List.append_assoc]
        refine List.drop_left' ?_
        rw [List.length_append, first.size, second.size]
        omega
      have slots : FileSet.slots ⟨first, second :: names, file, some_, counted, follow⟩
          = first :: second :: names := rfl
      rw [slots] at bytes
      unfold finishSet
      rw [bytes, FileEntry.readFrom_eq_ok (by omega) type]
      refine (recordIf_passes tolerant ..).answers fun _ tolerant => ?_
      rw [if_neg (by omega), stream, behind, chunks_allBytes]
      by_cases extension : ExFat.entryType second.bytes = .streamExtension
      · rw [StreamExtensionEntry.readFrom_eq_ok second.size.ge extension]
        unfold finishStream
        refine (gatherNames_answers tolerant ..).bind fun _ tolerant => ?_
        rw [List.nil_append]
        dsimp only
        split
        case isTrue few =>
          have unnamed : ¬ (FileSet.mk first (second :: names) file some_ counted follow).Named :=
            fun named => absurd named.2 (Nat.not_le.mpr few)
          rw [FileSet.entry, if_neg fun both => unnamed both.1]
          exact (record_passes tolerant ..).answers fun _ tolerant => .ok tolerant
        case isFalse enough =>
          have named : (FileSet.mk first (second :: names) file some_ counted follow).Named :=
            ⟨extension, Nat.not_lt.mp enough⟩
          refine (recordIf_passes tolerant ..).answers fun _ tolerant => ?_
          rw [FileSet.entry]
          simp only [named, true_and]
          exact self.finishName_answers tolerant ..
      · obtain ⟨error, refused⟩ := StreamExtensionEntry.readFrom_eq_error extension
        have unnamed : ¬ (FileSet.mk first (second :: names) file some_ counted follow).Named :=
          fun named => extension named.1
        rw [refused, FileSet.entry, if_neg fun both => unnamed both.1]
        exact (record_passes tolerant ..).answers fun _ tolerant => .ok tolerant

/-- A benign set is read past. -/
theorem finishBenignSet_passes (tolerant : deviations.Tolerant) (pending : PendingSet)
    : Passes (finishBenignSet pending deviations) := by
  unfold finishBenignSet
  refine (recordIf_passes tolerant ..).bind fun after tolerant => ?_
  have claimed : ∀ (slots : List Bytes) (after : OnDeviation), after.Tolerant →
      (slots.foldl (fun after slot => if (ExFat.entryType slot).isBenign then
        claimGeneric after pending.index slot false else after) after).Tolerant := by
    intro slots
    induction slots with
    | nil => exact fun _ tolerant => tolerant
    | cons slot rest ih =>
        intro after tolerant
        refine ih _ ?_
        dsimp only
        split
        · exact claimGeneric_tolerant tolerant _ _ _
        · exact tolerant
  exact .ok (claimed _ _ (claimGeneric_tolerant tolerant _ _ _))

end VolumeReader

/-! The parse, slot by slot. -/

/-- A file set being assembled: its first slot, and those taken so far. -/
structure Assembling (pending : PendingSet) (first : Slot) (taken : List Slot) : Prop where
  file : first.entryType = .file
  interpreted : pending.benign = false
  index : pending.index = first.index
  want : pending.want = first.secondaryCount
  bytes : pending.bytes = allBytes (first :: taken)
  follow : ∀ slot ∈ taken, slot.continues = true
  short : taken.length < first.secondaryCount

/-- What a parse that has come so far has still to hand over. -/
inductive Expects (layout : Layout)
    : Option Nat → Option PendingSet → List Slot → List (Entry × Nat) → Prop
  | ended {marker : Nat} {set : Option PendingSet} {slots : List Slot}
      : Expects layout (some marker) set slots []
  | between {slots : List Slot} : Expects layout none none slots (entries layout slots)
  | benign {pending : PendingSet} {slots : List Slot} (kind : pending.benign = true)
      : Expects layout none (some pending) slots (entries layout slots)
  | within {pending : PendingSet} {first : Slot} {taken slots : List Slot}
      (set : Assembling pending first taken)
      : Expects layout none (some pending) slots
          (foundAt layout (fileSetAt (first :: (taken ++ content slots))) ++ entries layout slots)

namespace Assembling

variable {pending : PendingSet} {first slot : Slot} {taken rest : List Slot}

/-- A slot that does not continue the set ends it without an entry. -/
theorem fileSetAt_of_cut (set : Assembling pending first taken)
    (cut : ∀ slot ∈ rest.head?, slot.continues = false) : fileSetAt (first :: (taken ++ rest)) = none := by
  have short := set.short
  rw [fileSetAt, dif_neg]
  rintro ⟨-, -, counted, follow⟩
  cases rest with
  | nil =>
      rw [List.append_nil, List.length_take] at counted
      omega
  | cons slot rest =>
      have inside : slot ∈ (taken ++ slot :: rest).take first.secondaryCount := by
        obtain ⟨more, left⟩ : ∃ more, first.secondaryCount - taken.length = more + 1 :=
          ⟨first.secondaryCount - taken.length - 1, by omega⟩
        rw [List.take_append, List.mem_append, left, List.take_succ_cons]
        exact .inr List.mem_cons_self
      exact Bool.false_ne_true ((cut slot rfl).symm.trans (follow slot inside))

/-- The last slot a set wants completes it. -/
theorem fileSetAt_of_last (set : Assembling pending first taken) (rest : List Slot)
    (continues : slot.continues = true) (last : taken.length + 1 = first.secondaryCount)
    : ∃ done : FileSet, done.first = first ∧ done.slots = first :: (taken ++ [slot])
      ∧ fileSetAt (first :: (taken ++ slot :: rest)) = some done := by
  have cut : (taken ++ slot :: rest).take first.secondaryCount = taken ++ [slot] := by
    rw [← last, ← List.singleton_append, ← List.append_assoc]
    exact List.take_left' (by simp)
  have follow : ∀ other ∈ taken ++ [slot], other.continues = true := by
    intro other member
    rcases List.mem_append.mp member with member | member
    · exact set.follow other member
    · rw [List.mem_singleton.mp member]
      exact continues
  refine ⟨⟨first, taken ++ [slot], set.file, by omega, by simpa using last, follow⟩, rfl, rfl, ?_⟩
  rw [fileSetAt, dif_pos (by rw [cut]; exact ⟨set.file, by omega, by simpa using last, follow⟩)]
  simp only [cut]

/-- A set that wants more takes the slot. -/
theorem push (set : Assembling pending first taken) (continues : slot.continues = true)
    (more : taken.length + 1 < first.secondaryCount)
    : Assembling (pending.push slot.bytes) first (taken ++ [slot]) where
  file := set.file
  interpreted := set.interpreted
  index := set.index
  want := set.want
  bytes := by
    rw [PendingSet.push, set.bytes]
    simp [allBytes]
  follow := by
    intro other member
    rcases List.mem_append.mp member with member | member
    · exact set.follow other member
    · rw [List.mem_singleton.mp member]
      exact continues
  short := by simpa using more

theorem isComplete_push (set : Assembling pending first taken)
    : (pending.push slot.bytes).isComplete = decide (first.secondaryCount ≤ taken.length + 1) := by
  have width : dirEntrySize = 32 := rfl
  have bytes : (pending.push slot.bytes).bytes = allBytes (first :: (taken ++ [slot])) := by
    rw [PendingSet.push, set.bytes]
    simp [allBytes]
  have long := length_allBytes (first :: (taken ++ [slot]))
  have count : (pending.push slot.bytes).taken = taken.length + 1 := by
    rw [PendingSet.taken, bytes, long, width]
    simp
  have want : (pending.push slot.bytes).want = first.secondaryCount := set.want
  rw [PendingSet.isComplete, count, want]

end Assembling

section

variable {σ : Type} (each : σ → Entry → Nat → Except DirectoryError (ControlFlow × σ))

/-- Hand entries over in order, as long as the one who reads goes on. -/
def handOver : σ → List (Entry × Nat) → Except DirectoryError (ControlFlow × σ) :=
  visitAll fun state found => each state found.1 found.2

/-- What a visit of one slot comes to: the parse goes on with the same to hand over, it stops with
nothing left, or the next entry is handed over.
-/
inductive Visited (layout : Layout) (parse : Parse σ) (rest : List Slot)
    (found : List (Entry × Nat)) : Except DirectoryError (ControlFlow × Parse σ) → Prop
  | quiet {after : Parse σ} (tolerant : after.deviations.Tolerant)
      (same : after.state = parse.state) (expects : Expects layout after.ended after.set rest found)
      : Visited layout parse rest found (.ok (.continue_, after))
  | stopped {after : Parse σ} (tolerant : after.deviations.Tolerant)
      (same : after.state = parse.state) (none_ : found = [])
      : Visited layout parse rest found (.ok (.break_, after))
  | handed {after : Parse σ} {entry : Entry} {index : Nat} {more : List (Entry × Nat)}
      (tolerant : after.deviations.Tolerant) (same : after.state = parse.state)
      (next : found = (entry, index) :: more)
      (expects : Expects layout after.ended after.set rest more)
      : Visited layout parse rest found (VolumeReader.handTo each after entry index)

/-- A parse ends as what it was to hand over ends. -/
inductive Follows : Except DirectoryError (ControlFlow × Parse σ)
    → Except DirectoryError (ControlFlow × σ) → Prop
  | error {error : DirectoryError} : Follows (.error error) (.error error)
  | ok {flow flow' : ControlFlow} {after : Parse σ} (tolerant : after.deviations.Tolerant)
      : Follows (.ok (flow, after)) (.ok (flow', after.state))

end

namespace VolumeReader

variable (self : VolumeReader) {σ : Type} {parse : Parse σ} {slot : Slot} {rest : List Slot}
  {found : List (Entry × Nat)}

/-- A file entry with some entries declared opens a set that expects them. -/
theorem openFile_reads (layout : Layout) (parse : Parse σ) (slot : Slot) (rest : List Slot)
    (tolerant : parse.deviations.Tolerant)
    (fresh : parse.set = none) (open_ : parse.ended = none) (file : slot.entryType = .file)
    : ∃ after : Parse σ, openFile parse slot = .ok after ∧ after.deviations.Tolerant
      ∧ after.state = parse.state
      ∧ Expects layout after.ended after.set rest (entries layout (slot :: rest)) := by
  have live : slot.entryType.isEndOfDirectory = false := by rw [file]; decide
  have count : (FileEntry.fields slot.bytes).secondaryCount = slot.secondaryCount := rfl
  unfold openFile
  rw [FileEntry.readFrom_eq_ok slot.size.ge file]
  change ∃ after, ite _ _ _ = _ ∧ _
  rw [count]
  split
  case isTrue nothing =>
    obtain ⟨after, tolerant', recorded⟩ := record_passes tolerant slot.location
      (.incompleteEntrySet slot.index
        "it declares no entries behind it, and a file needs a stream extension and a name")
    refine ⟨{ parse with deviations := after }, by rw [recorded]; rfl, tolerant', rfl, ?_⟩
    have none_ : fileSetAt (slot :: content rest) = none := by
      rw [fileSetAt, dif_neg]
      rintro ⟨-, some_, -⟩
      omega
    rw [entries_of_live layout live, none_]
    dsimp only
    rw [fresh, open_]
    exact .between
  case isFalse some_ =>
    refine ⟨_, rfl, tolerant, rfl, ?_⟩
    rw [entries_of_live layout live]
    dsimp only
    rw [open_]
    have opened : Assembling (.new slot.index slot.secondaryCount slot.bytes false) slot [] :=
      ⟨file, rfl, rfl, rfl, (List.append_nil _).symm,
        fun _ member => absurd member List.not_mem_nil, Nat.pos_of_ne_zero some_⟩
    exact .within opened

/-- A benign primary entry opens a set without an entry, or none. -/
theorem openBenign_reads (layout : Layout) (isRoot : Bool) (parse : Parse σ) (slot : Slot)
    (rest : List Slot) (tolerant : parse.deviations.Tolerant)
    (fresh : parse.set = none) (open_ : parse.ended = none)
    (live : slot.entryType.isEndOfDirectory = false) (other : slot.entryType ≠ .file)
    : ∃ after : Parse σ, openBenign isRoot parse slot = .ok after ∧ after.deviations.Tolerant
      ∧ after.state = parse.state
      ∧ Expects layout after.ended after.set rest (entries layout (slot :: rest)) := by
  rw [entries_of_other layout live other]
  unfold openBenign
  obtain ⟨first, tolerant, placed⟩ := recordIf_passes tolerant
    (slot.entryType == .volumeGuid && !isRoot) slot.location
    (.misplacedRootEntry slot.index "volume GUID")
  obtain ⟨second, tolerant, counted⟩ := recordIf_passes tolerant
    (slot.entryType == .volumeGuid && slot.secondaryCount != 0) slot.location
    (.volumeGuidWithSecondaries slot.index slot.secondaryCount)
  dsimp only
  rw [placed, ok_bind, counted, ok_bind]
  split
  case isTrue =>
    obtain ⟨third, tolerant, finished⟩ := finishBenignSet_passes tolerant
      (.new slot.index slot.secondaryCount slot.bytes true)
    rw [finished]
    refine ⟨_, rfl, tolerant, rfl, ?_⟩
    dsimp only
    rw [fresh, open_]
    exact .between
  case isFalse =>
    refine ⟨_, rfl, tolerant, rfl, ?_⟩
    dsimp only
    rw [open_]
    exact .benign rfl

/-- A slot outside a set is read as itself. -/
theorem readSlot_reads (layout : Layout) (isRoot : Bool) (parse : Parse σ) (slot : Slot)
    (rest : List Slot) (tolerant : parse.deviations.Tolerant)
    (fresh : parse.set = none) (open_ : parse.ended = none)
    : ∃ after : Parse σ, readSlot isRoot parse slot = .ok after ∧ after.deviations.Tolerant
      ∧ after.state = parse.state
      ∧ Expects layout after.ended after.set rest (entries layout (slot :: rest)) := by
  have passed : ∀ {result : Except DirectoryError OnDeviation}, Passes result →
      slot.entryType.isEndOfDirectory = false → slot.entryType ≠ .file →
      ∃ after : Parse σ, (result >>= fun deviations =>
          (.ok { parse with deviations } : Except DirectoryError (Parse σ))) = .ok after
        ∧ after.deviations.Tolerant ∧ after.state = parse.state
        ∧ Expects layout after.ended after.set rest (entries layout (slot :: rest)) := by
    rintro result ⟨after, tolerant, rfl⟩ live other
    refine ⟨{ parse with deviations := after }, rfl, tolerant, rfl, ?_⟩
    rw [entries_of_other layout live other]
    dsimp only
    rw [fresh, open_]
    exact .between
  unfold readSlot
  dsimp only
  split
  case isTrue ends =>
    refine ⟨_, rfl, tolerant, rfl, ?_⟩
    rw [entries_of_end layout ends]
    exact .ended
  case isFalse live =>
    rw [Bool.not_eq_true] at live
    split
    case isTrue unused =>
      have other : slot.entryType ≠ .file := by
        intro same
        rw [same] at unused
        exact absurd unused (by decide)
      exact passed (.ok tolerant) live other
    case isFalse =>
      split
      case isTrue secondary =>
        have other : slot.entryType ≠ .file := by
          intro same
          rw [same] at secondary
          exact absurd secondary (by decide)
        exact passed (record_passes tolerant ..) live other
      case isFalse =>
        split
        case isTrue file => exact openFile_reads layout parse slot rest tolerant fresh open_ file
        case isFalse other =>
          split
          case isTrue => exact passed (recordIf_passes tolerant ..) live other
          case isFalse =>
            split
            case isTrue =>
              exact openBenign_reads layout isRoot parse slot rest tolerant fresh open_ live other
            case isFalse => exact passed (record_passes tolerant ..) live other

/-- A slot that continues a set is taken into it, and one that completes a file set hands over the
entry the set describes.
-/
theorem continueSet_visited (each : σ → Entry → Nat → Except DirectoryError (ControlFlow × σ))
    (tolerant : parse.deviations.Tolerant) (open_ : parse.ended = none) {pending : PendingSet}
    (continues : slot.continues = true)
    (expects : Expects self.layout none (some pending) (slot :: rest) found)
    : Visited each self.layout parse rest found (self.continueSet each parse pending slot) := by
  obtain ⟨live, other⟩ := Slot.continues_spec continues
  unfold continueSet
  dsimp only
  cases expects with
  | benign kind =>
      rw [entries_of_other self.layout live other]
      have still : (pending.push slot.bytes).benign = true := kind
      split
      case isTrue =>
        obtain ⟨after, tolerant, finished⟩ :=
          finishBenignSet_passes tolerant (pending.push slot.bytes)
        rw [finished]
        refine .quiet tolerant rfl ?_
        dsimp only
        rw [open_]
        exact .between
      case isFalse =>
        refine .quiet tolerant rfl ?_
        dsimp only
        rw [open_]
        exact .benign still
  | @within pending first taken slots set =>
      have short := set.short
      have interpreted : (pending.push slot.bytes).benign = false := set.interpreted
      rw [entries_of_other self.layout live other, content_of_live live, set.isComplete_push]
      split
      case isTrue full =>
        have last : taken.length + 1 = first.secondaryCount := by
          have := of_decide_eq_true full
          omega
        obtain ⟨done, leads, slots, complete⟩ :=
          set.fileSetAt_of_last (content rest) continues last
        have bytes : (pending.push slot.bytes).bytes = allBytes done.slots := by
          rw [slots, PendingSet.push, set.bytes]
          simp [allBytes]
        have index : (pending.push slot.bytes).index = done.first.index := by
          rw [leads]
          exact set.index
        obtain ⟨after, tolerant, finished⟩ := self.finishSet_answers tolerant done bytes
        rw [if_neg (by rw [interpreted]; simp), finished, ok_bind, complete]
        cases described : done.entry self.layout with
        | none =>
            refine .quiet tolerant rfl ?_
            rw [foundAt, Option.bind_some, described]
            dsimp only
            rw [open_]
            exact .between
        | some entry =>
            have next : foundAt self.layout (some done) ++ entries self.layout rest
                = (entry, (pending.push slot.bytes).index) :: entries self.layout rest := by
              rw [foundAt, Option.bind_some, described, index]
              rfl
            refine .handed tolerant rfl next ?_
            dsimp only
            rw [open_]
            exact .between
      case isFalse more =>
        rw [decide_eq_true_eq] at more
        refine .quiet tolerant rfl ?_
        dsimp only
        rw [open_]
        have split_ : taken ++ slot :: content rest = taken ++ [slot] ++ content rest := by simp
        rw [split_]
        exact .within (set.push continues (by omega))

/-- What a visit of one slot comes to. -/
theorem visit_visited (isRoot : Bool)
    (each : σ → Entry → Nat → Except DirectoryError (ControlFlow × σ))
    (tolerant : parse.deviations.Tolerant)
    (expects : Expects self.layout parse.ended parse.set (slot :: rest) found)
    : Visited each self.layout parse rest found (self.visit isRoot each parse slot) := by
  unfold visit
  cases ended : parse.ended with
  | some marker =>
      rw [ended] at expects
      cases expects
      dsimp only
      unfold visitAfterEnd
      split
      case isTrue => exact .stopped tolerant rfl rfl
      case isFalse =>
        split
        case isTrue =>
          obtain ⟨after, tolerant, recorded⟩ :=
            record_passes tolerant slot.location (.entriesAfterEnd slot.index)
          rw [recorded]
          refine .quiet tolerant rfl ?_
          dsimp only
          rw [ended]
          exact .ended
        case isFalse =>
          refine .quiet tolerant rfl ?_
          rw [ended]
          exact .ended
  | none =>
      rw [ended] at expects
      cases held : parse.set with
      | none =>
          rw [held] at expects
          cases expects
          obtain ⟨after, read, tolerant, same, expects⟩ :=
            readSlot_reads self.layout isRoot parse slot rest tolerant held ended
          dsimp only
          rw [read]
          exact .quiet tolerant same expects
      | some pending =>
          rw [held] at expects
          dsimp only
          split
          case isTrue continues =>
            exact self.continueSet_visited each tolerant ended continues expects
          case isFalse cut =>
            have left : found = entries self.layout (slot :: rest) := by
              cases expects with
              | benign => rfl
              | within set =>
                  rw [set.fileSetAt_of_cut]
                  · rfl
                  · intro other leads
                    rw [head_content leads]
                    exact Bool.eq_false_iff.mpr cut
            obtain ⟨after, tolerant, recorded⟩ := record_passes tolerant (.atEntry pending.index)
              (.incompleteEntrySet pending.index
                s!"it declares {pending.want} entries behind it and {pending.taken} follow")
            obtain ⟨last, read, tolerant, same, expects⟩ :=
              readSlot_reads self.layout isRoot
                ⟨none, none, parse.reportedAfterEnd, after, parse.state⟩ slot rest tolerant rfl rfl
            rw [recorded, ok_bind, read, left]
            exact .quiet tolerant same expects

/-- A parse hands over what it expects, by induction on the slots. -/
theorem visitAll_follows (isRoot : Bool)
    (each : σ → Entry → Nat → Except DirectoryError (ControlFlow × σ)) (slots : List Slot)
    (tolerant : parse.deviations.Tolerant)
    (expects : Expects self.layout parse.ended parse.set slots found)
    : Follows (visitAll (self.visit isRoot each) parse slots) (handOver each parse.state found) := by
  induction slots generalizing parse found with
  | nil =>
      have nothing : found = [] := by
        generalize parse.ended = ended, parse.set = set at expects
        cases expects with
        | ended | between | benign => rfl
        | within set =>
            rw [set.fileSetAt_of_cut fun _ leads => by cases leads]
            rfl
      rw [nothing]
      exact .ok tolerant
  | cons slot rest ih =>
      have visited := self.visit_visited isRoot each tolerant expects
      generalize here : self.visit isRoot each parse slot = result at visited
      cases visited with
      | quiet tolerant same expects =>
          rw [visitAll_of_continue here, ← same]
          exact ih tolerant expects
      | stopped tolerant same none_ =>
          rw [visitAll_of_break here, none_, ← same]
          exact .ok tolerant
      | @handed after entry index more tolerant same next expects =>
          rw [next, ← same]
          cases given : each after.state entry index with
          | error error =>
              have given' : handTo each after entry index = .error error := by
                rw [handTo, given]
                rfl
              rw [visitAll_of_error (here.trans given'), handOver, visitAll_of_error given]
              exact .error
          | ok answer =>
              obtain ⟨flow, state⟩ := answer
              have given' : handTo each after entry index = .ok (flow, { after with state }) := by
                rw [handTo, given]
                rfl
              cases flow with
              | break_ =>
                  rw [visitAll_of_break (here.trans given'), handOver, visitAll_of_break given]
                  exact .ok tolerant
              | continue_ =>
                  rw [visitAll_of_continue (here.trans given'), handOver,
                    visitAll_of_continue given]
                  exact @ih { after with state } _ tolerant expects

/-- The parse of slots in order hands over the entries of their file sets and nothing else: whoever
takes them is left as by taking those in a row.
-/
theorem parseSlots_follows (isRoot : Bool) (deviations : OnDeviation)
    (tolerant : deviations.Tolerant)
    (each : σ → Entry → Nat → Except DirectoryError (ControlFlow × σ)) (state : σ)
    (slots : List Slot)
    : (self.parseSlots isRoot deviations each state slots).map Prod.fst
      = (handOver each state (entries self.layout slots)).map Prod.snd := by
  have follows : Follows
      (visitAll (self.visit isRoot each) ⟨none, none, false, deviations, state⟩ slots)
      (handOver each state (entries self.layout slots)) :=
    self.visitAll_follows isRoot each slots tolerant .between
  unfold parseSlots
  generalize visitAll (self.visit isRoot each) ⟨none, none, false, deviations, state⟩ slots
    = result at follows
  generalize handOver each state (entries self.layout slots) = handed at follows
  cases follows with
  | error => rfl
  | @ok flow flow' after tolerant =>
      obtain ⟨set, ended, reported, deviations', state'⟩ := after
      cases set with
      | none => rfl
      | some unfinished =>
          obtain ⟨last, tolerant, recorded⟩ := record_passes tolerant (.atEntry unfinished.index)
            (.incompleteEntrySet unfinished.index
              (s!"it declares {unfinished.want} entries behind it and the directory ends after "
                ++ s!"{unfinished.taken}"))
          have ends : parseEnd ⟨some unfinished, ended, reported, deviations', state'⟩
              = .ok (state', last) := by
            unfold parseEnd
            dsimp only at recorded ⊢
            rw [recorded]
            rfl
          rw [ok_bind]
          dsimp only
          rw [ends]
          rfl

end VolumeReader

/-- Read past every deviation, whatever the slots of a directory: whoever reads it is handed in order
the entries of the file sets before the first end marker that declare a name an entry can have, and
no others; and each has its written length within its length, and that within the heap.
-/
theorem parseEntries_yields (reader : VolumeReader) {deviations : OnDeviation}
    (tolerant : deviations.Tolerant) (slots : List Slot)
    : (∀ {σ : Type} (each : σ → Entry → Nat → Except DirectoryError (ControlFlow × σ)) (state : σ),
        let handed := (handOver each state (entries reader.layout slots)).map Prod.snd
        (∀ isRoot, (reader.parseSlots isRoot deviations each state slots).map Prod.fst = handed)
        ∧ ∀ (held : Held) (node : TimedNode), node.isDir = true →
            reader.slotsOf held node.toNode = .ok slots →
            (reader.parseEntries held node deviations each state).map Prod.fst = handed)
      ∧ (∀ set, set ∈ fileSets slots ↔ ∃ before after, slots = before ++ set.slots ++ after
          ∧ ∀ slot ∈ before, slot.entryType.isEndOfDirectory = false)
      ∧ ∀ found ∈ entries reader.layout slots,
          found.1.node.validDataLength ≤ found.1.node.dataLength
          ∧ found.1.node.dataLength ≤ reader.layout.heapBytes := by
  refine ⟨fun each state => ⟨fun isRoot => ?_, fun held node dir read => ?_⟩,
    fun _ => mem_fileSets, fun _ => entries_lengths⟩
  · exact reader.parseSlots_follows isRoot deviations tolerant each state slots
  · rw [reader.parseEntries_of_read dir read]
    exact reader.parseSlots_follows _ deviations tolerant each state slots

/-- Keep every entry, in order. -/
def gather (found : List Entry) (entry : Entry) (_index : Nat)
    : Except DirectoryError (ControlFlow × List Entry) :=
  .ok (.continue_, found ++ [entry])

/-- A volume of a hundred clusters. -/
def hundredClusters : VolumeReader where
  src := []
  base := 0
  layout := ⟨1000, 512, 4096, 24, 128, 100, by decide, by decide⟩
  maxFileBytes := 0
  upcase := ⟨[]⟩

/-- A file entry that declares two entries behind it, as a slot. -/
def fileSlot (index cluster : Nat) : Slot :=
  ⟨0x85 :: 2 :: List.replicate 30 0, index, cluster, 0, rfl⟩

/-- A file set whose name is the first `length` of two characters, across two clusters. -/
def setOf (length first second : UInt8) : List Slot :=
  [fileSlot 1 5,
    ⟨0xC0 :: 1 :: 0 :: length :: List.replicate 28 0, 2, 5, 0, rfl⟩,
    ⟨0xC1 :: 0 :: first :: 0 :: second :: 0 :: List.replicate 26 0, 3, 6, 0, rfl⟩]

/-- A set cut short by another one yields nothing, and the other is read as itself: the name `a`. -/
theorem parseEntries_yields_of_cut
    : ∃ found, (hundredClusters.parseSlots true (.policy .lenient) gather []
        (fileSlot 0 5 :: setOf 1 0x61 0)).map Prod.fst = .ok found
      ∧ found.map Entry.name = [[0x61]] := by
  rw [((parseEntries_yields hundredClusters (by simp [OnDeviation.Tolerant]) _).1 gather []).1 true]
  exact ⟨_, rfl, by decide +kernel⟩

/-- The entries of the file sets that declare their name, whatever the name. -/
def namedEntries (layout : Layout) (slots : List Slot) : List Entry :=
  ((fileSets slots).filter fun set => set.Named).map fun set => set.described layout

/-- A file set named `..` declares its name and is not handed over. -/
theorem namedEntries_not_yielded
    : ¬ ∀ (reader : VolumeReader) (slots : List Slot),
        (reader.parseSlots true (.policy .lenient) gather [] slots).map Prod.fst
          = .ok (namedEntries reader.layout slots) := by
  intro claimed
  have nothing := hundredClusters.parseSlots_follows true (.policy .lenient)
    (by simp [OnDeviation.Tolerant]) gather [] (setOf 2 0x2E 0x2E)
  rw [claimed, show entries hundredClusters.layout (setOf 2 0x2E 0x2E) = [] by decide +kernel]
    at nothing
  have one : namedEntries hundredClusters.layout (setOf 2 0x2E 0x2E) ≠ [] := by decide +kernel
  exact one (Except.ok.inj nothing)

end Ferrosys.ExFat
