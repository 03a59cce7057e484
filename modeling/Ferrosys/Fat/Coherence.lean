import Mathlib.Data.List.Infix
import Ferrosys.Fat.Boot.Acceptance
import Ferrosys.Fat.Session

/-! What a reader holds changes nothing of what it answers. A reader that keeps nothing is defined
beside the one that does, on the whole live copy of the table, and each operation is shown to answer
as that one does and to leave what is held true of the volume.
-/

namespace Ferrosys.Fat

open Checked Drain Splice

/-- The copy of the table every chain is resolved through: with mirroring off the one that is
named, where the volume has it.
-/
def BootSector.activeFat (boot : BootSector) (layout : FatLayout) : Nat :=
  match boot.tail with
  | .fat32 params _ =>
      if params.extFlags &&& 0x80 ≠ 0 then
        let index := params.extFlags &&& 0xF
        if index < layout.fats then index else 0
      else 0
  | .fat1216 _ => 0

namespace Reader

/-- A reader as opening a volume leaves it: its layout is the one the boot sector describes over
what the source holds from the volume's start on.
-/
structure Opened (reader : Reader) (boot : BootSector) : Prop where
  source : reader.src.length < 2 ^ 64
  parsed : BootSector.readFrom (slice reader.src reader.base BootSector.size) = .ok boot
  described : layoutFromBoot boot (reader.src.length - reader.base) = .ok reader.layout
  active : reader.activeFat = boot.activeFat reader.layout

variable (self : Reader)

/-- Where copy `index` of the table begins, in bytes. -/
def copyStart (index : Nat) : Nat :=
  self.base
    + (self.layout.reservedSectors + index * self.layout.fatSectors) * self.layout.bytesPerSector

/-- A copy of the table, whole. -/
def copyTable (index : Nat) : Bytes :=
  slice self.src (self.copyStart index) (self.layout.fatSectors * self.layout.bytesPerSector)

/-- The live copy of the table, whole. -/
def activeTable : Bytes := self.copyTable self.activeFat

/-- The entry for `cluster`, read from the whole table. -/
def entryAfresh (cluster : Nat) : Except ReadError Nat := do
  Checked.refuseIf (cluster ≥ self.layout.maxTableEntries) (.clusterOutOfRange cluster)
  okOr (Table.readEntry self.layout.fatType self.activeTable cluster) (.clusterOutOfRange cluster)

/-- The cluster that follows `cluster`, read from the whole table. -/
def nextAfresh (cluster : Nat) : Except ReadError (Option Nat) := do
  self.follows cluster (← self.entryAfresh cluster)

/-- The cluster `left` places on. -/
def followAfresh (start : Nat) : (left at_ current : Nat) → Except ReadError (Option Nat)
  | 0, _, current => .ok (some current)
  | left + 1, at_, current => do
      match ← self.nextAfresh current with
      | none => return none
      | some next =>
          Checked.refuseIf (at_ + 1 > self.layout.clusters)
            (.chainTooLong start self.layout.clusters)
          followAfresh start left (at_ + 1) next

/-- The cluster at `index`, every chain followed from its start. -/
def clusterAfresh (start index : Nat) : Except ReadError (Option Nat) := do
  Checked.refuseIf (self.noChain start) (.clusterOutOfRange start)
  self.followAfresh start index 0 start

def pieceAfresh (start size offset want done : Nat) : Except ReadError Bytes := do
  let cluster ← self.clusterAfresh start ((offset + done) / self.layout.bytesPerCluster)
  self.pieceOf start size offset want done cluster

theorem pieceAfresh_pieces (start size offset want : Nat)
    : Pieces (fun (_ : Unit) done =>
        (self.pieceAfresh start size offset want done).map (·, ())) want := by
  intro _ done bytes _ short placed
  dsimp only at placed
  cases cut : self.pieceAfresh start size offset want done with
  | error error =>
      rw [cut] at placed
      cases placed
  | ok bytes =>
      rw [cut] at placed
      cases placed
      obtain ⟨cluster, -, cut⟩ := bind_eq_ok.mp cut
      exact self.pieceOf_bounds short cut

/-- Fill a window of `len` bytes from `offset`, keeping nothing. -/
def readAfresh (node : Node) (offset len : Nat) : Except ReadError Bytes :=
  if node.isDir || node.isVolumeLabel then .ok []
  else
    match node.storage with
    | .chain start =>
        if offset ≥ node.size ∨ len = 0 then .ok []
        else
          let want := min len (node.size - offset)
          (fill (fun (_ : Unit) done =>
              (self.pieceAfresh start node.size offset want done).map (·, ())) want
            (self.pieceAfresh_pieces start node.size offset want) ()).map (·.1)
    | _ => .ok []

/-- What a reader holds is what the volume says: a piece of the source from the sector it was read
at, and a place that following the chain from its start comes to.
-/
structure Coherent (reader : Reader) (held : Held) : Prop where
  window
    : ∀ sector buf, held.fatWindow = some (sector, buf)
      → buf <+: reader.src.drop (reader.base + sector * reader.layout.bytesPerSector)
  cursor
    : ∀ start index cluster, held.chainCursor = some (start, index, cluster)
      → reader.followAfresh start index 0 start = .ok (some cluster)

/-- An operation answers so whatever is held, and leaves what is held true. -/
def Answers {α : Type} (op : Session α) (value : Except ReadError α) : Prop :=
  ∀ held, self.Coherent held → op.answer held = value ∧ self.Coherent (op.after held)

namespace Answers

variable {self} {α β : Type} {op : Session α} {value : Except ReadError α}

theorem pure (a : α) : self.Answers (Pure.pure a) (.ok a) := fun _ coherent => ⟨rfl, coherent⟩

/-- What nothing held bears on answers so and leaves it alone. -/
theorem lift (value : Except ReadError α) : self.Answers (.lift value) value := by
  intro held coherent
  cases value with
  | ok a => exact ⟨rfl, coherent⟩
  | error error => exact ⟨rfl, coherent⟩

/-- Operations in a row answer as their answers in a row do. -/
theorem bind {rest : α → Session β} {values : α → Except ReadError β}
    (first : self.Answers op value) (second : ∀ a, value = .ok a → self.Answers (rest a) (values a))
    : self.Answers (op >>= rest) (value >>= values) := by
  intro held coherent
  obtain ⟨answered, kept⟩ := first held coherent
  simp only [Session.answer, Session.after, Bind.bind, EStateM.bind] at answered kept ⊢
  cases ran : op held with
  | ok a held' =>
      rw [ran] at answered kept
      obtain rfl := answered
      exact second a rfl held' kept
  | error error held' =>
      rw [ran] at answered kept
      obtain rfl := answered
      exact ⟨rfl, kept⟩

/-- What answers alike with and without what is held answers so whatever is held. -/
theorem fromBoth {op : Held → Except (ReadError × Held) (Bytes × Held)}
    {value : Except ReadError (Bytes × Unit)}
    (alike
      : ∀ held, self.Coherent held
        → Alike (fun held (_ : Unit) => self.Coherent held)
            (fun (failure : ReadError × Held) error =>
              failure.1 = error ∧ self.Coherent failure.2)
            (op held) value)
    : self.Answers (.fromBoth op) (value.map (·.1)) := by
  intro held coherent
  have same := alike held coherent
  simp only [Session.answer, Session.after, Session.fromBoth]
  cases ran : op held with
  | ok got =>
      cases value with
      | ok got' =>
          rw [ran] at same
          exact ⟨congrArg Except.ok same.1, same.2⟩
      | error error =>
          rw [ran] at same
          exact same.elim
  | error failure =>
      cases value with
      | ok got' =>
          rw [ran] at same
          exact same.elim
      | error error =>
          rw [ran] at same
          exact ⟨congrArg Except.error same.1, same.2⟩

end Answers

/-- A run of operations answers so from whatever true thing is held, when each of them does. -/
def Steady {α : Type} (op : Session α) : Prop := ∃ value, self.Answers op value

variable {self}

theorem Answers.steady {α : Type} {op : Session α} {value : Except ReadError α}
    (answers : self.Answers op value) : self.Steady op := ⟨value, answers⟩

theorem Steady.bind {α β : Type} {op : Session α} {rest : α → Session β} (first : self.Steady op)
    (second : ∀ a, self.Steady (rest a)) : self.Steady (op >>= rest) := by
  obtain ⟨value, first⟩ := first
  choose values second using second
  exact ⟨_, first.bind fun a _ => second a⟩

theorem Steady.after {α : Type} {op : Session α} (steady : self.Steady op) {held : Held}
    (coherent : self.Coherent held) : self.Coherent (op.after held) :=
  (steady.choose_spec held coherent).2

section
variable {boot : BootSector} (opened : self.Opened boot)
include opened

theorem Opened.accepted : self.layout.Accepted (self.src.length - self.base) :=
  (layoutFromBoot_eq_ok (BootSector.readFrom_typed opened.parsed) opened.described).1

/-- The live copy is one the volume has. -/
theorem Opened.active_lt : self.activeFat < self.layout.fats := by
  have one : 0 < self.layout.fats := by
    rcases opened.accepted.fats with fats | fats <;> omega
  rw [opened.active, BootSector.activeFat]
  split
  · split
    · dsimp only
      split
      · assumption
      · exact one
    · exact one
  · exact one

/-- Sectors the volume has are read. -/
theorem Opened.readSectors_eq {first count : Nat}
    (inside : first + count ≤ self.layout.totalSectors)
    : self.readSectors first count
      = .ok (slice self.src (self.base + first * self.layout.bytesPerSector)
          (count * self.layout.bytesPerSector))
        ∧ self.base + (first + count) * self.layout.bytesPerSector ≤ self.src.length := by
  have volume := opened.accepted.volume
  have total := opened.accepted.total
  have source := opened.source
  have size := opened.accepted.sector
  have wide : u32Max = 2 ^ 32 - 1 := rfl
  have most : Ext.u64Max = 2 ^ 64 - 1 := rfl
  have bytes := Nat.mul_le_mul_right self.layout.bytesPerSector inside
  have some_ : 0 < self.layout.totalSectors := by
    have := opened.accepted.reserved
    have := opened.accepted.room
    have := opened.accepted.first
    omega
  have pos : 0 < self.layout.totalSectors * self.layout.bytesPerSector :=
    Nat.mul_pos some_ (by omega)
  rw [FatLayout.totalBytes] at volume
  rw [Nat.add_mul] at bytes ⊢
  have offset : Ext.offsetOf self.base first self.layout.bytesPerSector
      = some (self.base + first * self.layout.bytesPerSector) :=
    if_pos ⟨by omega, by omega⟩
  refine ⟨?_, by omega⟩
  rw [readSectors, if_pos ⟨by omega, inside⟩, offset]
  exact if_pos (by omega)

/-- Every copy the volume has is where its sectors are, inside the volume. -/
theorem Opened.copy_sectors {index : Nat} (copy : index < self.layout.fats)
    : self.layout.fatStartSector index
        = some (self.layout.reservedSectors + index * self.layout.fatSectors)
      ∧ self.layout.reservedSectors + index * self.layout.fatSectors + self.layout.fatSectors
        ≤ self.layout.totalSectors := by
  have room := opened.accepted.room
  obtain ⟨start, placed, -, before⟩ := opened.accepted.fatStartSector_of_lt copy
  rw [FatLayout.fatStartSector, if_neg (Nat.not_le.mpr copy)] at placed
  obtain rfl := Option.some.inj placed
  exact ⟨if_neg (Nat.not_le.mpr copy), by omega⟩

omit opened in
/-- An entry the table has begins in one of the table's sectors. -/
theorem entry_sector {cluster : Nat} (held : cluster < self.layout.tableEntries)
    : entryOffset self.layout.fatType cluster / self.layout.bytesPerSector
      < self.layout.fatSectors := by
  have inside := self.layout.lt_tableEntries_iff.mp held
  have span : 0 < entrySpan self.layout.fatType := by cases self.layout.fatType <;> decide
  exact Nat.div_lt_of_lt_mul (by rw [Nat.mul_comm]; omega)

/-- A window on the live copy is what the source holds there, and as many sectors as were asked
for.
-/
theorem Opened.tableWindow_answers {held : Held} (coherent : self.Coherent held)
    {sector windowSectors : Nat} (inside : sector + windowSectors ≤ self.layout.totalSectors)
    : ∃ buf held', self.tableWindow held sector windowSectors = .ok (buf, held')
      ∧ self.Coherent held'
      ∧ buf <+: self.src.drop (self.base + sector * self.layout.bytesPerSector)
      ∧ windowSectors * self.layout.bytesPerSector ≤ buf.length := by
  obtain ⟨read, stored⟩ := opened.readSectors_eq inside
  have reload : ∃ buf held',
      (do
        let buf ← self.readSectors sector windowSectors
        return (buf, { held with fatWindow := some (sector, buf) })
        : Except ReadError (Bytes × Held))
        = .ok (buf, held')
      ∧ self.Coherent held'
      ∧ buf <+: self.src.drop (self.base + sector * self.layout.bytesPerSector)
      ∧ windowSectors * self.layout.bytesPerSector ≤ buf.length := by
    rw [read]
    rw [Nat.add_mul] at stored
    refine ⟨_, _, rfl, ⟨?_, coherent.cursor⟩, List.take_prefix _ _,
      (length_slice (by omega)).ge⟩
    rintro _ _ ⟨⟩
    exact List.take_prefix _ _
  unfold tableWindow
  split
  · next at_ buf kept =>
      split
      · exact reload
      · next same =>
          simp only [ne_eq, not_or, not_not, not_lt] at same
          obtain ⟨rfl, long⟩ := same
          exact ⟨buf, held, rfl, coherent, coherent.window _ _ kept, long⟩
  · exact reload

theorem Opened.fatSectors_lt : self.layout.fatSectors < 2 ^ 32 := by
  have total := opened.accepted.total
  have room := opened.accepted.room
  have first := opened.accepted.first
  rcases opened.accepted.fats with fats | fats <;> rw [fats] at first <;> omega

/-- Every copy is in the source whole. -/
theorem Opened.copyTable_inside {index : Nat} (copy : index < self.layout.fats)
    : self.copyStart index + self.layout.fatSectors * self.layout.bytesPerSector
      ≤ self.src.length := by
  obtain ⟨-, stored⟩ := opened.readSectors_eq (opened.copy_sectors copy).2
  rw [Nat.add_mul] at stored
  rw [copyStart]
  omega

theorem Opened.length_copyTable {index : Nat} (copy : index < self.layout.fats)
    : (self.copyTable index).length = self.layout.fatSectors * self.layout.bytesPerSector :=
  length_slice (opened.copyTable_inside copy)

omit opened in
/-- A window stops where the copy does, and reaches past the whole of an entry the copy has. -/
theorem window_room
    (size : self.layout.bytesPerSector = 512 ∨ self.layout.bytesPerSector = 1024
      ∨ self.layout.bytesPerSector = 2048 ∨ self.layout.bytesPerSector = 4096)
    (few : self.layout.fatSectors < 2 ^ 32) {offset : Nat}
    (sector : offset / self.layout.bytesPerSector < self.layout.fatSectors)
    (inside
      : offset + entrySpan self.layout.fatType
        ≤ self.layout.fatSectors * self.layout.bytesPerSector)
    : offset / self.layout.bytesPerSector
          + self.tableWindowSectors (offset / self.layout.bytesPerSector)
        ≤ self.layout.fatSectors
      ∧ offset % self.layout.bytesPerSector + entrySpan self.layout.fatType
        ≤ self.tableWindowSectors (offset / self.layout.bytesPerSector)
          * self.layout.bytesPerSector := by
  have split_ := Nat.div_add_mod offset self.layout.bytesPerSector
  have short := Nat.mod_lt offset (show 0 < self.layout.bytesPerSector by omega)
  have span : entrySpan self.layout.fatType ≤ 4 := by cases self.layout.fatType <;> decide
  have wide : u32Max = 2 ^ 32 - 1 := rfl
  unfold tableWindowSectors
  split
  · exact ⟨by omega, by omega⟩
  · have last : offset / self.layout.bytesPerSector + 1 = self.layout.fatSectors := by omega
    rw [← last, Nat.succ_mul, Nat.mul_comm] at inside
    exact ⟨by omega, by omega⟩

omit opened in
/-- A copy's entry is what a window on the copy that holds it gives. -/
theorem readEntry_window {index cluster : Nat} {buf : Bytes}
    (begins
      : buf <+: self.src.drop
          (self.base
            + (self.layout.reservedSectors + index * self.layout.fatSectors
              + entryOffset self.layout.fatType cluster / self.layout.bytesPerSector)
              * self.layout.bytesPerSector))
    (room
      : entryOffset self.layout.fatType cluster % self.layout.bytesPerSector
          + entrySpan self.layout.fatType ≤ buf.length)
    (inside
      : entryOffset self.layout.fatType cluster + entrySpan self.layout.fatType
        ≤ self.layout.fatSectors * self.layout.bytesPerSector)
    (narrow : cluster < 2 ^ 32)
    (stored
      : self.copyStart index + self.layout.fatSectors * self.layout.bytesPerSector ≤ self.src.length)
    : readEntry self.layout.fatType
          (buf.drop (entryOffset self.layout.fatType cluster % self.layout.bytesPerSector)) cluster
        = Table.readEntry self.layout.fatType (self.copyTable index) cluster := by
  have split_ := Nat.div_add_mod (entryOffset self.layout.fatType cluster)
    self.layout.bytesPerSector
  have there : self.base
      + (self.layout.reservedSectors + index * self.layout.fatSectors
        + entryOffset self.layout.fatType cluster / self.layout.bytesPerSector)
        * self.layout.bytesPerSector
      + entryOffset self.layout.fatType cluster % self.layout.bytesPerSector
      = self.copyStart index + entryOffset self.layout.fatType cluster := by
    rw [copyStart, Nat.add_mul _ (entryOffset _ _ / _), Nat.mul_comm (entryOffset _ _ / _)]
    omega
  have table : (self.copyTable index).length = self.layout.fatSectors * self.layout.bytesPerSector :=
    length_slice stored
  have window := begins.drop (entryOffset self.layout.fatType cluster % self.layout.bytesPerSector)
  rw [List.drop_drop, there] at window
  have whole : (self.copyTable index).drop (entryOffset self.layout.fatType cluster)
      <+: self.src.drop (self.copyStart index + entryOffset self.layout.fatType cluster) := by
    rw [← List.drop_drop]
    exact (List.take_prefix _ _).drop _
  rw [Table.readEntry_eq_of_fits ((Table.fits_iff narrow).mpr (table ▸ inside)),
    readEntry_of_begins window cluster (by rw [List.length_drop]; omega),
    readEntry_of_begins whole cluster (by rw [List.length_drop]; omega)]

/-- An entry read through the window is the whole table's. -/
theorem Opened.entryOp_answers (cluster : Nat)
    : self.Answers (self.entryOp cluster) (self.entryAfresh cluster) := by
  by_cases beyond : cluster ≥ self.layout.maxTableEntries
  · intro held coherent
    simp only [entryOp, entryAfresh, beyond, decide_true]
    exact ⟨rfl, coherent⟩
  · have low : cluster < self.layout.tableEntries :=
      lt_of_lt_of_le (Nat.not_le.mp beyond) (Nat.min_le_left _ _)
    have narrow : cluster < 2 ^ 32 :=
      lt_of_lt_of_le (Nat.not_le.mp beyond) ((Nat.min_le_right _ _).trans (by decide))
    obtain ⟨start, copy⟩ := opened.copy_sectors opened.active_lt
    have sector := self.entry_sector low
    have inside := self.layout.lt_tableEntries_iff.mp low
    obtain ⟨fit, room⟩ :=
      self.window_room opened.accepted.sector opened.fatSectors_lt sector inside
    have wide : u32Max = 2 ^ 32 - 1 := rfl
    have total := opened.accepted.total
    intro held coherent
    obtain ⟨buf, held', loaded, kept, begins, long⟩ :=
      opened.tableWindow_answers coherent (le_trans (Nat.add_assoc _ _ _).le
        ((Nat.add_le_add_left fit _).trans copy))
    have ran : self.entryOp cluster held
        = (Session.lift (okOr (Table.readEntry self.layout.fatType self.activeTable cluster)
            (.clusterOutOfRange cluster)) : Session Nat) held' := by
      rw [activeTable, ← self.readEntry_window begins (room.trans long) inside narrow
        (opened.copyTable_inside opened.active_lt)]
      have near : ¬ entryOffset self.layout.fatType cluster / self.layout.bytesPerSector
          > u32Max := by have := opened.fatSectors_lt; omega
      have reached : ¬ self.layout.reservedSectors + self.activeFat * self.layout.fatSectors
          + entryOffset self.layout.fatType cluster / self.layout.bytesPerSector > u32Max := by
        omega
      simp only [entryOp, bind, EStateM.bind, start, okOr, Option.elim, Session.lift, Session.of,
        Checked.refuseIf, beyond, near, reached, decide_false, Bool.false_eq_true, if_false, pure,
        EStateM.pure, loaded]
    have same : self.entryAfresh cluster
        = okOr (Table.readEntry self.layout.fatType self.activeTable cluster)
          (.clusterOutOfRange cluster) := by
      rw [entryAfresh, show decide (cluster ≥ self.layout.maxTableEntries) = false by
        simpa using beyond]
      rfl
    rw [same]
    simp only [Session.answer, Session.after, ran]
    exact Answers.lift _ held' kept

theorem Opened.nextOp_answers (cluster : Nat)
    : self.Answers (self.nextOp cluster) (self.nextAfresh cluster) :=
  (opened.entryOp_answers cluster).bind fun _ _ => .lift _

omit opened in
/-- Following a chain in two parts comes to where following it in one does, by induction on the
first.
-/
theorem followAfresh_add {start : Nat} (first second : Nat) {at_ current reached : Nat}
    (followed : self.followAfresh start first at_ current = .ok (some reached))
    : self.followAfresh start (first + second) at_ current
      = self.followAfresh start second (at_ + first) reached := by
  induction first generalizing at_ current with
  | zero =>
      cases followed
      rw [Nat.zero_add, Nat.add_zero]
  | succ first ih =>
      rw [followAfresh] at followed
      obtain ⟨next, answered, followed⟩ := bind_eq_ok.mp followed
      cases next with
      | none => cases followed
      | some next =>
          obtain ⟨⟨⟩, within, followed⟩ := bind_eq_ok.mp followed
          rw [Nat.succ_add, followAfresh, answered, ok_bind]
          simp only [within, ok_bind]
          rw [ih followed, Nat.add_right_comm, Nat.add_assoc]

/-- Following a chain on from a place it comes to moves the cursor to places it comes to, by induction
on how far.
-/
theorem Opened.followOp_answers {start : Nat} (left : Nat) {at_ current : Nat}
    (reached : self.followAfresh start at_ 0 start = .ok (some current))
    : self.Answers (self.followOp start left at_ current)
        (self.followAfresh start left at_ current) := by
  induction left generalizing at_ current with
  | zero =>
      intro held coherent
      refine ⟨rfl, coherent.window, ?_⟩
      rintro _ _ _ ⟨⟩
      exact reached
  | succ left ih =>
      refine (opened.nextOp_answers current).bind fun next answered => ?_
      cases next with
      | none => exact .pure none
      | some next =>
          refine (Answers.lift _).bind fun _ within => ih ?_
          rw [followAfresh_add at_ 1 reached, Nat.zero_add, followAfresh, answered, ok_bind]
          simp only [within, ok_bind]
          rfl

/-- A chain's cluster is the one following it from its start comes to, wherever the cursor is. -/
theorem Opened.clusterAtOp_answers (start index : Nat)
    : self.Answers (self.clusterAtOp start index) (self.clusterAfresh start index) := by
  intro held coherent
  obtain ⟨at_, current, begun, low, reached⟩
      : ∃ at_ current, cursorFor held start index = (at_, current) ∧ at_ ≤ index
        ∧ self.followAfresh start at_ 0 start = .ok (some current) := by
    unfold cursorFor
    split
    · next cursorStart cursorIndex cursorCluster kept =>
        split
        · next same =>
            obtain ⟨rfl, low⟩ := same
            exact ⟨_, _, rfl, low, coherent.cursor _ _ _ kept⟩
        · exact ⟨_, _, rfl, Nat.zero_le _, rfl⟩
    · exact ⟨_, _, rfl, Nat.zero_le _, rfl⟩
  have rest : self.followAfresh start index 0 start
      = self.followAfresh start (index - at_) at_ current := by
    have whole := followAfresh_add at_ (index - at_) reached
    rwa [Nat.add_sub_cancel' low, Nat.zero_add] at whole
  have run : self.Answers
      (do
        Session.lift (Checked.refuseIf (self.noChain start) (.clusterOutOfRange start))
        self.followOp start (index - at_) at_ current)
      (self.clusterAfresh start index) := by
    rw [clusterAfresh, rest]
    exact (Answers.lift _).bind fun _ _ => opened.followOp_answers _ reached
  have same : self.clusterAtOp start index held
      = (do
          Session.lift (Checked.refuseIf (self.noChain start) (.clusterOutOfRange start))
          self.followOp start (index - at_) at_ current : Session (Option Nat)) held := by
    have read : (get : Session Held) held = .ok held held := rfl
    simp only [clusterAtOp, bind, EStateM.bind, read, begun]
  simpa only [Session.answer, Session.after, same] using run held coherent

theorem Opened.pieceOp_answers (start size offset want done : Nat)
    : self.Answers (self.pieceOp start size offset want done)
        (self.pieceAfresh start size offset want done) :=
  (opened.clusterAtOp_answers _ _).bind fun _ _ => .lift _

/-- A part of a window is placed as a reader that keeps nothing places it. -/
theorem Opened.pieceOp_alike (start size offset want : Nat) (held : Held) (last : Unit)
    (done : Nat) (coherent : self.Coherent held)
    : Alike (fun held (_ : Unit) => self.Coherent held)
        (fun (failure : ReadError × Held) error =>
          failure.1 = error ∧ self.Coherent failure.2)
        ((self.pieceOp start size offset want done).both held)
        ((self.pieceAfresh start size offset want done).map (·, last)) := by
  obtain ⟨answered, kept⟩ := opened.pieceOp_answers start size offset want done held coherent
  simp only [Session.answer, Session.after, Session.both] at answered kept ⊢
  cases ran : self.pieceOp start size offset want done held with
  | ok bytes held =>
      rw [ran] at answered kept
      rw [← answered]
      exact ⟨rfl, kept⟩
  | error error held =>
      rw [ran] at answered kept
      rw [← answered]
      exact ⟨rfl, kept⟩

/-- A file's bytes are the same whatever is held. -/
theorem Opened.readOp_answers (node : Node) (offset len : Nat)
    : self.Answers (self.readOp node offset len) (self.readAfresh node offset len) := by
  unfold readOp readAfresh
  split
  · exact .pure []
  · cases node.storage with
    | none => exact .pure []
    | rootRegion => exact .pure []
    | chain start =>
        dsimp only
        by_cases outside : offset ≥ node.size ∨ len = 0
        · rw [if_pos outside, if_pos outside]
          exact .pure []
        · rw [if_neg outside, if_neg outside]
          exact .fromBoth fun held coherent => fill_alike
            (opened.pieceOp_alike start node.size offset (min len (node.size - offset)))
            _ _ coherent

/-- Collecting a chain is steady, by induction on the room left. -/
theorem Opened.chainFrom_steady (start cap left : Nat) (out : List Nat) (current : Nat)
    : self.Steady (self.chainFrom start cap left out current) := by
  induction left generalizing out current with
  | zero =>
      rw [chainFrom]
      refine Steady.bind (opened.nextOp_answers current).steady fun next => ?_
      cases next with
      | none => exact ⟨_, .pure out⟩
      | some next => exact ⟨_, .lift (.error _)⟩
  | succ left ih =>
      rw [chainFrom]
      refine Steady.bind (opened.nextOp_answers current).steady fun next => ?_
      cases next with
      | none => exact ⟨_, .pure out⟩
      | some next => exact Steady.bind ⟨_, .lift _⟩ fun _ => ih _ _

theorem Opened.chainOp_steady (start cap : Nat) : self.Steady (self.chainOp start cap) :=
  Steady.bind ⟨_, .lift _⟩ fun _ => opened.chainFrom_steady _ _ _ _ _

/-- Whatever a resolution asks, what is held stays true, by induction on what it asks. -/
theorem Opened.search_after (search : Search) {held : Held} (coherent : self.Coherent held)
    : self.Coherent ((search.run self).after held) := by
  induction search generalizing held with
  | found => exact coherent
  | next cluster rest ih =>
      exact ih _ ((opened.nextOp_answers cluster).steady.after coherent)

/-- One call leaves what is held true, whether or not it fails. -/
theorem Opened.call_after (call : Call) {held : Held} (coherent : self.Coherent held)
    : self.Coherent (call.after self held) := by
  cases call with
  | readInto node offset len =>
      exact (opened.readOp_answers node offset len).steady.after coherent
  | chain start cap => exact (opened.chainOp_steady start cap).after coherent
  | lookup search => exact opened.search_after search coherent

/-- Calls in turn leave what is held true, by induction on the calls. -/
theorem Opened.held_coherent (calls : List Call) {before : Held}
    (coherent : self.Coherent before) : self.Coherent (self.held calls before) := by
  induction calls generalizing before with
  | nil => exact coherent
  | cons call rest ih => exact ih (opened.call_after call coherent)

/-- What opening a volume leaves held is true of it. -/
theorem Opened.freshlyHeld_coherent : self.Coherent self.freshlyHeld :=
  (opened.entryOp_answers 1).steady.after ⟨nofun, nofun⟩

end

/-- The one index a table may have an entry for and the reader does not look up: the last 32-bit
number, on a table of more entries than such numbers count.
-/
def PastCount (reader : Reader) (cluster : Nat) : Prop :=
  cluster = u32Max ∧ u32Max < reader.layout.tableEntries

/-- Short of that index, the window refuses what the whole table refuses. -/
theorem entryAfresh_eq {cluster : Nat} (narrow : cluster < 2 ^ 32)
    (counted : ¬ self.PastCount cluster)
    (sized : self.activeTable.length = self.layout.fatSectors * self.layout.bytesPerSector)
    : self.entryAfresh cluster
      = okOr (Table.readEntry self.layout.fatType self.activeTable cluster)
          (.clusterOutOfRange cluster) := by
  have wide : u32Max = 2 ^ 32 - 1 := rfl
  unfold entryAfresh
  by_cases beyond : cluster ≥ self.layout.maxTableEntries
  · have outside : Table.fits self.layout.fatType cluster self.activeTable.length = false := by
      rw [Bool.eq_false_iff, Ne, Table.fits_iff narrow, sized, ← self.layout.lt_tableEntries_iff]
      rw [FatLayout.maxTableEntries_eq] at beyond
      unfold PastCount at counted
      omega
    simp only [beyond, decide_true, Table.readEntry, outside]
    rfl
  · simp only [beyond, decide_false]
    rfl

/-- At that index the window refuses what the whole table holds. -/
theorem PastCount.entry {cluster : Nat} (past : self.PastCount cluster)
    (sized : self.activeTable.length = self.layout.fatSectors * self.layout.bytesPerSector)
    : self.entryAfresh cluster = .error (.clusterOutOfRange cluster)
      ∧ ∃ entry, Table.readEntry self.layout.fatType self.activeTable cluster = some entry := by
  obtain ⟨rfl, many⟩ := past
  have most : u32Max ≥ self.layout.maxTableEntries := Nat.min_le_right _ _
  have inside : Table.fits self.layout.fatType u32Max self.activeTable.length = true := by
    rw [Table.fits_iff (by decide), sized, ← self.layout.lt_tableEntries_iff]
    exact many
  refine ⟨by simp only [entryAfresh, most, decide_true]; rfl, ?_⟩
  rw [Table.readEntry, if_pos inside]
  exact ⟨_, rfl⟩

/-- On an open volume, after any calls in any order, those that failed among them, a file's bytes or
the error in their place are the ones a reader that was just opened gives, and an entry read through
the window is the one the whole live copy of the table has, both refusing the same numbers: all but
the last 32-bit number, which the count of entries leaves out where a table has one for it.
-/
theorem calls_answer_alike {boot : BootSector} (opened : self.Opened boot) (calls : List Call)
    : (∀ node offset len,
        (self.readOp node offset len).answer (self.held calls self.freshlyHeld)
          = (self.readOp node offset len).answer self.freshlyHeld)
      ∧ ∀ cluster < 2 ^ 32,
        (¬ self.PastCount cluster
          → (self.entryOp cluster).answer (self.held calls self.freshlyHeld)
            = okOr (Table.readEntry self.layout.fatType self.activeTable cluster)
                (.clusterOutOfRange cluster))
        ∧ (self.PastCount cluster
          → (self.entryOp cluster).answer (self.held calls self.freshlyHeld)
              = .error (.clusterOutOfRange cluster)
            ∧ (Table.readEntry self.layout.fatType self.activeTable cluster).isSome) := by
  have coherent := opened.held_coherent calls opened.freshlyHeld_coherent
  have sized := opened.length_copyTable opened.active_lt
  refine ⟨fun node offset len => ?_, fun cluster narrow => ⟨fun counted => ?_, fun past => ?_⟩⟩
  · rw [(opened.readOp_answers node offset len _ coherent).1,
      (opened.readOp_answers node offset len _ opened.freshlyHeld_coherent).1]
  · rw [(opened.entryOp_answers cluster _ coherent).1, entryAfresh_eq narrow counted sized]
  · obtain ⟨refused, entry, has⟩ := past.entry sized
    rw [(opened.entryOp_answers cluster _ coherent).1, refused, has]
    exact ⟨rfl, rfl⟩

end Reader

/-- A volume of `bytes` bytes with nothing in it but its boot sector. -/
def imageOf (sector : Bytes) (bytes : Nat) : Bytes := sector ++ zeros (bytes - BootSector.size)

/-- The layout of such a volume whose first copy of the table is the live one. -/
def layoutOf (sector : Bytes) (bytes : Nat) : Option FatLayout :=
  (BootSector.readFrom sector).toOption.bind fun boot =>
    (layoutFromBoot boot bytes).toOption.filter fun layout => boot.activeFat layout = 0

theorem length_imageOf {sector : Bytes} {bytes : Nat} (sized : sector.length = BootSector.size)
    (long : BootSector.size ≤ bytes) : (imageOf sector bytes).length = bytes := by
  rw [imageOf, List.length_append, zeros, List.length_replicate, sized]
  omega

theorem slice_imageOf {sector : Bytes} (bytes : Nat) (sized : sector.length = BootSector.size)
    : slice (imageOf sector bytes) 0 BootSector.size = sector := by
  rw [imageOf, slice_append_left _ (by omega), slice, List.drop_zero, ← sized, List.take_length]

/-- A reader of a volume at the start of its source. -/
def readerOf (src : Bytes) (layout : FatLayout) (clustered : 0 < layout.bytesPerCluster)
    : Reader where
  src := src
  base := 0
  layout := layout
  activeFat := 0
  policy := .strict
  maxFileBytes := 0
  clustered := clustered

/-- A volume whose boot sector describes a layout opens. -/
theorem readerOf_opened {src sector : Bytes} {bytes : Nat} {layout : FatLayout}
    (clustered : 0 < layout.bytesPerCluster) (front : slice src 0 BootSector.size = sector)
    (length : src.length = bytes) (short : bytes < 2 ^ 64)
    (described : layoutOf sector bytes = some layout)
    : ∃ boot, BootSector.readFrom sector = .ok boot
      ∧ (readerOf src layout clustered).Opened boot := by
  rw [layoutOf] at described
  cases parsed : BootSector.readFrom sector with
  | error error =>
      rw [parsed] at described
      cases described
  | ok boot =>
      rw [parsed] at described
      cases found : layoutFromBoot boot bytes with
      | error error => simp [found, Except.toOption] at described
      | ok layout' =>
          obtain ⟨first, rfl⟩ : boot.activeFat layout' = 0 ∧ layout' = layout := by
            simpa [found, Except.toOption, Option.filter, and_comm] using described
          refine ⟨boot, rfl, lt_of_eq_of_lt length short, ?_, ?_, first.symm⟩
          · exact (congrArg BootSector.readFrom front).trans parsed
          · change layoutFromBoot boot (src.length - 0) = .ok layout'
            rw [length]
            exact found

/-- A file of that volume of 1440 KiB read after two calls that fail. -/
theorem calls_answer_alike_of_floppy
    : ((readerOf (imageOf floppySector 1474560) floppyLayout (by decide)).readOp
          ⟨.chain 2, 0, 5⟩ 1 3).answer
        ((readerOf (imageOf floppySector 1474560) floppyLayout (by decide)).held
          [.chain 9000 1, .readInto ⟨.chain 3, 0, 700⟩ 600 100]
          (readerOf (imageOf floppySector 1474560) floppyLayout (by decide)).freshlyHeld)
      = ((readerOf (imageOf floppySector 1474560) floppyLayout (by decide)).readOp
          ⟨.chain 2, 0, 5⟩ 1 3).answer
        (readerOf (imageOf floppySector 1474560) floppyLayout (by decide)).freshlyHeld := by
  obtain ⟨boot, -, opened⟩ := readerOf_opened (show 0 < floppyLayout.bytesPerCluster by decide)
    (slice_imageOf 1474560 (show floppySector.length = BootSector.size by decide +kernel))
    (length_imageOf (by decide +kernel) (by decide)) (by decide)
    (show layoutOf floppySector 1474560 = some floppyLayout by decide +kernel)
  exact (Reader.calls_answer_alike opened _).1 _ _ _

/-- Sector 0 of a FAT32 volume whose one table has an entry for every 32-bit number. -/
def giantSector : Bytes :=
  [0xEB, 0x58, 0x90] ++ zeros 8
    ++ [0x00, 0x10, 0x01, 0x01, 0x00, 0x01, 0x00, 0x00, 0x00, 0x00, 0xF8]
    ++ zeros 10
    ++ [0x02, 0x00, 0x40, 0x00, 0x00, 0x00, 0x40, 0x00, 0x00, 0x00, 0x00, 0x00, 0x02]
    ++ zeros 467

def giantLayout : FatLayout where
  fatType := .fat32
  bytesPerSector := 4096
  sectorsPerCluster := 1
  reservedSectors := 1
  fats := 1
  rootEntries := 0
  totalSectors := 4194306
  fatSectors := 4194304
  rootDirSectors := 0
  firstDataSector := 4194305
  clusters := 1
  fat32 :=
    some
      { rootCluster := 2, fsInfoSector := 0, backupBootSector := none, backupFsInfoSector := none }

/-- The last 32-bit number has an entry in that volume's table, and the window refuses it. -/
theorem calls_refuse_past_count
    : ∃ boot, (readerOf (imageOf giantSector 17179877376) giantLayout (by decide)).Opened boot
        ∧ ((readerOf (imageOf giantSector 17179877376) giantLayout (by decide)).entryOp u32Max).answer
            (readerOf (imageOf giantSector 17179877376) giantLayout (by decide)).freshlyHeld
          = .error (.clusterOutOfRange u32Max)
        ∧ (Table.readEntry .fat32
            (readerOf (imageOf giantSector 17179877376) giantLayout (by decide)).activeTable
            u32Max).isSome = true := by
  obtain ⟨boot, -, opened⟩ := readerOf_opened (show 0 < giantLayout.bytesPerCluster by decide)
    (slice_imageOf 17179877376 (show giantSector.length = BootSector.size by decide +kernel))
    (length_imageOf (by decide +kernel) (by decide)) (by decide)
    (show layoutOf giantSector 17179877376 = some giantLayout by decide +kernel)
  have past : (readerOf (imageOf giantSector 17179877376) giantLayout (by decide)).PastCount u32Max :=
    ⟨rfl, by decide⟩
  obtain ⟨refused, entry, has⟩ := past.entry (opened.length_copyTable opened.active_lt)
  refine ⟨boot, opened, ?_, ?_⟩
  · rw [(opened.entryOp_answers u32Max _ opened.freshlyHeld_coherent).1, refused]
  · exact Option.isSome_iff_exists.mpr ⟨entry, has⟩

end Ferrosys.Fat
