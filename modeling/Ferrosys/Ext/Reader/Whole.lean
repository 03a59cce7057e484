import Ferrosys.Library.Loop
import Ferrosys.Ext.Extent.RoundTrip
import Ferrosys.Ext.Reader.MapAt

/-! A file's bytes read whole, streamed, and read in part: they are the same bytes, one block of
the map after the other, wherever every index entry of an extent tree covers the leaves below it.
-/

namespace Ferrosys.Ext

open Arith Checked Splice

/-- A read of part of what was read answers that part: the copies of the blocks it meets are among
those of the larger read.
-/
theorem Reader.readAt_part {self : Reader} {offset len at_ n : Nat} {bytes : Bytes} (some_ : 0 < n)
    (fits : at_ + n ≤ len) (read : self.readAt offset len = .ok bytes)
    : self.readAt (offset + at_) n = .ok (slice bytes at_ n) := by
  have sized := self.blockSized
  have inside := self.inside_of_readAt (by omega) read
  have whole : offset + len ≤ self.homeImage.length := self.length_homeImage ▸ inside
  rw [self.readAt_eq inside (by omega)] at read
  rw [self.readAt_eq (by omega) some_]
  cases copied : self.copiesOf (offset / self.blockSize)
      ((offset + len - 1) / self.blockSize) with
  | error error =>
      rw [copied] at read
      cases read
  | ok blocks =>
      rw [copied] at read
      cases read
      have lengths : ∀ block ∈ blocks, block.2.length = self.blockSize := by
        intro block member
        obtain ⟨-, -, copy, -, answered⟩ := self.mem_copiesOf copied member
        exact self.length_copyBlock answered
      have low : offset / self.blockSize ≤ (offset + at_) / self.blockSize :=
        Nat.div_le_div_right (Nat.le_add_right _ _)
      have high : (offset + at_ + n - 1) / self.blockSize
          ≤ (offset + len - 1) / self.blockSize := Nat.div_le_div_right (by omega)
      have part : self.copiesOf ((offset + at_) / self.blockSize)
          ((offset + at_ + n - 1) / self.blockSize)
          = .ok (blocks.filter (Splice.meets self.blockSize (offset + at_) n)) := by
        have kept := @mapM_filter _ _ _ _
          (fun entry => (offset + at_) / self.blockSize ≤ entry.1
            && entry.1 ≤ (offset + at_ + n - 1) / self.blockSize)
          (Splice.meets self.blockSize (offset + at_) n) (by
            intro entry block answered
            cases copied : self.copyBlock entry.2 with
            | error error =>
                rw [copied] at answered
                cases answered
            | ok bytes =>
                rw [copied] at answered
                cases answered
                rfl) _ _ copied
        rw [copiesOf, ← kept]
        congr 1
        rw [SortedMaps.SortedMap.range, SortedMaps.SortedMap.range, List.filter_filter]
        refine List.filter_congr fun entry _ => ?_
        rw [← Bool.decide_and, ← Bool.decide_and, ← Bool.decide_and]
        refine decide_eq_decide.mpr ⟨fun within => ⟨within, ?_⟩, fun within => within.1⟩
        exact ⟨low.trans within.1, within.2.trans high⟩
      rw [part]
      refine congrArg Except.ok ?_
      dsimp only
      rw [slice_slice fits,
        slice_putBlocks (by omega) some_ lengths (by omega),
        slice_putBlocks (by omega) some_ (fun block member => lengths block
          (List.mem_of_mem_filter member)) (by omega), List.filter_filter]
      simp only [Bool.and_self]

namespace Reader

variable (self : Reader)

/-- The bytes a map's entry stands for, where they can be read. -/
def entryBytes (phys : Nat) : Bytes :=
  (self.mappedBlock phys).toOption.getD (List.replicate self.blockSize 0)

variable {self}

theorem length_entryBytes (phys : Nat) : (self.entryBytes phys).length = self.blockSize := by
  unfold entryBytes
  cases read : self.mappedBlock phys with
  | ok bytes => exact self.length_mappedBlock read
  | error error => exact List.length_replicate

/-- The bytes of entries, one after the other. -/
def entriesBytes (self : Reader) (map : List Nat) : Bytes := (map.map self.entryBytes).flatten

theorem entryBytes_sized (map : List Nat)
    : ∀ piece ∈ map.map self.entryBytes, piece.length = self.blockSize := by
  intro piece member
  obtain ⟨phys, -, rfl⟩ := List.mem_map.mp member
  exact length_entryBytes phys

theorem length_entriesBytes (map : List Nat)
    : (self.entriesBytes map).length = map.length * self.blockSize := by
  rw [entriesBytes, length_flatten_of_sized (entryBytes_sized map), List.length_map]

theorem entriesBytes_append (first second : List Nat)
    : self.entriesBytes (first ++ second)
      = self.entriesBytes first ++ self.entriesBytes second := by
  rw [entriesBytes, List.map_append, List.flatten_append]
  rfl

/-- A run read at once is its blocks, each as a read of it alone answers. -/
theorem readRun_blocks {run : Run} {bytes : Bytes} (read : self.readRun run = .ok (some bytes))
    : run.phys ≠ 0
      ∧ self.entriesBytes ((List.range run.len).map fun j => run.phys + j) = bytes := by
  have sized := self.blockSized
  have bounded := self.bounded
  have long := self.length_readRun read
  have whole := self.readRun_eq read
  simp only [readRun] at read
  split at read
  · cases read
  · next reached =>
      rw [not_or, not_or, Bool.not_eq_false] at reached
      obtain ⟨mapped, -, reach⟩ := reached
      obtain ⟨inside, -⟩ := self.inside_of_blocksInReach reach
      have present : run.phys + run.len ≤ self.sb.blocksCount := by
        simp only [blocksInReach, Bool.and_eq_true, decide_eq_true_eq] at reach
        exact reach.1.2
      refine ⟨mapped, ?_⟩
      have pieces : (List.range run.len).map (fun j => self.entryBytes (run.phys + j))
          = (List.range run.len).map fun j => slice bytes (j * self.blockSize) self.blockSize := by
        refine List.map_congr_left fun j member => ?_
        have below := List.mem_range.mp member
        have up : (j + 1) * self.blockSize ≤ run.len * self.blockSize :=
          Nat.mul_le_mul_right _ below
        rw [Nat.succ_mul] at up
        have part := readAt_part (by omega) up whole
        rw [← Nat.add_mul] at part
        have place : (run.phys + j) * self.blockSize + self.blockSize ≤ self.sourceLen := by
          rw [Nat.add_mul]
          omega
        have block : self.block (run.phys + j)
            = .ok (slice bytes (j * self.blockSize) self.blockSize) := by
          have known : ¬ run.phys + j ≥ self.sb.blocksCount := by omega
          have start : offsetOf 0 (run.phys + j) self.blockSize
              = some ((run.phys + j) * self.blockSize) := by
            rw [offsetOf, Nat.zero_add, if_pos]
            unfold sourceLen at place
            unfold u64Max
            omega
          rw [Reader.block, checkBlock, if_neg known, ok_bind, start]
          dsimp only
          rw [part]
          rfl
        rw [entryBytes, mappedBlock, if_neg (by omega), block]
        rfl
      rw [entriesBytes, List.map_map]
      exact (congrArg List.flatten pieces).trans (flatten_slices long)

end Reader

/-- A run names the entries of a map that it stands for. -/
def Run.Names (map : List Nat) (run : Run) : Prop :=
  ∀ j < run.len, map[run.at_ + j]? = some (if run.phys = 0 then 0 else run.phys + j)

/-- One more entry of a map leaves each of its runs naming what it stands for. -/
theorem names_extendRuns {map : List Nat} {most n phys : Nat} {out : List Run}
    (laid : Laid 0 out n) (names : ∀ run ∈ out, run.Names map) (entry : map[n]? = some phys)
    : ∀ run ∈ extendRuns most out (phys, n), run.Names map := by
  have fresh : Run.Names map ⟨n, phys, 1⟩ := by
    intro j below
    obtain rfl : j = 0 := by
      have : j < 1 := below
      omega
    rw [Nat.add_zero, entry]
    split
    · next zero => exact congrArg some zero
    · rfl
  have appended : ∀ run ∈ out ++ [⟨n, phys, 1⟩], run.Names map := by
    intro run member
    rcases List.mem_append.mp member with before | last
    · exact names run before
    · obtain rfl := List.mem_singleton.mp last
      exact fresh
  simp only [extendRuns]
  split
  · next last found =>
      split
      · next joins =>
          obtain ⟨init, rfl⟩ := List.getLast?_eq_some_iff.mp found
          obtain ⟨mid, before, begins, -, ends⟩ := laid_append.mp laid
          have reached : last.at_ + last.len = n := by
            have ended : mid + last.len = n := ends
            omega
          rw [List.dropLast_concat]
          intro run member
          rcases List.mem_append.mp member with earlier | joined
          · exact names run (List.mem_append_left _ earlier)
          · obtain rfl := List.mem_singleton.mp joined
            intro j below
            have most : j < last.len + 1 := below
            by_cases old : j < last.len
            · exact names last (List.mem_append_right _ List.mem_cons_self) j old
            · obtain rfl : j = last.len := by omega
              show map[last.at_ + last.len]? = _
              rw [reached, entry]
              obtain ⟨goesOn, -⟩ := joins
              simp only [Run.continuedBy] at goesOn
              split at goesOn
              · next hole => rw [if_pos hole, eq_of_beq goesOn]
              · next mapped =>
                  rw [if_neg mapped]
                  simp only [Bool.and_eq_true, beq_iff_eq] at goesOn
                  exact congrArg some goesOn.2.symm
      · exact appended
  · exact appended

/-- A map's runs name its entries. -/
theorem names_runs (map : List Nat) (most : Nat) : ∀ run ∈ runs map most, run.Names map := by
  have folded : ∀ (rest before : List Nat) (out : List Run), before ++ rest = map →
      Laid 0 out before.length → (∀ run ∈ out, run.Names map) →
      ∀ run ∈ (rest.zipIdx before.length).foldl (extendRuns (max most 1)) out, run.Names map := by
    intro rest
    induction rest with
    | nil => exact fun before out _ _ names => names
    | cons phys rest ih =>
        intro before out split laid names
        have entry : map[before.length]? = some phys := by
          rw [← split, List.getElem?_append_right le_rfl, Nat.sub_self]
          rfl
        have more := ih (before ++ [phys]) (extendRuns (max most 1) out (phys, before.length))
          (by rw [List.append_assoc]; exact split)
          (by rw [List.length_append]; exact laid_extendRuns laid)
          (names_extendRuns laid names entry)
        rw [List.length_append] at more
        exact more
  exact folded map [] [] rfl rfl nofun

/-- A window filled on from `before` with as much of `data`, past its skip, as it still wants. -/
def Filling.Takes (want : Nat) (data : Bytes) (before after : Filling) : Prop :=
  after.filled = before.filled ++ slice data before.skip (want - before.filled.length)

/-- Placing bytes takes them. -/
theorem Filling.takes_place (self : Filling) (want : Nat) (bytes : Bytes)
    : self.Takes want bytes (self.place want bytes) := by
  rw [Takes, place, slice_min]

/-- What a window takes of one piece after another is what it takes of both, where the first ends
past the skip and the second is taken only while there is room.
-/
theorem Filling.takes_append {want : Nat} {first second : Bytes} {before middle after : Filling}
    (within : before.skip ≤ first.length) (one : before.Takes want first middle)
    (rest : if middle.filled.length ≥ want then after.filled = middle.filled
      else middle.skip = 0 ∧ middle.Takes want second after)
    : before.Takes want (first ++ second) after := by
  have grown : middle.filled.length = before.filled.length
      + min (want - before.filled.length) (first.length - before.skip) := by
    rw [one, List.length_append, slice, List.length_take, List.length_drop]
  rw [Takes, slice_append second within, ← List.append_assoc, ← one]
  split at rest
  · next full =>
      rw [rest, show want - before.filled.length - (first.length - before.skip) = 0 by omega,
        slice, List.take_zero, List.append_nil]
  · next room =>
      obtain ⟨none_, two⟩ := rest
      rw [two, none_]
      congr 2
      omega

namespace Reader

variable {self : Reader}

/-- Placing a map's entries one at a time takes their bytes, by induction on the entries. -/
theorem takes_placeBlocks {want : Nat} {map : List Nat} {before after : Filling}
    (short : before.filled.length < want) (within : before.skip < self.blockSize)
    (placed : self.placeBlocks want map before = .ok after)
    : before.Takes want (self.entriesBytes map) after := by
  induction map generalizing before with
  | nil =>
      cases placed
      rw [Filling.Takes, show self.entriesBytes [] = [] from rfl, slice, List.drop_nil,
        List.take_nil, List.append_nil]
  | cons phys rest ih =>
      obtain ⟨block, read, placed⟩ := bind_eq_ok.mp placed
      have bytes : self.entryBytes phys = block := by
        rw [entryBytes, read]
        rfl
      have long : block.length = self.blockSize := self.length_mappedBlock read
      rw [show phys :: rest = [phys] ++ rest from rfl, entriesBytes_append]
      have one : self.entriesBytes [phys] = block := by
        rw [entriesBytes, List.map_singleton, bytes, List.flatten_singleton]
      rw [one]
      refine Filling.takes_append (by omega) (before.takes_place want block) ?_
      dsimp only at placed
      split at placed
      · next full =>
          cases placed
          rw [if_pos full]
      · next room =>
          rw [if_neg room]
          exact ⟨rfl, ih (Nat.lt_of_not_le room) (Nat.zero_lt_of_lt within) placed⟩

/-- Placing a run takes the bytes of the entries it names. -/
theorem takes_placeRun {map : List Nat} {want : Nat} {run : Run} {before after : Filling}
    (short : before.filled.length < want) (within : before.skip < self.blockSize)
    (names : run.Names map) (placed : self.placeRun map want run before = .ok after)
    : before.Takes want (self.entriesBytes (slice map run.at_ run.len)) after := by
  obtain ⟨answer, read, placed⟩ := bind_eq_ok.mp placed
  cases answer with
  | none => exact takes_placeBlocks short within placed
  | some bytes =>
      cases placed
      obtain ⟨mapped, whole⟩ := readRun_blocks read
      have entries : slice map run.at_ run.len
          = (List.range run.len).map fun j => run.phys + j := by
        apply List.ext_getElem?
        intro j
        rw [getElem?_slice, List.getElem?_map]
        split
        · next below =>
            rw [names j below, if_neg mapped, List.getElem?_range below]
            rfl
        · next past => rw [List.getElem?_eq_none (by rw [List.length_range]; omega)]; rfl
      rw [entries, whole]
      exact before.takes_place want bytes

/-- Placing a map's runs takes the bytes of its entries, by induction on the runs. -/
theorem takes_placeRuns {map : List Nat} {want : Nat} {out : List Run} {lo : Nat}
    (laid : Laid lo out map.length) (names : ∀ run ∈ out, run.Names map) {before after : Filling}
    (short : before.filled.length < want) (within : before.skip < self.blockSize)
    (placed : self.placeRuns map want out before = .ok after)
    : before.Takes want (self.entriesBytes (map.drop lo)) after := by
  induction out generalizing lo before with
  | nil =>
      cases placed
      have ended : lo = map.length := laid
      rw [Filling.Takes, ended, List.drop_length, show self.entriesBytes [] = [] from rfl, slice,
        List.drop_nil, List.take_nil, List.append_nil]
  | cons run rest ih =>
      obtain ⟨rfl, some_, others⟩ := laid
      have ends : run.at_ + run.len ≤ map.length := laid_le others
      obtain ⟨middle, first, placed⟩ := bind_eq_ok.mp placed
      have ⟨_, skipped⟩ := self.length_placeRun short within some_ ends first
      have split_ : map.drop run.at_
          = slice map run.at_ run.len ++ map.drop (run.at_ + run.len) := by
        rw [slice, ← List.drop_drop, List.take_append_drop]
      have long : (self.entriesBytes (slice map run.at_ run.len)).length
          = run.len * self.blockSize := by
        rw [length_entriesBytes, length_slice ends]
      have reach : self.blockSize ≤ run.len * self.blockSize := Nat.le_mul_of_pos_left _ some_
      rw [split_, entriesBytes_append]
      refine Filling.takes_append (by omega)
        (takes_placeRun short within (names run List.mem_cons_self) first) ?_
      split at placed
      · next full =>
          cases placed
          rw [if_pos full]
      · next room =>
          rw [if_neg room]
          exact ⟨skipped, ih others (fun other member => names other (List.mem_cons_of_mem _ member))
            (Nat.lt_of_not_le room) (skipped ▸ Nat.zero_lt_of_lt within) placed⟩

variable (self)

/-- The bytes of a file, block after block, up to a whole number of blocks. -/
def fileBytes (inode : Inode) : Bytes :=
  self.entriesBytes ((List.range (divCeil (self.fileLen inode) self.blockSize)).map
    (self.mapsAt inode))

variable {self}

/-- A window's entries are as many of the file's bytes, from where its first block begins. -/
theorem entriesBytes_window {inode : Inode} {first count : Nat}
    (inside : first + count ≤ divCeil (self.fileLen inode) self.blockSize)
    : self.entriesBytes ((List.range' first count).map (self.mapsAt inode))
      = slice (self.fileBytes inode) (first * self.blockSize) (count * self.blockSize) := by
  have part : (List.range' first count).map (self.mapsAt inode)
      = slice ((List.range (divCeil (self.fileLen inode) self.blockSize)).map
          (self.mapsAt inode)) first count := by
    rw [slice, ← List.map_drop, ← List.map_take, List.range_eq_range', List.drop_range',
      List.take_range'_of_length_ge (by omega), Nat.zero_add, Nat.mul_one]
  rw [fileBytes, entriesBytes, entriesBytes, slice_flatten_run (entryBytes_sized _), part]
  simp only [slice, List.map_take, List.map_drop]

/-- A slice of a slice, as far as the outer one reaches. -/
theorem slice_slice_min (buf : Bytes) (at_ len inner n : Nat)
    : slice (slice buf at_ len) inner n = slice buf (at_ + inner) (min n (len - inner)) := by
  apply List.ext_getElem?
  intro i
  simp only [getElem?_slice]
  by_cases inside : i < n ∧ inner + i < len
  · rw [if_pos inside.1, if_pos inside.2, if_pos (by omega), Nat.add_assoc]
  · rw [if_neg (by omega : ¬ i < min n (len - inner))]
    split
    · rw [if_neg (by omega)]
    · rfl

/-- A window filled from a map of its blocks goes on with the file's bytes. -/
theorem takes_window {inode : Inode} (most : self.blockSize ≤ 65536)
    (covered : self.MapCovered inode) (mapsData : inode.mapsData self.blockSize = true)
    {first count want : Nat} (inside : first + count ≤ divCeil (self.fileLen inode) self.blockSize)
    {map : List Nat} (mapped : self.mapWindow inode first count = .ok map)
    {before after : Filling} (short : before.filled.length < want)
    (within : before.skip < self.blockSize)
    (placed : self.placeRuns map want (runs map self.maxRunBlocks) before = .ok after)
    : after.filled = before.filled ++ slice (self.fileBytes inode)
        (first * self.blockSize + before.skip)
        (min (want - before.filled.length) (count * self.blockSize - before.skip)) := by
  have took := takes_placeRuns (laid_runs map self.maxRunBlocks) (names_runs map self.maxRunBlocks)
    short within placed
  rw [List.drop_zero, mapWindow_mapped most covered mapsData mapped, Filling.Takes,
    entriesBytes_window inside, slice_slice_min] at took
  exact took

/-- A file that is read has data to map. -/
theorem mapsData_of_fileLen {inode : Inode} (some_ : 0 < self.fileLen inode)
    : inode.mapsData self.blockSize = true := by
  by_contra unmapped
  simp only [fileLen, Bool.not_eq_true _ ▸ unmapped, if_true] at some_
  omega

/-- A read of part of a file answers those of its bytes that the file reaches. -/
theorem readInto_eq {inode : Inode} (most : self.blockSize ≤ 65536)
    (covered : self.MapCovered inode) {offset len : Nat} {bytes : Bytes}
    (read : self.readInto inode offset len = .ok bytes)
    : bytes = slice (self.fileBytes inode) offset (min (self.fileLen inode - offset) len) := by
  have sized := self.blockSized
  simp only [readInto] at read
  split at read
  · next none_ =>
      cases read
      rw [show min (self.fileLen inode - offset) len = 0 by omega, slice, List.take_zero]
  · next inside =>
      obtain ⟨map, mapped, read⟩ := bind_eq_ok.mp read
      obtain ⟨filling, placed, read⟩ := bind_eq_ok.mp read
      cases read
      have within : offset % self.blockSize < self.blockSize := Nat.mod_lt _ (by omega)
      have reach := window_covered self.blockSize (by omega) offset
        (min (self.fileLen inode - offset) len) (by omega)
      have ordered : offset / self.blockSize
          ≤ (offset + min (self.fileLen inode - offset) len - 1) / self.blockSize :=
        Nat.div_le_div_right (by omega)
      have last : (offset + min (self.fileLen inode - offset) len - 1) / self.blockSize
          < divCeil (self.fileLen inode) self.blockSize := by
        rw [lt_divCeil_iff (by omega)]
        have := Nat.div_mul_le_self (offset + min (self.fileLen inode - offset) len - 1)
          self.blockSize
        omega
      have took := takes_window most covered (mapsData_of_fileLen (by omega)) (by omega) mapped
        (by simp only [List.length_nil]; omega) within placed
      rw [List.nil_append, List.length_nil, Nat.sub_zero, Nat.div_add_mod',
        Nat.min_eq_left (by omega)] at took
      exact took

variable (self)

/-- A file's length, held to what the limits let be read whole. -/
def wholeFileLen (inode : Inode) : Except ReadError Nat :=
  let size := self.fileLen inode
  if size > self.maxFileBytes then .error (.fileTooLarge size self.maxFileBytes) else .ok size

/-- The whole contents of a file. -/
def readData (inode : Inode) : Except ReadError Bytes := do
  let want ← self.wholeFileLen inode
  self.readInto inode 0 want

/-- One turn of streaming a file: the next window's map, and its runs written out. What is written
so far is where the turn begins.
-/
def writeWindow (inode : Inode) (written : Bytes) : Loop.Next Bytes (Except ReadError Bytes) :=
  let want := self.fileLen inode
  if written.length < want then
    Loop.orStop do
      let first := written.length / self.blockSize
      let remaining := divCeil (want - written.length) self.blockSize
      let count := min remaining mapWindowBlocks
      let map ← self.mapWindow inode first count
      -- A run, a block or a hole is written as a part of a file is filled, with nothing to skip.
      let filling ← self.placeRuns map want (runs map self.maxRunBlocks) ⟨0, written⟩
      return .go filling.filled
  else .stop (.ok written)

variable {self}

/-- A turn that goes on has read its window's map and written the window's blocks out. -/
theorem writeWindow_eq_go {inode : Inode} {written next : Bytes}
    (went : self.writeWindow inode written = .go next)
    : ∃ map after,
        written.length < self.fileLen inode
        ∧ self.mapWindow inode (written.length / self.blockSize)
            (min (divCeil (self.fileLen inode - written.length) self.blockSize) mapWindowBlocks)
          = .ok map
        ∧ self.placeRuns map (self.fileLen inode) (runs map self.maxRunBlocks) ⟨0, written⟩
          = .ok after
        ∧ next = after.filled
        ∧ next.length = min (self.fileLen inode) (written.length
            + min (divCeil (self.fileLen inode - written.length) self.blockSize) mapWindowBlocks
              * self.blockSize) := by
  have sized := self.blockSized
  simp only [writeWindow] at went
  split at went
  · next short =>
      have turn := Loop.orStop_eq_go went
      obtain ⟨map, mapped, turn⟩ := bind_eq_ok.mp turn
      obtain ⟨after, placed, turn⟩ := bind_eq_ok.mp turn
      cases turn
      refine ⟨map, after, short, mapped, placed, rfl, ?_⟩
      have long := self.length_mapWindow (mapsData_of_fileLen (by omega)) mapped
      have filled := self.length_placeRuns (laid_runs map self.maxRunBlocks) (Nat.zero_le _) short
        (show 0 < self.blockSize by omega) placed
      rw [long, Nat.sub_zero, Nat.sub_zero] at filled
      exact filled
  · cases went

/-- The windows a file is streamed in: at least one block each. -/
theorem windowBlocks_pos {inode : Inode} {written : Bytes}
    (short : written.length < self.fileLen inode)
    : 0 < min (divCeil (self.fileLen inode - written.length) self.blockSize) mapWindowBlocks := by
  have sized := self.blockSized
  have some_ : 0 < divCeil (self.fileLen inode - written.length) self.blockSize :=
    (lt_divCeil_iff (by omega)).mpr (by omega)
  exact Nat.lt_min.mpr ⟨some_, by decide⟩

/-- Every turn of streaming a file leaves less of it. -/
theorem writeWindow_lowers (self : Reader) (inode : Inode)
    : Loop.Lowers (self.writeWindow inode) fun written => self.fileLen inode - written.length := by
  intro written next went
  have sized := self.blockSized
  obtain ⟨map, after, short, -, -, -, long⟩ := writeWindow_eq_go went
  have grown := Nat.le_mul_of_pos_left self.blockSize (windowBlocks_pos short)
  show self.fileLen inode - next.length < self.fileLen inode - written.length
  rw [long]
  omega

/-- Stream the whole contents of a file: what is written out. -/
def readDataTo (self : Reader) (inode : Inode) : Except ReadError Bytes := do
  let _ ← self.wholeFileLen inode
  Loop.total (self.writeWindow inode) (fun written => self.fileLen inode - written.length)
    (self.writeWindow_lowers inode) []

/-- What has been written of a file: its first bytes, up to the end of a block or of the file. -/
structure Streamed (reader : Reader) (inode : Inode) (written : Bytes) : Prop where
  begins : written = slice (reader.fileBytes inode) 0 written.length
  within : written.length ≤ reader.fileLen inode
  whole : written.length < reader.fileLen inode → written.length % reader.blockSize = 0

/-- A turn of streaming a file goes on with its bytes. -/
theorem Streamed.step {inode : Inode} (most : self.blockSize ≤ 65536)
    (covered : self.MapCovered inode) {written next : Bytes}
    (went : self.writeWindow inode written = .go next) (streamed : self.Streamed inode written)
    : self.Streamed inode next := by
  have sized := self.blockSized
  obtain ⟨map, after, short, mapped, placed, rfl, long⟩ := writeWindow_eq_go went
  have aligned := streamed.whole short
  have first : written.length / self.blockSize * self.blockSize = written.length := by
    have := Nat.div_add_mod' written.length self.blockSize
    omega
  have reach := @le_divCeil_mul (self.fileLen inode) self.blockSize (by omega)
  have begun : written.length / self.blockSize < divCeil (self.fileLen inode) self.blockSize := by
    rw [lt_divCeil_iff (by omega), first]
    exact short
  have inside : written.length / self.blockSize
      + min (divCeil (self.fileLen inode - written.length) self.blockSize) mapWindowBlocks
      ≤ divCeil (self.fileLen inode) self.blockSize := by
    have left : divCeil (self.fileLen inode - written.length) self.blockSize
        ≤ divCeil (self.fileLen inode) self.blockSize - written.length / self.blockSize := by
      rw [divCeil_le_iff (by omega), Nat.sub_mul, first]
      omega
    omega
  have took := takes_window most covered (mapsData_of_fileLen (by omega)) inside mapped short
    (show 0 < self.blockSize by omega) placed
  dsimp only at took
  rw [first, Nat.add_zero, Nat.sub_zero] at took
  constructor
  · have reached : after.filled.length = written.length
        + min (self.fileLen inode - written.length)
          (min (divCeil (self.fileLen inode - written.length) self.blockSize) mapWindowBlocks
            * self.blockSize) := by omega
    rw [reached, slice, List.drop_zero, List.take_add]
    refine took.trans (congrArg (· ++ _) ?_)
    have begins := streamed.begins
    rwa [slice, List.drop_zero] at begins
  · omega
  · intro more
    have reached : after.filled.length = written.length
        + min (divCeil (self.fileLen inode - written.length) self.blockSize) mapWindowBlocks
          * self.blockSize := by omega
    rw [reached, Nat.add_mul_mod_self_right]
    exact aligned

/-- A file that is streamed is written out whole. -/
theorem readDataTo_eq {inode : Inode} (most : self.blockSize ≤ 65536)
    (covered : self.MapCovered inode) {streamed : Bytes}
    (read : self.readDataTo inode = .ok streamed)
    : streamed = slice (self.fileBytes inode) 0 (self.fileLen inode) := by
  obtain ⟨want, -, read⟩ := bind_eq_ok.mp read
  have ran := Loop.run_eq_total (self.writeWindow_lowers inode) []
  rw [read] at ran
  obtain ⟨last, holds, stops⟩ := @Loop.stop_of_run _ _ _ (self.Streamed inode)
    (fun _ _ went streamed => streamed.step most covered went) _ _
    ⟨by rw [slice]; rfl, Nat.zero_le _, fun _ => Nat.zero_mod _⟩ _ ran
  have begins := holds.begins
  have within := holds.within
  simp only [writeWindow] at stops
  split at stops
  · have turn := Loop.orStop_eq_stop stops
    obtain ⟨map, -, turn⟩ := bind_eq_ok.mp turn
    obtain ⟨filling, -, turn⟩ := bind_eq_ok.mp turn
    cases turn
  · next full =>
      cases stops
      rw [show self.fileLen inode = streamed.length by omega]
      exact begins

/-- Read whole, streamed or read in part, a file's bytes are the same: what is streamed is what is
read whole, and a part is the slice of that which the part names, shortened only by the end of the
file.
-/
theorem reads_agree {inode : Inode} (most : self.blockSize ≤ 65536)
    (covered : self.MapCovered inode) {data : Bytes} (whole : self.readData inode = .ok data)
    : (∀ streamed, self.readDataTo inode = .ok streamed → streamed = data)
      ∧ ∀ offset len bytes, self.readInto inode offset len = .ok bytes →
          bytes = slice data offset len := by
  obtain ⟨want, capped, read⟩ := bind_eq_ok.mp whole
  obtain rfl : self.fileLen inode = want := by
    simp only [wholeFileLen] at capped
    split at capped
    · cases capped
    · exact Except.ok.inj capped
  have all := readInto_eq most covered read
  rw [Nat.sub_zero, Nat.min_self] at all
  constructor
  · intro streamed written
    rw [readDataTo_eq most covered written, all]
  · intro offset len bytes part
    rw [readInto_eq most covered part, all, slice_slice_min, Nat.zero_add, Nat.min_comm]

end Reader

/-- A regular file whose data an extent tree maps. -/
def extentFile (size : Nat) (root : Bytes) : Inode :=
  ⟨0o100644, size, 0, InodeFlags.extents, 0, root⟩

/-- A node's bytes, at the front of a buffer of `size` zeros. -/
def nodeBytes (node : ExtentNode) (size : Nat) : Bytes :=
  (writeNode node (nodeCapacity size) (List.replicate size 0)).toOption.getD []

/-- A reader of an image of four blocks. -/
def smallReader (image : Bytes) (small : image.length < 2 ^ 63) : Reader :=
  imageReader image 4 small

theorem smallReader_blockSize (image : Bytes) (small : image.length < 2 ^ 63)
    : (smallReader image small).blockSize = 1024 := rfl

/-- Two blocks at the end of an image, and a file over them that one leaf in its inode maps. -/
def pairImage : Bytes :=
  List.replicate 2048 0 ++ List.replicate 1024 1 ++ List.replicate 1024 2

def pairReader : Reader := smallReader pairImage (by decide +kernel)
def pairFile : Inode := extentFile 2000 (nodeBytes (.leaves [⟨0, 2, 2, true⟩]) 60)

/-- A part that crosses from one block to the next is that part of the whole. -/
theorem reads_agree_of_two
    : ∃ data,
        pairReader.readData pairFile = .ok data
        ∧ pairReader.readInto pairFile 1022 4 = .ok [1, 1, 2, 2]
        ∧ slice data 1022 4 = [1, 1, 2, 2] := by
  have part : pairReader.readInto pairFile 1022 4 = .ok [1, 1, 2, 2] := by decide +kernel
  have wholly : (pairReader.readData pairFile).toOption.isSome := by decide +kernel
  have parsed : parseNode pairFile.block = .ok (.leaves [⟨0, 2, 2, true⟩]) := by decide +kernel
  cases whole : pairReader.readData pairFile with
  | error error =>
      rw [whole] at wholly
      cases wholly
  | ok data =>
      have small : pairReader.blockSize ≤ 65536 := by
        rw [pairReader, smallReader_blockSize]
        decide
      obtain ⟨-, parts⟩ := @Reader.reads_agree pairReader pairFile small
        (fun _ => Reader.covered_of_leaves parsed) data whole
      exact ⟨data, rfl, part, (parts _ _ _ part).symm⟩

/-- A tree of two leaf nodes whose first holds the leaf of logical block 2, past where the root's
second entry begins.
-/
def strayImage : Bytes :=
  List.replicate 1024 0 ++ nodeBytes (.leaves [⟨2, 1, 3, true⟩]) 1024
    ++ nodeBytes (.leaves [⟨1, 1, 0, false⟩]) 1024 ++ List.replicate 1024 1

def strayReader : Reader := smallReader strayImage (by decide +kernel)
def strayFile : Inode := extentFile 3072 (nodeBytes (.index 1 [⟨0, 1⟩, ⟨1, 2⟩]) 60)

/-- All three reads succeed. Read whole, the file's block 2 is the stray leaf's; read alone, its
window passes over the entry that leads to the leaf, and the block is a hole.
-/
theorem strayLeaf_disagrees
    : ∃ data streamed,
        strayReader.readData strayFile = .ok data
        ∧ strayReader.readDataTo strayFile = .ok streamed
        ∧ strayReader.readInto strayFile 2048 1 = .ok [0]
        ∧ slice data 2048 1 = [1] := by
  have part : strayReader.readInto strayFile 2048 1 = .ok [0] := by decide +kernel
  have read : (strayReader.readData strayFile).toOption.map (slice · 2048 1) = some [1] := by
    decide +kernel
  have written : (strayReader.readDataTo strayFile).toOption.isSome := by decide +kernel
  cases whole : strayReader.readData strayFile with
  | error error =>
      rw [whole] at read
      cases read
  | ok data =>
      rw [whole] at read
      cases streamed : strayReader.readDataTo strayFile with
      | error error =>
          rw [streamed] at written
          cases written
      | ok out => exact ⟨data, out, rfl, rfl, part, Option.some.inj read⟩

end Ferrosys.Ext
