import Ferrosys.Ext.Reader.Map
import Ferrosys.Ext.Reader.Overlay
import Ferrosys.Library.Drain
import Ferrosys.Tree

/-! The bytes of an ext inode, read through a window's map: runs of blocks that sit next to each
other are read at once, and everything else a block at a time. A read that succeeds fills the
whole of its window that the file reaches, whatever the map holds.
-/

namespace Ferrosys.Ext

open Arith Checked Splice

/-- The map entry `phys` goes on with the run. -/
def Run.continuedBy (run : Run) (phys : Nat) : Bool :=
  if run.phys = 0 then phys == 0
  else phys != 0 && run.phys + run.len ≤ u64Max && run.phys + run.len == phys

/-- Take one more entry of a map into its runs. -/
def extendRuns (max : Nat) (out : List Run) (entry : Nat × Nat) : List Run :=
  match out.getLast? with
  | some run =>
      if run.continuedBy entry.1 ∧ run.len < max then
        out.dropLast ++ [{ run with len := run.len + 1 }]
      else out ++ [⟨entry.2, entry.1, 1⟩]
  | none => out ++ [⟨entry.2, entry.1, 1⟩]

/-- Split a window's map into runs, none longer than `most` blocks. -/
def runs (map : List Nat) (most : Nat) : List Run :=
  map.zipIdx.foldl (extendRuns (max most 1)) []

/-- A window being filled: where its bytes begin in the next block, and what is placed. -/
structure Filling where
  skip : Nat
  filled : Bytes

/-- Place as much of `bytes` as the window still wants. -/
def Filling.place (self : Filling) (want : Nat) (bytes : Bytes) : Filling :=
  ⟨0, self.filled ++
    slice bytes self.skip (min (bytes.length - self.skip) (want - self.filled.length))⟩

namespace Reader

variable (self : Reader)

/-- The bytes of a map's entry, a hole's being zeros. -/
def mappedBlock (phys : Nat) : Except ReadError Bytes :=
  if phys = 0 then .ok (List.replicate self.blockSize 0) else self.block phys

/-- Place a run's blocks one at a time, until the window is full. -/
def placeBlocks (want : Nat) : List Nat → Filling → Except ReadError Filling
  | [], filling => .ok filling
  | phys :: rest, filling => do
      let block ← self.mappedBlock phys
      let filling := filling.place want block
      if filling.filled.length ≥ want then return filling else placeBlocks want rest filling

/-- Place one run: at once where one read covers it, and otherwise a block at a time. -/
def placeRun (map : List Nat) (want : Nat) (run : Run) (filling : Filling)
    : Except ReadError Filling := do
  match ← self.readRun run with
  | some bytes => return filling.place want bytes
  | none => self.placeBlocks want (slice map run.at_ run.len) filling

/-- Place the runs of a map in order, until the window is full. -/
def placeRuns (map : List Nat) (want : Nat) : List Run → Filling → Except ReadError Filling
  | [], filling => .ok filling
  | run :: rest, filling => do
      let filling ← self.placeRun map want run filling
      if filling.filled.length ≥ want then return filling else placeRuns map want rest filling

/-- Fill a window of `len` bytes from `offset` in a file. Nothing past its size is filled. -/
def readInto (inode : Inode) (offset len : Nat) : Except ReadError Bytes :=
  let size := self.fileLen inode
  if offset ≥ size ∨ len = 0 then .ok []
  else do
    let want := min (size - offset) len
    let first := offset / self.blockSize
    let last := (offset + want - 1) / self.blockSize
    let map ← self.mapWindow inode first (last - first + 1)
    let filling ← self.placeRuns map want (runs map self.maxRunBlocks)
      ⟨offset % self.blockSize, []⟩
    return filling.filled

end Reader

def typeMask : Nat := 0o170000
def typeRegular : Nat := 0o100000

/-- A device node's number, in whichever of its two forms the block area holds. -/
def decodeDevice (block0 block1 : Nat) : Nat × Nat :=
  if block0 ≠ 0 then (block0 / 2 ^ 8 &&& 0xFF, block0 &&& 0xFF)
  else ((block1 &&& 0xFFF00) / 2 ^ 8, (block1 &&& 0xFF) ||| (block1 / 2 ^ 12 &&& 0xFFF00))

namespace Reader

variable (self : Reader)

/-- A file's length is a 64-bit number. -/
theorem fileLen_lt (inode : Inode) : self.fileLen inode < 2 ^ 64 := by
  simp only [fileLen, satMul, u64Max]
  split <;> omega

/-- What a walk reports an inode as, or none where its type names no kind of node. -/
def treeKind (inode : Inode) : Option NodeKind :=
  let device := decodeDevice (getU32 inode.block 0) (getU32 inode.block 4)
  match inode.mode &&& typeMask with
  | 0o040000 => some .directory
  | 0o100000 => some (.file ⟨self.fileLen inode, self.fileLen_lt inode⟩)
  | 0o120000 => some .symlink
  | 0o020000 => some (.charDevice device.1 device.2)
  | 0o060000 => some (.blockDevice device.1 device.2)
  | 0o010000 => some .fifo
  | 0o140000 => some .socket
  | _ => none

/-- The bytes an extraction reads of a node: a regular file's alone. -/
def readBytes (inode : Inode) (offset len : Nat) : Except ReadError Bytes :=
  if inode.mode &&& typeMask ≠ typeRegular then .ok [] else self.readInto inode offset len

end Reader

/-- Runs laid one after the other from index `lo` to index `hi` of a map, none empty. -/
def Laid (lo : Nat) : List Run → Nat → Prop
  | [], hi => lo = hi
  | run :: rest, hi => run.at_ = lo ∧ 0 < run.len ∧ Laid (lo + run.len) rest hi

theorem laid_append {first second : List Run} {lo hi : Nat}
    : Laid lo (first ++ second) hi ↔ ∃ mid, Laid lo first mid ∧ Laid mid second hi := by
  induction first generalizing lo with
  | nil => simp [Laid]
  | cons run rest ih =>
      simp only [List.cons_append, Laid, ih]
      constructor
      · rintro ⟨begins, some_, mid, before, after⟩
        exact ⟨mid, ⟨begins, some_, before⟩, after⟩
      · rintro ⟨mid, ⟨begins, some_, before⟩, after⟩
        exact ⟨begins, some_, mid, before, after⟩

/-- Runs laid one after the other end no lower than they begin. -/
theorem laid_le {out : List Run} {lo hi : Nat} (laid : Laid lo out hi) : lo ≤ hi := by
  induction out generalizing lo with
  | nil => exact Nat.le_of_eq laid
  | cons run rest ih => exact Nat.le_trans (Nat.le_add_right _ _) (ih laid.2.2)

/-- One more entry of a map leaves its runs laid up to it. -/
theorem laid_extendRuns {max n phys : Nat} {out : List Run} (laid : Laid 0 out n)
    : Laid 0 (extendRuns max out (phys, n)) (n + 1) := by
  have appended : Laid 0 (out ++ [⟨n, phys, 1⟩]) (n + 1) :=
    laid_append.mpr ⟨n, laid, rfl, Nat.one_pos, rfl⟩
  simp only [extendRuns]
  split
  · next run last =>
      split
      · obtain ⟨init, rfl⟩ := List.getLast?_eq_some_iff.mp last
        obtain ⟨mid, before, begins, -, ends⟩ := laid_append.mp laid
        rw [List.dropLast_concat]
        refine laid_append.mpr ⟨mid, before, begins, Nat.succ_pos _, ?_⟩
        have reached : mid + run.len = n := ends
        show mid + (run.len + 1) = n + 1
        omega
      · exact appended
  · exact appended

/-- A map's runs are laid one after the other over all of it. -/
theorem laid_runs (map : List Nat) (most : Nat) : Laid 0 (runs map most) map.length := by
  have folded : ∀ (rest : List Nat) (n : Nat) (out : List Run), Laid 0 out n
      → Laid 0 ((rest.zipIdx n).foldl (extendRuns (max most 1)) out) (n + rest.length) := by
    intro rest
    induction rest with
    | nil => exact fun n out laid => laid
    | cons phys rest ih =>
        intro n out laid
        have more := ih (n + 1) _ (@laid_extendRuns (max most 1) n phys out laid)
        rw [List.length_cons, Nat.add_comm rest.length, ← Nat.add_assoc]
        exact more
  have all := folded map 0 [] rfl
  rwa [Nat.zero_add] at all

/-- Placing bytes fills the window by what there is past the skip, as far as it wants. -/
theorem Filling.length_place (self : Filling) (want : Nat) {bytes : Bytes}
    (inside : self.skip ≤ bytes.length)
    : (self.place want bytes).filled.length
      = self.filled.length + min (bytes.length - self.skip) (want - self.filled.length) := by
  rw [place, List.length_append, length_slice (by omega)]

/-- The blocks a range touches hold all of it past where it begins in the first. -/
theorem window_covered (size : Nat) (pos : 0 < size) (offset want : Nat) (some_ : 0 < want)
    : want ≤ ((offset + want - 1) / size - offset / size + 1) * size - offset % size := by
  have first := Nat.div_add_mod' offset size
  have last : offset + want - 1 < (offset + want - 1) / size * size + size :=
    Nat.lt_div_mul_add pos
  have ordered : offset / size ≤ (offset + want - 1) / size :=
    Nat.div_le_div_right (by omega)
  have span : ((offset + want - 1) / size - offset / size + 1) * size
      = ((offset + want - 1) / size + 1) * size - offset / size * size := by
    rw [← Nat.sub_mul]
    congr 1
    omega
  rw [span, Nat.succ_mul]
  omega

/-- A run of a map's entries is written without changing how long it is. -/
theorem length_placeRange (first lo hi : Nat) (value : Nat → Nat) (map : List Nat)
    : (placeRange first lo hi value map).length = map.length := by
  refine List.foldlRecOn (motive := fun placed : List Nat => placed.length = map.length)
    (List.range' lo (hi - lo)) _ rfl ?_
  intro placed sized logical _
  rw [List.length_set, sized]

namespace Reader

variable (self : Reader)

/-- Bytes read from the filesystem are as many as were asked for. -/
theorem length_readAt {offset len : Nat} {bytes : Bytes} (some_ : 0 < len)
    (read : self.readAt offset len = .ok bytes) : bytes.length = len := by
  have inside := self.inside_of_readAt some_ read
  rw [self.readAt_eq inside some_] at read
  cases copied : self.copiesOf (offset / self.blockSize)
      ((offset + len - 1) / self.blockSize) with
  | error error =>
      rw [copied] at read
      cases read
  | ok blocks =>
      rw [copied] at read
      cases read
      rw [length_slice (by rw [length_putBlocks, self.length_homeImage]; exact inside)]

/-- A block is as long as a block. -/
theorem length_block {n : Nat} {bytes : Bytes} (read : self.block n = .ok bytes)
    : bytes.length = self.blockSize := by
  have sized := self.blockSized
  obtain ⟨-, -, read⟩ := bind_eq_ok.mp read
  split at read
  · cases read
  · next start _ =>
      cases answered : self.readAt start self.blockSize with
      | ok got =>
          rw [answered] at read
          cases read
          exact self.length_readAt (by omega) answered
      | error error =>
          rw [answered] at read
          cases error <;> cases read

/-- A map's entry is read as one block. -/
theorem length_mappedBlock {phys : Nat} {bytes : Bytes} (read : self.mappedBlock phys = .ok bytes)
    : bytes.length = self.blockSize := by
  simp only [mappedBlock] at read
  split at read
  · cases read
    exact List.length_replicate
  · exact self.length_block read

/-- A run read at once is as long as its blocks. -/
theorem length_readRun {run : Run} {bytes : Bytes} (read : self.readRun run = .ok (some bytes))
    : bytes.length = run.len * self.blockSize := by
  have sized := self.blockSized
  simp only [readRun] at read
  split at read
  · cases read
  · next at_once =>
      split at read
      · next start len _ measured =>
          simp only [offsetOf, Nat.zero_add] at measured
          split at measured
          · cases measured
            cases answered : self.readAt start (run.len * self.blockSize) with
            | error error =>
                rw [answered] at read
                cases read
            | ok got =>
                rw [answered] at read
                cases read
                have long : 2 ≤ run.len := by
                  simp only [not_or, Nat.not_lt] at at_once
                  exact at_once.2.1
                exact self.length_readAt (Nat.mul_pos (by omega) (by omega)) answered
          · cases measured
      · cases read

/-- Placing a map's entries one at a time fills the window as far as they reach, by induction on
the entries.
-/
theorem length_placeBlocks {want : Nat} {map : List Nat} {before after : Filling}
    (short : before.filled.length < want) (within : before.skip < self.blockSize)
    (placed : self.placeBlocks want map before = .ok after)
    : after.filled.length
        = min want (before.filled.length + (map.length * self.blockSize - before.skip))
      ∧ (map ≠ [] → after.skip = 0) := by
  induction map generalizing before with
  | nil =>
      cases placed
      simp only [List.length_nil, Nat.zero_mul, Nat.zero_sub, ne_eq, not_true_eq_false,
        IsEmpty.forall_iff, and_true]
      omega
  | cons phys rest ih =>
      obtain ⟨block, read, placed⟩ := bind_eq_ok.mp placed
      have long := self.length_mappedBlock read
      have grown := before.length_place want (long ▸ Nat.le_of_lt within)
      rw [long] at grown
      simp only [List.length_cons, Nat.succ_mul]
      dsimp only at placed
      split at placed
      · next full =>
          cases placed
          exact ⟨by omega, fun _ => rfl⟩
      · next more =>
          have reached := ih (Nat.lt_of_not_le more) (Nat.zero_lt_of_lt within) placed
          have skipped : (before.place want block).skip = 0 := rfl
          rw [skipped] at reached
          refine ⟨by omega, fun _ => ?_⟩
          cases rest with
          | nil =>
              cases placed
              rfl
          | cons next rest => exact reached.2 (List.cons_ne_nil _ _)

/-- Placing a run fills the window as far as it reaches. -/
theorem length_placeRun {map : List Nat} {want : Nat} {run : Run} {before after : Filling}
    (short : before.filled.length < want) (within : before.skip < self.blockSize)
    (some_ : 0 < run.len) (inside : run.at_ + run.len ≤ map.length)
    (placed : self.placeRun map want run before = .ok after)
    : after.filled.length
        = min want (before.filled.length + (run.len * self.blockSize - before.skip))
      ∧ after.skip = 0 := by
  obtain ⟨answer, read, placed⟩ := bind_eq_ok.mp placed
  cases answer with
  | some bytes =>
      have long := self.length_readRun read
      have reach : self.blockSize ≤ run.len * self.blockSize := Nat.le_mul_of_pos_left _ some_
      cases placed
      have grown := before.length_place want (by rw [long]; omega : before.skip ≤ bytes.length)
      rw [long] at grown
      exact ⟨by omega, rfl⟩
  | none =>
      have window : (slice map run.at_ run.len).length = run.len := length_slice inside
      have ⟨reached, skipped⟩ := self.length_placeBlocks short within placed
      rw [window] at reached
      exact ⟨reached, skipped (List.ne_nil_of_length_pos (by rw [window]; exact some_))⟩

/-- Placing a map's runs fills the window as far as they reach, by induction on the runs. -/
theorem length_placeRuns {map : List Nat} {want : Nat} {out : List Run} {lo : Nat}
    (laid : Laid lo out map.length) (most : lo ≤ map.length) {before after : Filling}
    (short : before.filled.length < want) (within : before.skip < self.blockSize)
    (placed : self.placeRuns map want out before = .ok after)
    : after.filled.length
      = min want (before.filled.length + ((map.length - lo) * self.blockSize - before.skip)) := by
  induction out generalizing lo before with
  | nil =>
      cases placed
      have ended : lo = map.length := laid
      rw [ended, Nat.sub_self, Nat.zero_mul, Nat.zero_sub]
      omega
  | cons run rest ih =>
      obtain ⟨rfl, some_, others⟩ := laid
      have ends : run.at_ + run.len ≤ map.length := laid_le others
      obtain ⟨middle, first, placed⟩ := bind_eq_ok.mp placed
      have ⟨reached, skipped⟩ := self.length_placeRun short within some_ ends first
      have split_ : (map.length - run.at_) * self.blockSize
          = run.len * self.blockSize + (map.length - (run.at_ + run.len)) * self.blockSize := by
        rw [← Nat.add_mul]
        congr 1
        omega
      have reach : self.blockSize ≤ run.len * self.blockSize := Nat.le_mul_of_pos_left _ some_
      split at placed
      · next full =>
          cases placed
          omega
      · next more =>
          have on := ih others ends (Nat.lt_of_not_le more) (skipped ▸ Nat.zero_lt_of_lt within)
            placed
          rw [skipped] at on
          omega

/-- The leaves of a tree are placed in a map without changing how long it is. -/
theorem length_extentWindow {inode : Inode} {first : Nat} {map out : List Nat}
    (mapped : self.extentWindow inode first map = .ok out) : out.length = map.length := by
  obtain ⟨leaves, -, mapped⟩ := bind_eq_ok.mp mapped
  cases mapped
  refine List.foldlRecOn (motive := fun placed : List Nat => placed.length = map.length) leaves _ rfl ?_
  intro placed sized leaf _
  dsimp only
  split
  · exact sized
  · exact (length_placeRange _ _ _ _ _).trans sized

/-- An indirect block is placed in a map without changing how long it is, by induction on the
levels below it.
-/
theorem length_walkIndirectWindow {first : Nat} (below : Nat) {block base : Nat}
    {map out : List Nat} (mapped : self.walkIndirectWindow first below block base map = .ok out)
    : out.length = map.length := by
  induction below generalizing block base map out with
  | zero =>
      rw [walkIndirectWindow] at mapped
      split at mapped
      · cases mapped
        rfl
      · obtain ⟨buf, -, mapped⟩ := bind_eq_ok.mp mapped
        refine @foldlM_invariant _ _ _ _ (fun placed => placed.length = map.length) _ ?_ _ _ rfl
          mapped
        intro before i after sized turn
        split at turn
        · cases turn
          exact sized
        · dsimp only at turn
          split at turn
          all_goals
            obtain ⟨-, -, turn⟩ := bind_eq_ok.mp turn
            cases turn
            rw [List.length_set, sized]
  | succ below ih =>
      rw [walkIndirectWindow] at mapped
      split at mapped
      · cases mapped
        rfl
      · obtain ⟨buf, -, mapped⟩ := bind_eq_ok.mp mapped
        refine @foldlM_invariant _ _ _ _ (fun placed => placed.length = map.length) _ ?_ _ _ rfl
          mapped
        intro before i after sized turn
        split at turn
        · cases turn
          exact sized
        · exact (ih turn).trans sized

/-- The indirect levels of a classic map are placed without changing how long it is, by induction
on the levels.
-/
theorem length_blockMapLevels {inode : Inode} {first : Nat} {levels : List Nat} {base : Nat}
    {map out : List Nat} (mapped : self.blockMapLevels inode first levels base map = .ok out)
    : out.length = map.length := by
  induction levels generalizing base map with
  | nil =>
      cases mapped
      rfl
  | cons below levels ih =>
      rw [blockMapLevels] at mapped
      split at mapped
      · cases mapped
        rfl
      · dsimp only at mapped
        split at mapped
        · obtain ⟨next, walked, mapped⟩ := bind_eq_ok.mp mapped
          exact (ih mapped).trans (self.length_walkIndirectWindow below walked)
        · obtain ⟨next, same, mapped⟩ := bind_eq_ok.mp mapped
          cases same
          exact ih mapped

/-- A window's map has an entry for each of its blocks. -/
theorem length_mapWindow {inode : Inode} {first count : Nat} {out : List Nat}
    (mapsData : inode.mapsData self.blockSize = true)
    (mapped : self.mapWindow inode first count = .ok out) : out.length = count := by
  simp only [mapWindow, mapsData, Bool.true_eq_false, or_false] at mapped
  split at mapped
  · next none_ =>
      cases mapped
      rw [none_, List.length_nil]
  · split at mapped
    · rw [self.length_extentWindow mapped, List.length_replicate]
    · obtain ⟨direct, placed, mapped⟩ := bind_eq_ok.mp mapped
      rw [self.length_blockMapLevels mapped]
      refine @foldlM_invariant _ _ _ _ (fun map => map.length = count) _ ?_ _ _
        List.length_replicate placed
      intro before i after sized turn
      dsimp only at turn
      split at turn
      all_goals
        obtain ⟨-, -, turn⟩ := bind_eq_ok.mp turn
        cases turn
        rw [List.length_set, sized]

/-- A window of a file that was read is as full as the file's size lets it be. -/
theorem length_readInto {inode : Inode} {offset len : Nat} {bytes : Bytes}
    (read : self.readInto inode offset len = .ok bytes)
    : bytes.length = min len (self.fileLen inode - offset) := by
  have sized := self.blockSized
  simp only [readInto] at read
  split at read
  · cases read
    simp only [List.length_nil]
    omega
  · next inside =>
      obtain ⟨map, mapped, read⟩ := bind_eq_ok.mp read
      obtain ⟨filling, placed, read⟩ := bind_eq_ok.mp read
      cases read
      have mapsData : inode.mapsData self.blockSize = true := by
        by_contra unmapped
        simp only [fileLen, Bool.not_eq_true _ ▸ unmapped, if_true] at inside
        omega
      have long := self.length_mapWindow mapsData mapped
      have within : offset % self.blockSize < self.blockSize := Nat.mod_lt _ (by omega)
      have filled := self.length_placeRuns (laid_runs map self.maxRunBlocks) (Nat.zero_le _)
        (by simp only [List.length_nil]; omega) within placed
      have covered := window_covered self.blockSize (by omega) offset
        (min (self.fileLen inode - offset) len) (by omega)
      simp only [List.length_nil, Nat.zero_add, Nat.sub_zero, long] at filled
      omega

/-- A regular file is read exactly, whatever its map holds. -/
theorem length_readBytes {inode : Inode} {offset len : Nat} {bytes : Bytes}
    (regular : inode.mode &&& typeMask = typeRegular)
    (read : self.readBytes inode offset len = .ok bytes)
    : bytes.length = min len (self.fileLen inode - offset) := by
  simp only [readBytes, regular, ne_eq, not_true_eq_false, if_false] at read
  exact self.length_readInto read

/-- A node a walk reports as a file is a regular one, and its length is the reported one. -/
theorem treeKind_eq_file {inode : Inode} {size : Fin (2 ^ 64)}
    (kind : self.treeKind inode = some (.file size))
    : inode.mode &&& typeMask = typeRegular ∧ self.fileLen inode = size.val := by
  simp only [treeKind] at kind
  split at kind
  case h_2 regular =>
    cases kind
    exact ⟨regular, rfl⟩
  all_goals cases kind

end Reader

end Ferrosys.Ext
