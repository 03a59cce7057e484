import Ferrosys.Ext.Materialize
import Ferrosys.Ext.Reader.Indirect
import Ferrosys.Ext.Reader.Overlay

/-! The classic map a writer builds: which blocks each step allocates and writes, and that the
words and the indirect blocks it leaves read back as the blocks it answered.
-/

namespace Ferrosys.Ext

open Checked Reader Splice

/-- A free run of one block ends after it. -/
theorem Allocator.freeRunEnd_one {a : Allocator} {start : Nat} (inside : start < a.totalBlocks)
    (free : a.isUsed start = false) : a.freeRunEnd start 1 = start + 1 := by
  have one : min (a.totalBlocks - start) 1 = 1 := by omega
  unfold freeRunEnd
  rw [one]
  unfold Bits.scanWhile
  simp [free, Bits.scanWhile]

/-- Gathering one block takes the first free one, where there is any. -/
theorem Allocator.gather_one (a : Allocator)
    : a.gather 1 1 a.cursor le_rfl
      = if a.nextFree a.cursor ≥ a.totalBlocks then .error 1
        else .ok ([⟨a.nextFree a.cursor, 1⟩], a.nextFree a.cursor + 1) := by
  unfold gather
  rw [dif_neg (by decide)]
  split
  next full => rfl
  next room =>
    have one := a.freeRunEnd_one (not_le.mp room) (a.isUsed_nextFree (not_le.mp room))
    simp only [one, Nat.add_sub_cancel_left]
    rfl

/-- Allocating one block hands out the first free block from the cursor on, marks it used, and
leaves the cursor past it.
-/
theorem Allocator.allocateOne_spec {a after : Allocator} {block : Nat}
    (ran : a.allocateOne = (.ok (some block), after))
    : a.cursor ≤ block ∧ block < a.totalBlocks ∧ a.isUsed block = false
      ∧ after.cursor = block + 1 ∧ after.totalBlocks = a.totalBlocks
      ∧ ∀ b, after.isUsed b = true ↔ a.isUsed b = true ∨ b = block := by
  unfold allocateOne allocate at ran
  rw [if_neg (by decide), a.gather_one] at ran
  by_cases full : a.nextFree a.cursor ≥ a.totalBlocks
  · rw [if_pos full] at ran
    cases ran
  · rw [if_neg full] at ran
    cases ran
    have same := a.markAll_sameShape [⟨a.nextFree a.cursor, 1⟩]
    refine ⟨(Bits.scanWhile_spec _ _ _).1, not_le.mp full, a.isUsed_nextFree (not_le.mp full), rfl,
      same.totalBlocks, ?_⟩
    intro b
    have marked := isUsed_markAll (a := a) [⟨a.nextFree a.cursor, 1⟩] b
    simp only [List.mem_singleton, exists_eq_left, Spans.Span.Holds, Spans.Span.stop_mk] at marked
    change (a.markAll _).isUsed b = true ↔ _
    rw [marked]
    exact or_congr_right (by dsimp only; omega)

namespace BlockRuns

/-- The count kept beside the runs is theirs. -/
def Counted (self : BlockRuns) : Prop := self.count = self.blocks.length

/-- Appending a block appends it, whichever run it joins. -/
theorem blocks_push (self : BlockRuns) (block : Nat)
    : (self.push block).blocks = self.blocks ++ [block] := by
  unfold push blocks
  dsimp only
  split
  next run last =>
    have ends := List.dropLast_append_getLast? run last
    rw [← ends]
    split
    next follows =>
      simp [List.flatMap_append, List.range'_concat, follows]
    next apart => simp [List.flatMap_append]
  next empty =>
    rw [List.getLast?_eq_none_iff.mp empty]
    rfl

end BlockRuns

/-- The bytes of block `b` of a writer's destination. -/
def Writer.blockAt (self : Writer) (b : Nat) : Bytes :=
  slice self.image (b * self.blockSize) self.blockSize

namespace MapBuild

/-- A build under way: it has handed a block out, so no later block is block zero, and it has
counted the blocks it mapped.
-/
structure Ready (build : MapBuild) : Prop where
  started : 0 < build.writer.alloc.cursor
  counted : build.physical.Counted

/-- What steps of a build do: they allocate `added` for data and `indirect` for the map, each once,
in increasing order, mark those used and nothing else, and write no block but the indirect ones.
-/
structure Step (before after : MapBuild) (added indirect : List Nat) : Prop where
  blockSize : after.writer.blockSize = before.writer.blockSize
  feature : after.writer.feature = before.writer.feature
  totalBlocks : after.writer.alloc.totalBlocks = before.writer.alloc.totalBlocks
  physical : after.physical.blocks = before.physical.blocks ++ added
  count : after.physical.count = before.physical.count + added.length
  charged : after.indirect = before.indirect + indirect.length
  moves : before.writer.alloc.cursor ≤ after.writer.alloc.cursor
  handed : ∃ handed : List Nat, handed.Pairwise (· < ·) ∧ handed.Perm (added ++ indirect)
  fresh : ∀ b ∈ added ++ indirect,
    before.writer.alloc.cursor ≤ b ∧ b < after.writer.alloc.cursor
    ∧ b < before.writer.alloc.totalBlocks ∧ before.writer.alloc.isUsed b = false
  used : ∀ b, after.writer.alloc.isUsed b = true
    ↔ before.writer.alloc.isUsed b = true ∨ b ∈ added ++ indirect
  kept : ∀ b, b ∉ indirect → after.writer.blockAt b = before.writer.blockAt b

theorem Step.refl (self : MapBuild) : Step self self [] [] where
  blockSize := rfl
  feature := rfl
  totalBlocks := rfl
  physical := (List.append_nil _).symm
  count := rfl
  charged := rfl
  moves := le_rfl
  handed := ⟨[], .nil, .refl _⟩
  fresh := nofun
  used b := by simp
  kept _ _ := rfl

/-- Steps follow one another: what the second hands out lies past what the first did. -/
theorem Step.trans {first second third : MapBuild} {added added' indirect indirect' : List Nat}
    (step : Step first second added indirect) (next : Step second third added' indirect')
    : Step first third (added ++ added') (indirect ++ indirect') where
  blockSize := next.blockSize.trans step.blockSize
  feature := next.feature.trans step.feature
  totalBlocks := next.totalBlocks.trans step.totalBlocks
  physical := by rw [next.physical, step.physical, List.append_assoc]
  count := by rw [next.count, step.count, List.length_append, Nat.add_assoc]
  charged := by rw [next.charged, step.charged, List.length_append, Nat.add_assoc]
  moves := step.moves.trans next.moves
  handed := by
    obtain ⟨handed, ordered, perm⟩ := step.handed
    obtain ⟨handed', ordered', perm'⟩ := next.handed
    refine ⟨handed ++ handed', List.pairwise_append.mpr ⟨ordered, ordered', ?_⟩, ?_⟩
    · intro b member b' member'
      have low := (step.fresh b (perm.mem_iff.mp member)).2.1
      have high := (next.fresh b' (perm'.mem_iff.mp member')).1
      omega
    · refine (perm.append perm').trans (List.perm_iff_count.mpr fun b => ?_)
      simp only [List.count_append]
      omega
  fresh := by
    intro b member
    rcases List.mem_append.mp (by grind : b ∈ (added ++ indirect) ++ (added' ++ indirect')) with
      first | second
    · obtain ⟨low, high, inside, free⟩ := step.fresh b first
      exact ⟨low, high.trans_le next.moves, inside, free⟩
    · obtain ⟨low, high, inside, free⟩ := next.fresh b second
      refine ⟨step.moves.trans low, high, step.totalBlocks ▸ inside, ?_⟩
      have unused := mt (step.used b).mpr (by simpa using free)
      simpa using (not_or.mp unused).1
  used b := by
    rw [next.used, step.used]
    simp only [List.mem_append]
    grind
  kept b out := by
    rw [List.mem_append, not_or] at out
    rw [next.kept b out.2, step.kept b out.1]

theorem Step.counted {before after : MapBuild} {added indirect : List Nat}
    (step : Step before after added indirect) (counted : before.physical.Counted)
    : after.physical.Counted := by
  unfold BlockRuns.Counted at counted ⊢
  rw [step.physical, step.count, List.length_append, counted]

theorem Step.ready {before after : MapBuild} {added indirect : List Nat}
    (step : Step before after added indirect) (ready : before.Ready) : after.Ready where
  started := ready.started.trans_le step.moves
  counted := step.counted ready.counted

/-- Writing an indirect block that was allocated. -/
theorem Step.write {before after : MapBuild} {added indirect : List Nat}
    (step : Step before after added indirect) {block : Nat} (member : block ∈ indirect)
    {data : Bytes} (sized : data.length = after.writer.blockSize)
    : Step before { after with writer := after.writer.writeBlock block data } added indirect :=
  { step with
    kept := by
      intro b out
      have apart : block ≠ b := fun same => out (same ▸ member)
      exact (slice_putBlock_of_ne sized apart).trans (step.kept b out) }

/-- A finished file fits what a build has done: its blocks go on from those mapped, and the indirect
blocks built are among its nodes and hold what was written.
-/
structure Fits (build : MapBuild) (n : Nat) (indirect : List Nat) (contents : Nat → Bytes)
    (nodes final : List Nat) : Prop where
  length : final.length = n
  mapped : build.physical.blocks <+: final
  written : ∀ b ∈ indirect, b ∈ nodes ∧ contents b = build.writer.blockAt b

/-- A file that fits what further steps have done fits what was done before them. -/
theorem Fits.before {before after : MapBuild} {n : Nat} {earlier added indirect : List Nat}
    {contents : Nat → Bytes} {nodes final : List Nat} (step : Step before after added indirect)
    (past : ∀ b ∈ earlier, b < before.writer.alloc.cursor)
    (fits : after.Fits n (earlier ++ indirect) contents nodes final)
    : before.Fits n earlier contents nodes final where
  length := fits.length
  mapped := (step.physical ▸ List.prefix_append _ _).trans fits.mapped
  written b member := by
    obtain ⟨isNode, held⟩ := fits.written b (List.mem_append_left _ member)
    have later : b ∉ indirect := by
      intro again
      have low := (step.fresh b (List.mem_append_right _ again)).1
      have high := past b member
      omega
    exact ⟨isNode, held.trans (step.kept b later)⟩

theorem Fits.here {build : MapBuild} {n : Nat} {earlier indirect : List Nat}
    {contents : Nat → Bytes} {nodes final : List Nat}
    (fits : build.Fits n (earlier ++ indirect) contents nodes final)
    : build.Fits n indirect contents nodes final where
  length := fits.length
  mapped := fits.mapped
  written b member := fits.written b (List.mem_append_right _ member)

/-- Building a word with `height` levels under it: data blocks are mapped up to what the word
reaches or the data's end, and the word denotes them in every file that fits.
-/
def Builds (n height : Nat) (before : MapBuild) (word : Nat) (after : MapBuild) : Prop :=
  ∃ added indirect, Step before after added indirect
    ∧ after.physical.count
      = min n (before.physical.count + (before.writer.blockSize / 4) ^ height)
    ∧ ∀ contents nodes final, after.Fits n indirect contents nodes final →
      Denotes (before.writer.blockSize / 4) contents nodes final height word
        before.physical.count

/-- What allocating one block does to a writer. -/
structure Allocates (writer : Writer) (block : Nat) (after : Writer) : Prop where
  blockSize : after.blockSize = writer.blockSize
  feature : after.feature = writer.feature
  image : after.image = writer.image
  totalBlocks : after.alloc.totalBlocks = writer.alloc.totalBlocks
  low : writer.alloc.cursor ≤ block
  cursor : after.alloc.cursor = block + 1
  inside : block < writer.alloc.totalBlocks
  free : writer.alloc.isUsed block = false
  used : ∀ b, after.alloc.isUsed b = true ↔ writer.alloc.isUsed b = true ∨ b = block

theorem allocates_of_allocateOne {writer after : Writer} {block : Nat}
    (ran : writer.allocateOne = .ok (block, after)) : Allocates writer block after := by
  unfold Writer.allocateOne at ran
  split at ran <;> cases ran
  next alloc taken =>
    obtain ⟨low, inside, free, cursor, total, used⟩ := Allocator.allocateOne_spec taken
    exact ⟨rfl, rfl, rfl, total, low, cursor, inside, free, used⟩

theorem Allocates.blockAt {writer after : Writer} {block : Nat}
    (allocates : Allocates writer block after) (b : Nat) : after.blockAt b = writer.blockAt b := by
  rw [Writer.blockAt, allocates.image, allocates.blockSize, Writer.blockAt]

/-- Mapping a data block builds a word of no levels. -/
theorem mapData_builds {n : Nat} {before after : MapBuild} {block : Nat}
    (counted : before.physical.Counted) (short : before.physical.count < n)
    (ran : before.mapData = .ok (block, after))
    : Builds n 0 before block after := by
  obtain ⟨⟨phys, writer⟩, allocated, done⟩ := bind_eq_ok.mp ran
  cases done
  have taken := allocates_of_allocateOne allocated
  have step : Step before
      { before with writer := writer, physical := before.physical.push block } [block] [] :=
    {
      blockSize := taken.blockSize
      feature := taken.feature
      totalBlocks := taken.totalBlocks
      physical := BlockRuns.blocks_push _ _
      count := rfl
      charged := rfl
      moves := by rw [taken.cursor]; exact taken.low.trans (Nat.le_succ block)
      handed := ⟨[block], List.pairwise_singleton _ _, .refl _⟩
      fresh := by
        intro b member
        obtain rfl := List.mem_singleton.mp member
        exact ⟨taken.low, taken.cursor ▸ Nat.lt_succ_self b, taken.inside, taken.free⟩
      used := by simpa using taken.used
      kept := fun b _ => taken.blockAt b
    }
  refine ⟨[block], [], step, ?_, ?_⟩
  · change before.physical.count + 1 = _
    rw [Nat.pow_zero]
    omega
  · intro contents nodes final fits
    have mapped := fits.mapped
    rw [step.physical] at mapped
    obtain ⟨rest, rfl⟩ := mapped
    change block = physicalOf _ _
    rw [physicalOf, counted, List.append_assoc]
    simp

/-- Entering an indirect block allocates it and charges it. -/
theorem enterIndirect_step {before after : MapBuild} {block : Nat}
    (ran : before.enterIndirect = .ok (block, after))
    : Step before after [] [block] ∧ after.physical = before.physical
      ∧ block < after.writer.alloc.cursor := by
  obtain ⟨⟨phys, writer⟩, allocated, done⟩ := bind_eq_ok.mp ran
  cases done
  have taken := allocates_of_allocateOne allocated
  refine ⟨?_, rfl, taken.cursor ▸ Nat.lt_succ_self block⟩
  exact {
    blockSize := taken.blockSize
    feature := taken.feature
    totalBlocks := taken.totalBlocks
    physical := (List.append_nil _).symm
    count := rfl
    charged := rfl
    moves := by rw [taken.cursor]; exact taken.low.trans (Nat.le_succ block)
    handed := ⟨[block], List.pairwise_singleton _ _, .refl _⟩
    fresh := by
      intro b member
      obtain rfl := List.mem_singleton.mp member
      exact ⟨taken.low, taken.cursor ▸ Nat.lt_succ_self b, taken.inside, taken.free⟩
    used := by simpa using taken.used
    kept := fun b _ => taken.blockAt b
  }

theorem mapBlock_eq_ok {block word : Nat} (ran : mapBlock block = .ok word)
    : word = block ∧ block < 2 ^ 32 := by
  unfold mapBlock at ran
  split at ran <;> cases ran
  next small => exact ⟨rfl, small⟩

/-- The first `k` words of a buffer of words, built one after another since `entered`: word `j` has
`height j` levels under it and maps the logical blocks from `base j` on, and the words after them
are blank.
-/
def WordsBuilt (n len : Nat) (height base : Nat → Nat) (entered : MapBuild) (k : Nat)
    (state : Bytes × MapBuild) : Prop :=
  ∃ added indirect, Step entered state.2 added indirect
    ∧ state.1.length = len
    ∧ state.2.physical.count = min n (base k)
    ∧ (∀ j, k ≤ j → getU32 state.1 (j * 4) = 0)
    ∧ ∀ contents nodes final, state.2.Fits n indirect contents nodes final →
      ∀ j < k, Denotes (entered.writer.blockSize / 4) contents nodes final (height j)
        (getU32 state.1 (j * 4)) (base j)

variable {n len k : Nat} {height base : Nat → Nat} {entered build after : MapBuild} {words : Bytes}

/-- Building one more word. -/
theorem WordsBuilt.next {child word : Nat} (within : k * 4 + 4 ≤ len)
    (climbs : base (k + 1) = base k + (entered.writer.blockSize / 4) ^ height k)
    (built : WordsBuilt n len height base entered k (words, build))
    (short : build.physical.count < n) (child_ : Builds n (height k) build child after)
    (mapped : mapBlock child = .ok word)
    : WordsBuilt n len height base entered (k + 1) (putU32 words (k * 4) word, after) := by
  obtain ⟨added, indirect, step, length, count, blank, denotes⟩ := built
  obtain ⟨added', indirect', step', count', denotes'⟩ := child_
  obtain ⟨rfl, small⟩ := mapBlock_eq_ok mapped
  dsimp only at length count blank
  rw [step.blockSize] at count' denotes'
  have whole : build.physical.count = base k := by omega
  refine ⟨added ++ added', indirect ++ indirect', step.trans step', ?_, ?_, ?_, ?_⟩
  · rw [length_putU32, length]
  · dsimp only
    rw [count', whole, climbs]
  · intro j past
    dsimp only
    rw [getU32_putU32_of_apart (by omega), blank j (by omega)]
  · intro contents nodes final fits j below
    dsimp only
    rcases Nat.lt_succ_iff_lt_or_eq.mp below with earlier | rfl
    · rw [getU32_putU32_of_apart (by omega)]
      have past : ∀ b ∈ indirect, b < build.writer.alloc.cursor :=
        fun b member => (step.fresh b (List.mem_append_right _ member)).2.1
      exact denotes contents nodes final (fits.before step' past) j earlier
    · rw [getU32_putU32 (by omega), Nat.mod_eq_of_lt small, ← whole]
      exact denotes' contents nodes final fits.here

/-- Words past the data's end are left blank, and map nothing, by induction on how many there are. -/
theorem WordsBuilt.skip {k' : Nat} (climbs : ∀ j, base j ≤ base (j + 1))
    (built : WordsBuilt n len height base entered k (words, build))
    (done : build.physical.count ≥ n) (up : k ≤ k')
    : WordsBuilt n len height base entered k' (words, build) := by
  induction up with
  | refl => exact built
  | @step k' _ ih =>
      obtain ⟨added, indirect, step, length, count, blank, denotes⟩ := ih
      dsimp only at length count blank
      have more := climbs k'
      refine ⟨added, indirect, step, length, ?_, fun j past => blank j (by omega), ?_⟩
      · change build.physical.count = min n (base (k' + 1))
        omega
      · intro contents nodes final fits j below
        rcases Nat.lt_succ_iff_lt_or_eq.mp below with earlier | rfl
        · exact denotes contents nodes final fits j earlier
        · dsimp only
          rw [blank j le_rfl]
          have length := fits.length
          exact denotes_zero (by omega)

/-- Where a node's words begin: `below` levels under each, from logical block `start` on. -/
def slotBase (perBlock below start : Nat) (j : Nat) : Nat := start + j * perBlock ^ below

/-- A node whose slots are all filled, once it is written where it was entered. -/
theorem WordsBuilt.node {below root : Nat} {before : MapBuild} {ptrs : Bytes}
    (ready : before.Ready) (entry : Step before entered [] [root])
    (same : entered.physical = before.physical) (past : root < entered.writer.alloc.cursor)
    (built : WordsBuilt n entered.writer.blockSize (fun _ => below)
      (slotBase (entered.writer.blockSize / 4) below entered.physical.count) entered
      (entered.writer.blockSize / 4) (ptrs, build))
    : Builds n (below + 1) before root
        { build with writer := build.writer.writeBlock root ptrs } := by
  obtain ⟨added, indirect, step, length, count, blank, denotes⟩ := built
  dsimp only at length count blank denotes
  have sized : ptrs.length = build.writer.blockSize := length.trans step.blockSize.symm
  have both := (entry.trans step).write List.mem_cons_self sized
  have isRoot := entry.fresh root List.mem_cons_self
  refine ⟨added, root :: indirect, both, ?_, ?_⟩
  · dsimp only
    rw [count, slotBase, same, entry.blockSize, Nat.pow_succ']
  · intro contents nodes final fits
    obtain ⟨isNode, held⟩ := fits.written root List.mem_cons_self
    have notZero : root ≠ 0 := by
      have started := ready.started
      omega
    have inside : root * build.writer.blockSize + build.writer.blockSize
        ≤ build.writer.image.length := by
      rw [build.writer.whole, step.totalBlocks, entry.totalBlocks, ← Nat.succ_mul]
      exact Nat.mul_le_mul_right _ isRoot.2.2.1
    have contentsRoot : contents root = ptrs :=
      held.trans (slice_putBlock_self sized inside)
    have fitsBuild : build.Fits n indirect contents nodes final :=
      {
        length := fits.length
        mapped := fits.mapped
        written := by
          intro b member
          obtain ⟨isNode, held⟩ := fits.written b (List.mem_cons_of_mem _ member)
          have low := (step.fresh b (List.mem_append_right _ member)).1
          have apart : root ≠ b := by omega
          exact ⟨isNode, held.trans (slice_putBlock_of_ne sized apart)⟩
      }
    refine .inr ⟨notZero, isNode, ?_⟩
    intro i within
    rw [contentsRoot, ← same, ← entry.blockSize]
    rw [← entry.blockSize] at within
    exact denotes contents nodes final fitsBuild i within

/-- The loop over a node's slots, by whatever builds a word for each. -/
theorem slotLoop_built {below : Nat} {ptrs : Bytes}
    {child : MapBuild → Except FormatError (Nat × MapBuild)}
    (builds : ∀ {build after : MapBuild} {word : Nat}, build.Ready → build.physical.count < n →
      child build = .ok (word, after) → Builds n below build word after)
    (ready : entered.Ready) (short : entered.physical.count < n)
    (ran : (List.range (entered.writer.blockSize / 4)).foldlM
        (fun ((ptrs, build) : Bytes × MapBuild) slot =>
          if build.physical.count ≥ n then Except.ok (ptrs, build)
          else do
            let (block, build) ← child build
            let word ← mapBlock block
            return (putU32 ptrs (slot * 4) word, build))
        (List.replicate entered.writer.blockSize 0, entered)
      = .ok (ptrs, build))
    : WordsBuilt n entered.writer.blockSize (fun _ => below)
        (slotBase (entered.writer.blockSize / 4) below entered.physical.count) entered
        (entered.writer.blockSize / 4) (ptrs, build) := by
  have climbs (j : Nat) : slotBase (entered.writer.blockSize / 4) below entered.physical.count
      (j + 1) = slotBase (entered.writer.blockSize / 4) below entered.physical.count j
        + (entered.writer.blockSize / 4) ^ below := by
    rw [slotBase, slotBase, Nat.succ_mul, Nat.add_assoc]
  refine @foldlM_range_invariant _ _ _ (WordsBuilt n _ _ _ entered) _ ?_ _ _ ?_ ran
  · rintro i within ⟨ptrs, build⟩ ⟨ptrs', build'⟩ built turn
    dsimp only at turn
    split at turn
    next done =>
      cases turn
      exact built.skip (fun j => climbs j ▸ Nat.le_add_right _ _) done (Nat.le_succ i)
    next more =>
      obtain ⟨⟨block, after⟩, ran, rest⟩ := bind_eq_ok.mp turn
      obtain ⟨word, mapped, done⟩ := bind_eq_ok.mp rest
      cases done
      have readyBuild : build.Ready := by
        obtain ⟨_, _, step, -⟩ := built
        exact step.ready ready
      exact built.next (by omega) (climbs i) (not_le.mp more)
        (builds readyBuild (not_le.mp more) ran) mapped
  · refine ⟨[], [], .refl entered, List.length_replicate, ?_, fun j _ => getU32_replicate _ _,
      fun _ _ _ _ j below => absurd below (Nat.not_lt_zero j)⟩
    dsimp only [slotBase]
    omega

/-- Building an indirect block builds a word with a level more than its slots have, by induction on
the levels of indirection under it.
-/
theorem buildIndirect_builds {below : Nat} {before : MapBuild} {root : Nat}
    (ready : before.Ready) (short : before.physical.count < n)
    (ran : buildIndirect n below before = .ok (root, after))
    : Builds n (below + 1) before root after := by
  induction below generalizing before after root with
  | zero =>
      unfold buildIndirect at ran
      obtain ⟨⟨block, entered⟩, entry, rest⟩ := bind_eq_ok.mp ran
      obtain ⟨⟨ptrs, build⟩, looped, done⟩ := bind_eq_ok.mp rest
      cases done
      obtain ⟨step, same, past⟩ := enterIndirect_step entry
      exact WordsBuilt.node ready step same past
        (slotLoop_built
          (fun ready => mapData_builds ready.counted)
          (step.ready ready) (same ▸ short) looped)
  | succ below ih =>
      unfold buildIndirect at ran
      obtain ⟨⟨block, entered⟩, entry, rest⟩ := bind_eq_ok.mp ran
      obtain ⟨⟨ptrs, build⟩, looped, done⟩ := bind_eq_ok.mp rest
      cases done
      obtain ⟨step, same, past⟩ := enterIndirect_step entry
      exact WordsBuilt.node ready step same past
        (slotLoop_built ih (step.ready ready) (same ▸ short) looped)

/-- How many levels the words of a block area have under them, and where each begins. -/
def wordHeight (j : Nat) : Nat := j - (directBlocks - 1)
def wordBase (perBlock j : Nat) : Nat :=
  if j ≤ directBlocks then j else levelBase perBlock (j - directBlocks)

theorem wordBase_succ (perBlock j : Nat)
    : wordBase perBlock (j + 1) = wordBase perBlock j + perBlock ^ wordHeight j := by
  unfold wordBase wordHeight
  rcases Nat.lt_trichotomy j directBlocks with direct | rfl | level
  · rw [if_pos (Nat.succ_le_of_lt direct), if_pos direct.le, Nat.sub_eq_zero_of_le (Nat.le_sub_one_of_lt direct),
      Nat.pow_zero]
  · rfl
  · obtain ⟨below, rfl⟩ := Nat.exists_eq_add_of_lt level
    rw [if_neg (by omega), if_neg (by omega),
      show directBlocks + below + 1 + 1 - directBlocks = (below + 1) + 1 by omega,
      show directBlocks + below + 1 - directBlocks = below + 1 by omega,
      show directBlocks + below + 1 - (directBlocks - 1) = below + 1 + 1 by
        simp only [directBlocks]; omega,
      levelBase]

/-- A block area whose words are all built maps every file that fits. -/
theorem mapsFile_of_words {contents : Nat → Bytes} {nodes final : List Nat} {perBlock : Nat}
    (reach : final.length ≤ levelBase perBlock indirectLevels)
    (denote : ∀ j < directBlocks + indirectLevels,
      Denotes perBlock contents nodes final (wordHeight j) (getU32 words (j * 4))
        (wordBase perBlock j))
    : Reader.MapsFile perBlock contents nodes final words where
  direct i within := by
    have word := denote i (by omega)
    rw [wordHeight, Nat.sub_eq_zero_of_le (Nat.le_sub_one_of_lt within), wordBase,
      if_pos within.le] at word
    exact word
  indirect below within := by
    have word := denote (directBlocks + below) (by omega)
    have levels : wordHeight (directBlocks + below) = below + 1 := by
      simp only [wordHeight, directBlocks]
      omega
    have starts : wordBase perBlock (directBlocks + below) = levelBase perBlock below := by
      unfold wordBase
      split
      next only =>
        obtain rfl : below = 0 := by omega
        rfl
      next => rw [Nat.add_sub_cancel_left]
    rwa [levels, starts] at word
  reach := reach

theorem wordBase_mono (perBlock j : Nat) : wordBase perBlock j ≤ wordBase perBlock (j + 1) :=
  wordBase_succ perBlock j ▸ Nat.le_add_right _ _

theorem wordBase_direct {perBlock j : Nat} (direct : j ≤ directBlocks) : wordBase perBlock j = j :=
  if_pos direct

/-- The words of a block area built so far over a file of `n` blocks. -/
def AreaBuilt (n : Nat) (start : MapBuild) : Nat → Bytes × MapBuild → Prop :=
  WordsBuilt n Inode.blockBytes wordHeight (wordBase (start.writer.blockSize / 4)) start

/-- The loop over the direct words. -/
theorem directLoop_built {start : MapBuild} (counted : start.physical.Counted)
    (nothing : start.physical.count = 0)
    (ran : (List.range (min n directBlocks)).foldlM
        (fun ((words, build) : Bytes × MapBuild) slot => do
          let (phys, build) ← mapData build
          let word ← mapBlock phys
          return (putU32 words (slot * 4) word, build))
        (List.replicate Inode.blockBytes 0, start)
      = .ok (words, build))
    : AreaBuilt n start (min n directBlocks) (words, build) := by
  refine @foldlM_range_invariant _ _ _ (AreaBuilt n start) _ ?_ _ _ ?_ ran
  · rintro i within ⟨words, build⟩ ⟨words', build'⟩ built turn
    obtain ⟨⟨phys, after⟩, ran, rest⟩ := bind_eq_ok.mp turn
    obtain ⟨word, mapped, done⟩ := bind_eq_ok.mp rest
    cases done
    have direct : i < directBlocks := by omega
    have flat : wordHeight i = 0 := Nat.sub_eq_zero_of_le (Nat.le_sub_one_of_lt direct)
    have state : build.physical.Counted ∧ build.physical.count < n := by
      obtain ⟨_, _, step, -, count, -⟩ := built
      dsimp only at count
      rw [wordBase_direct direct.le] at count
      exact ⟨step.counted counted, by omega⟩
    have room : i * 4 + 4 ≤ Inode.blockBytes := by
      simp only [Inode.blockBytes, directBlocks] at direct ⊢
      omega
    have child := mapData_builds state.1 state.2 ran
    exact built.next room (wordBase_succ _ i) state.2 (flat ▸ child) mapped
  · refine ⟨[], [], .refl start, List.length_replicate, ?_, fun j _ => getU32_replicate _ _,
      fun _ _ _ _ j below => absurd below (Nat.not_lt_zero j)⟩
    rw [wordBase_direct (Nat.zero_le _), nothing, Nat.min_zero]

/-- The loop over the words that hold the levels of indirection. -/
theorem levelLoop_built {start : MapBuild} {state : Bytes × MapBuild}
    (counted : start.physical.Counted) (nothing : start.physical.count = 0)
    (direct : AreaBuilt n start directBlocks state)
    (ran : (List.range indirectLevels).foldlM
        (fun ((words, build) : Bytes × MapBuild) below =>
          if build.physical.count ≥ n then Except.ok (words, build)
          else do
            let (root, build) ← buildIndirect n below build
            let word ← mapBlock root
            return (putU32 words ((directBlocks + below) * 4) word, build))
        state
      = .ok (words, build))
    : AreaBuilt n start (directBlocks + indirectLevels) (words, build) := by
  refine @foldlM_range_invariant _ _ _ (fun below => AreaBuilt n start (directBlocks + below)) _
    ?_ _ _ direct ran
  rintro below within ⟨words, build⟩ ⟨words', build'⟩ built turn
  dsimp only at turn
  split at turn
  next done =>
    cases turn
    exact built.skip (wordBase_mono _) done (Nat.le_succ _)
  next more =>
    obtain ⟨⟨root, after⟩, ran, rest⟩ := bind_eq_ok.mp turn
    obtain ⟨word, mapped, done⟩ := bind_eq_ok.mp rest
    cases done
    have levels : wordHeight (directBlocks + below) = below + 1 := by
      simp only [wordHeight, directBlocks]
      omega
    have ready : build.Ready := by
      obtain ⟨added, _, step, -, count, -⟩ := built
      dsimp only at step count
      have some_ : 0 < added.length := by
        have direct : directBlocks ≤ wordBase (start.writer.blockSize / 4)
            (directBlocks + below) := by
          have up := monotone_nat_of_le_succ (wordBase_mono (start.writer.blockSize / 4))
            (Nat.le_add_right directBlocks below)
          rwa [wordBase_direct le_rfl] at up
        have step := step.count
        have words : 0 < directBlocks := by decide
        omega
      obtain ⟨first, member⟩ := List.exists_mem_of_length_pos some_
      have handed := step.fresh first (List.mem_append_left _ member)
      exact ⟨by omega, step.counted counted⟩
    have room : (directBlocks + below) * 4 + 4 ≤ Inode.blockBytes := by
      simp only [Inode.blockBytes, directBlocks, indirectLevels] at within ⊢
      omega
    have child := buildIndirect_builds ready (not_le.mp more) ran
    exact built.next room (wordBase_succ _ _) (not_le.mp more) (levels ▸ child) mapped

end MapBuild

/-- A reader of the filesystem a writer is building: its blocks are the writer's, and the indirect
blocks of the map are as the writer left them, whatever was written elsewhere since.
-/
structure Writer.ReadBy (writer : Writer) (indirect : List Nat) (reader : Reader) : Prop where
  blockSize : reader.blockSize = writer.blockSize
  blocksCount : reader.sb.blocksCount = writer.alloc.totalBlocks
  whole : reader.sourceLen = writer.alloc.totalBlocks * writer.blockSize
  bare : reader.overlay.entries = []
  kept : ∀ b ∈ indirect,
    slice reader.homeImage (b * writer.blockSize) writer.blockSize = writer.blockAt b

/-- A reader of what a writer has written so far. -/
def Writer.reader (writer : Writer) (small : writer.image.length < 2 ^ 63) : Reader where
  src := writer.image
  base := 0
  sb :=
    {
      inodesCount := 0
      blocksCount := writer.alloc.totalBlocks
      firstDataBlock := writer.alloc.firstDataBlock
      logBlockSize := 0
      blocksPerGroup := writer.alloc.blocksPerGroup
      inodesPerGroup := 0
      state := 1
      revLevel := 1
      firstIno := goodOldFirstInode
      inodeSize := writer.feature.inodeSize
      featureCompat := writer.feature.compat
      featureIncompat := writer.feature.incompat
      featureRoCompat := writer.feature.roCompat
      journalInum := 0
      descSize := 0
      firstMetaBg := 0
      backupBgs := (0, 0)
    }
  sbRaw := slice writer.image 1024 SuperBlock.size
  feature := writer.feature
  blockSize := writer.blockSize
  policy := .strict
  maxFileBytes := 0
  tableCache := tableCache writer.blockSize
  needsRecovery := false
  stateOnDisk := 1
  journal := none
  bounded := small
  based := Nat.zero_le _
  blockSized := by have sized := writer.sized; omega

theorem Writer.readBy_reader (writer : Writer) (small : writer.image.length < 2 ^ 63)
    (indirect : List Nat) : writer.ReadBy indirect (writer.reader small) where
  blockSize := rfl
  blocksCount := rfl
  whole := writer.whole
  bare := rfl
  kept _ _ := rfl

/-- With no journal laid over it, a block of the filesystem reads as its home. -/
theorem Writer.ReadBy.block {writer : Writer} {indirect : List Nat} {reader : Reader}
    (readBy : writer.ReadBy indirect reader) {b : Nat} (member : b ∈ indirect)
    (inside : b < writer.alloc.totalBlocks) : reader.block b = .ok (writer.blockAt b) := by
  have reach : b * reader.blockSize + reader.blockSize ≤ reader.sourceLen := by
    rw [readBy.whole, readBy.blockSize, ← Nat.succ_mul]
    exact Nat.mul_le_mul_right _ inside
  have bounded : reader.sourceLen < 2 ^ 63 :=
    (Nat.sub_le _ _).trans_lt reader.bounded
  have read : reader.readAt (b * reader.blockSize) reader.blockSize = .ok (writer.blockAt b) := by
    unfold Reader.readAt
    rw [reader.readHome_eq reach, ok_bind, if_neg (by simp [readBy.bare]), readBy.blockSize,
      readBy.kept b member]
    rfl
  unfold Reader.block offsetOf
  have known : reader.checkBlock b = .ok () :=
    if_neg (not_le.mpr (readBy.blocksCount ▸ inside))
  rw [known, ok_bind, if_pos (by unfold u64Max; omega), Nat.zero_add]
  dsimp only
  rw [read]
  rfl

/-- A classic map's reach is where its last level ends. -/
theorem classicMapReach_eq (blockSize : Nat)
    : classicMapReach blockSize = levelBase (blockSize / 4) indirectLevels := by
  simp only [classicMapReach, levelBase, indirectLevels, directBlocks, Nat.reduceAdd,
    Nat.pow_succ, Nat.pow_zero, Nat.one_mul]

/-- A classic map reads back, through any window, as the blocks it was built over, and charges every
block it allocated: each of them was free, and no other changed.
-/
theorem buildClassicMap_roundTrip {writer after : Writer} {inode mapped : Inode} {n : Nat}
    {what : String} {runs : BlockRuns} (blank : inode.block = List.replicate Inode.blockBytes 0)
    (built : writer.buildClassicMap inode n what = .ok (mapped, runs, after))
    : runs.blocks.length = n ∧ ∃ indirect : List Nat,
      mapped.blocks = (n + indirect.length) * writer.sectorsPerBlock
      ∧ (runs.blocks ++ indirect).Nodup
      ∧ (∀ b ∈ runs.blocks ++ indirect, writer.alloc.isUsed b = false)
      ∧ (∀ b, after.alloc.isUsed b = true
          ↔ writer.alloc.isUsed b = true ∨ b ∈ runs.blocks ++ indirect)
      ∧ ∀ reader : Reader, after.ReadBy indirect reader → ∀ first count,
        reader.blockMapWindow mapped first (List.replicate count 0)
          = .ok ((List.range' first count).map (physicalOf runs.blocks)) := by
  unfold Writer.buildClassicMap at built
  obtain ⟨-, -, built⟩ := bind_eq_ok.mp built
  obtain ⟨_, within, built⟩ := bind_eq_ok.mp built
  obtain ⟨⟨words, build⟩, direct, built⟩ := bind_eq_ok.mp built
  obtain ⟨⟨words', build'⟩, levels, built⟩ := bind_eq_ok.mp built
  obtain ⟨-, -, built⟩ := bind_eq_ok.mp built
  cases built
  rw [refuseIf_eq_ok, decide_eq_false_iff_not, not_lt] at within
  rw [blank] at direct
  have nothing : BlockRuns.empty.Counted := rfl
  have first := MapBuild.directLoop_built nothing rfl direct
  have area : MapBuild.AreaBuilt n ⟨writer, .empty, 0⟩ directBlocks (words, build) := by
    by_cases short : directBlocks ≤ n
    · rwa [Nat.min_eq_right short] at first
    · rw [Nat.min_eq_left (by omega)] at first
      refine first.skip (MapBuild.wordBase_mono _) ?_ (by omega)
      obtain ⟨_, _, -, -, count, -⟩ := first
      rw [MapBuild.wordBase_direct (by omega)] at count
      exact count.ge.trans' (by omega)
  obtain ⟨added, indirect, step, -, count, -, denotes⟩ :=
    MapBuild.levelLoop_built nothing rfl area levels
  dsimp only at step count denotes
  have reach : n ≤ levelBase (writer.blockSize / 4) indirectLevels := by
    rw [← classicMapReach_eq]
    exact within
  have whole : build'.physical.count = n := by
    rw [count, Nat.min_eq_left]
    exact reach
  have blocks : build'.physical.blocks = added := step.physical
  have length : build'.physical.blocks.length = n :=
    (step.counted nothing).symm.trans whole
  refine ⟨length, indirect, ?_, ?_, ?_, ?_, ?_⟩
  · have charged : build'.indirect = indirect.length := by
      simpa using step.charged
    have sectors : build'.writer.sectorsPerBlock = writer.sectorsPerBlock :=
      congrArg (· / 512) step.blockSize
    rw [charged, sectors]
  · obtain ⟨handed, ordered, perm⟩ := step.handed
    rw [blocks]
    exact perm.nodup (ordered.imp Nat.ne_of_lt)
  · intro b member
    rw [blocks] at member
    exact (step.fresh b member).2.2.2
  · rw [blocks]
    exact step.used
  · intro reader readBy first count
    have sameSize : reader.blockSize = writer.blockSize := readBy.blockSize.trans step.blockSize
    have fits : build'.Fits n indirect build'.writer.blockAt indirect build'.physical.blocks :=
      ⟨length, List.prefix_rfl, fun b member => ⟨member, rfl⟩⟩
    have inside (b : Nat) (member : b ∈ added ++ indirect)
        : b < build'.writer.alloc.totalBlocks :=
      step.totalBlocks ▸ (step.fresh b member).2.2.1
    have holds : reader.HoldsBlocks build'.writer.blockAt indirect build'.physical.blocks :=
      {
        reads := fun b member => readBy.block member (inside b (List.mem_append_right _ member))
        inside := fun b member =>
          readBy.blocksCount ▸ inside b (List.mem_append_left _ (blocks ▸ member))
      }
    have maps : MapsFile (reader.blockSize / 4) build'.writer.blockAt indirect
        build'.physical.blocks words' := by
      rw [sameSize]
      exact MapBuild.mapsFile_of_words (length ▸ reach) (denotes _ _ _ fits)
    have most : reader.blockSize ≤ 65536 := by
      have sized := writer.sized
      omega
    exact Reader.blockMapWindow_eq holds maps most first count

/-- A writer of sixteen blocks of 1024 bytes, none of them in use. -/
def blankWriter : Writer where
  alloc := ⟨List.replicate 2 0, 16, 8192, 1024, 1, 1⟩
  image := List.replicate (16 * 1024) 0
  blockSize := 1024
  feature := .ext2
  sized := .inl rfl
  whole := List.length_replicate

def blankInode : Inode := ⟨0o100644, 0, 0, 0, 0, List.replicate Inode.blockBytes 0⟩

/-- Fourteen blocks take the twelve direct words and one indirect block, and read back from the
image across the boundary between the two and past the file's end.
-/
theorem buildClassicMap_roundTrip_of_fourteen
    : ∃ (mapped : Inode) (runs : BlockRuns) (after : Writer) (reader : Reader),
      blankWriter.buildClassicMap blankInode 14 "file" = .ok (mapped, runs, after)
      ∧ reader.src = after.image
      ∧ reader.blockMapWindow mapped 10 (List.replicate 6 0) = .ok [11, 12, 14, 15, 0, 0] := by
  have evaluated : (blankWriter.buildClassicMap blankInode 14 "file").map
      (fun result =>
        (result.2.1.blocks, result.2.2.alloc.totalBlocks, result.2.2.blockSize))
      = .ok ([1, 2, 3, 4, 5, 6, 7, 8, 9, 10, 11, 12, 14, 15], 16, 1024) := by
    decide +kernel
  cases built : blankWriter.buildClassicMap blankInode 14 "file" with
  | error error =>
      rw [built] at evaluated
      cases evaluated
  | ok result =>
      obtain ⟨mapped, runs, after⟩ := result
      rw [built] at evaluated
      obtain ⟨blocks, counts⟩ := Prod.mk.inj (Except.ok.inj evaluated)
      obtain ⟨total, size⟩ := Prod.mk.inj counts
      dsimp only at blocks total size
      have small : after.image.length < 2 ^ 63 := by
        rw [after.whole, total, size]
        decide
      obtain ⟨-, indirect, -, -, -, -, reads⟩ := buildClassicMap_roundTrip rfl built
      have read := reads (after.reader small) (after.readBy_reader small indirect) 10 6
      rw [blocks] at read
      exact ⟨mapped, runs, after, after.reader small, rfl, rfl, read⟩

end Ferrosys.Ext
