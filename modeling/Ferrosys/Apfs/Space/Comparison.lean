import Ferrosys.Apfs.Space.Chunks
import Ferrosys.Apfs.Space.Overlaps
import Ferrosys.Library.Bits
import Mathlib.Data.Set.Card

/-! What the comparison of a container's chunks counts: over all of them, the blocks accounted for
and not marked, and those marked and not accounted for.
-/

namespace Ferrosys.Apfs.Space

open Arith Sweep Words

/-- The bit of a bitmap that stands for a block. -/
def bitOf (bitmap : Bytes) (n : Nat) : Bool := (getU8 bitmap (n / 8)).testBit (n % 8)

/-- Two fields side by side, bit by bit. -/
theorem testBit_pair {low high width : Nat} (small : low < 2 ^ width) (n : Nat)
    : (low + high * 2 ^ width).testBit n
      = if n < width then low.testBit n else high.testBit (n - width) := by
  rw [Nat.add_comm, Nat.mul_comm, Nat.testBit_two_pow_mul_add _ small]

/-- A field of eight bytes, bit by bit. -/
theorem testBit_getU64 (buf : Bytes) (off n : Nat) (within : n < 64)
    : (getU64 buf off).testBit n = (getU8 buf (off + n / 8)).testBit (n % 8) := by
  have u16 (off n : Nat) (within : n < 16)
      : (getU16 buf off).testBit n = (getU8 buf (off + n / 8)).testBit (n % 8) := by
    rw [getU16, testBit_pair (getU8_lt buf off)]
    split
    next low => rw [Nat.div_eq_of_lt low, Nat.mod_eq_of_lt low, Nat.add_zero]
    next high =>
      rw [show n / 8 = 1 by omega, show n % 8 = n - 8 by omega]
  have u32 (off n : Nat) (within : n < 32)
      : (getU32 buf off).testBit n = (getU8 buf (off + n / 8)).testBit (n % 8) := by
    rw [getU32, testBit_pair (getU16_lt buf off)]
    split
    next low => exact u16 off n low
    next high =>
      rw [u16 (off + 2) (n - 16) (by omega), show off + 2 + (n - 16) / 8 = off + n / 8 by omega,
        show (n - 16) % 8 = n % 8 by omega]
  rw [getU64, testBit_pair (getU32_lt buf off)]
  split
  next low => exact u32 off n low
  next high =>
    rw [u32 (off + 4) (n - 32) (by omega), show off + 4 + (n - 32) / 8 = off + n / 8 by omega,
      show (n - 32) % 8 = n % 8 by omega]

/-- A word of a bitmap holds the bits of its blocks, and none past the chunk's. -/
theorem getLsbD_haveWord (bitmap : Bytes) (blocks n : Nat)
    : (haveWord bitmap blocks (n / 64)).getLsbD (n % 64)
      = (decide (n < blocks) && bitOf bitmap n) := by
  have small : n % 64 < 64 := Nat.mod_lt _ (by decide)
  have word : (BitVec.ofNat 64 (getU64 bitmap (n / 64 * 8))).getLsbD (n % 64) = bitOf bitmap n := by
    rw [BitVec.getLsbD_ofNat, testBit_getU64 _ _ _ small, decide_eq_true small, Bool.true_and,
      bitOf, show n / 64 * 8 + n % 64 / 8 = n / 8 by omega, show n % 64 % 8 = n % 8 by omega]
  unfold haveWord
  dsimp only
  split
  next cut =>
    rw [BitVec.getLsbD_and, word, BitVec.getLsbD_ushiftRight, BitVec.getLsbD_allOnes, Bool.and_comm]
    congr 1
    rw [decide_eq_decide]
    omega
  next whole => rw [word, decide_eq_true (show n < blocks by omega), Bool.true_and]

/-- A word taken into a tally adds the bits set in it. -/
@[simp] theorem count_note (tally : Tally) (base : Nat) (word : Word)
    : (tally.note base word).count = tally.count + ones word := by
  unfold Tally.note
  split
  next none_ =>
    subst none_
    have zero : ones 0 = 0 := by
      refine Nat.count_iff_forall_not.mpr fun n _ => ?_
      simp
    rw [zero, Nat.add_zero]
  next => rfl

/-- A loop that adds to a measure at each turn adds it up over all of them, by induction on them. -/
theorem foldl_range_measure {σ : Type} (step : σ → Nat → σ) (measure : σ → Nat) (gain : Nat → Nat)
    (each : ∀ state i, measure (step state i) = measure state + gain i) (state : σ) (turns : Nat)
    : measure ((List.range turns).foldl step state)
      = measure state + ((List.range turns).map gain).sum := by
  induction turns with
  | zero => rfl
  | succ turns ih =>
      rw [List.range_succ, List.foldl_append, List.foldl_cons, List.foldl_nil, each, ih,
        List.map_append, List.sum_append, List.map_singleton, List.sum_singleton, Nat.add_assoc]

/-- The words of a chunk count its blocks of one kind: those of the chunk alone have the kind. -/
theorem sum_ones_eq_count {words : Nat → Word} (kind : Nat → Bool) (blocks : Nat)
    (bits : ∀ n, (words (n / 64)).getLsbD (n % 64) = (decide (n < blocks) && kind n))
    : ((List.range (divCeil blocks 64)).map fun w => ones (words w)).sum
      = Nat.count (kind · = true) blocks := by
  have room : blocks ≤ 64 * divCeil blocks 64 := by
    rw [Nat.mul_comm]
    exact le_divCeil_mul (by decide)
  rw [sum_ones, Bits.count_eq_of_forall_not room (fun n past _ => by
    rw [bits, decide_eq_false (Nat.not_lt.mpr past)]
    exact Bool.false_ne_true)]
  refine Nat.le_antisymm (Nat.count_mono_left fun n below => ?_)
    (Nat.count_mono_left fun n below => ?_)
  all_goals
    rw [bits, decide_eq_true below, Bool.true_and]
    exact id

/-- A block is in one of the runs accounted for. -/
def isAccounted (accounted : List (Run By)) (n : Nat) : Bool := accounted.any (decide <| ·.Has n)

/-- Marking the runs that meet a chunk, each as far as it is in it, marks the chunk's blocks in one
of them: by induction on the runs.
-/
theorem bit_foldl_markRun {runs : List (Run By)} {words : List Word} {first blocks : Nat}
    (room : blocks ≤ 64 * words.length) (n : Nat)
    : bit (runs.foldl (fun words run =>
        markRun words (max run.start first - first) (min run.stop (first + blocks) - first)) words) n
          = true
      ↔ (n < blocks ∧ ∃ run ∈ runs, run.Has (first + n)) ∨ bit words n = true := by
  induction runs generalizing words with
  | nil => simp
  | cons run rest ih =>
      rw [List.foldl_cons, ih (by rwa [length_markRun]), bit_markRun (by omega), ← or_assoc]
      refine or_congr_left ?_
      simp only [List.mem_cons, exists_eq_or_imp, Run.Has]
      constructor
      · rintro (⟨inside, rest⟩ | ⟨low, high⟩)
        · exact ⟨inside, .inr rest⟩
        · exact ⟨by omega, .inl ⟨by omega, by omega⟩⟩
      · rintro ⟨inside, ⟨low, high⟩ | rest⟩
        · exact .inr ⟨by omega, by omega⟩
        · exact .inl ⟨inside, rest⟩

/-- The bits expected of a chunk are its blocks accounted for. -/
theorem bit_expectedWords {accounted : List (Run By)}
    (sorted : accounted.Pairwise fun a b => a.start ≤ b.start) (first blocks n : Nat)
    : bit (expectedWords accounted (reaches 0 accounted) first blocks) n
      = (decide (n < blocks) && isAccounted accounted (first + n)) := by
  have room : blocks ≤ 64 * (List.replicate (divCeil blocks 64) (0 : Word)).length := by
    rw [List.length_replicate, Nat.mul_comm]
    exact le_divCeil_mul (by decide)
  rw [Bool.eq_iff_iff, expectedWords, bit_foldl_markRun room, bit_replicate]
  simp only [Bool.false_eq_true, or_false, Bool.and_eq_true, decide_eq_true_eq, isAccounted,
    List.any_eq_true, mem_meeting sorted]
  refine and_congr_right fun inside => exists_congr fun run => ?_
  unfold Run.Has
  constructor
  · rintro ⟨⟨member, -⟩, has⟩
    exact ⟨member, has⟩
  · rintro ⟨member, low, high⟩
    exact ⟨⟨member, by omega, by omega⟩, low, high⟩

theorem length_expectedWords (accounted : List (Run By)) (reach : List Nat) (first blocks : Nat)
    : (expectedWords accounted reach first blocks).length = divCeil blocks 64 := by
  have kept (runs : List (Run By)) (words : List Word) : (runs.foldl (fun words run =>
      markRun words (max run.start first - first) (min run.stop (first + blocks) - first))
        words).length = words.length := by
    induction runs generalizing words with
    | nil => rfl
    | cons run rest ih => rw [List.foldl_cons, ih, length_markRun]
  rw [expectedWords, kept, List.length_replicate]

namespace Chunked

variable (self : Chunked)

/-- The bitmap of a chunk, where it can be read: none of the blocks of a chunk without one is in
use.
-/
def bitmapOf (chunk : ChunkInfo) : Option Bytes :=
  if chunk.bitmap = 0 then some [] else (self.readBlocks chunk.bitmap).toOption

/-- A chunk's blocks are compared: its record stands, and its bitmap can be read. -/
def comparedChunk (i : Nat) (chunk : ChunkInfo) : Bool :=
  self.standing i chunk && (self.bitmapOf chunk).isSome

/-- A bitmap's words count the blocks of one kind each. -/
theorem compareBitmap_counts {accounted : List (Run By)}
    (sorted : accounted.Pairwise fun a b => a.start ≤ b.start) (state : Comparison)
    (i free : Nat) (bitmap : Bytes) {first blocks : Nat}
    (span : chunkSpan self.blocksPerChunk self.blockCount i = (first, blocks))
    : let after := self.compareBitmap state i free
        (expectedWords accounted (reaches 0 accounted) first blocks) bitmap
      after.inUseFree.count = state.inUseFree.count
          + Nat.count (fun n => (isAccounted accounted (first + n) && !bitOf bitmap n) = true) blocks
        ∧ after.unreached.count = state.unreached.count
          + Nat.count (fun n => (bitOf bitmap n && !isAccounted accounted (first + n)) = true)
            blocks := by
  generalize held : expectedWords accounted (reaches 0 accounted) first blocks = expected
  have bits (n : Nat) : (expected[n / 64]?.getD 0).getLsbD (n % 64)
      = (decide (n < blocks) && isAccounted accounted (first + n)) := by
    rw [← held]
    exact bit_expectedWords sorted first blocks n
  have length : expected.length = divCeil blocks 64 := by
    rw [← held, length_expectedWords]
  have inUseFree := foldl_range_measure (compareWord expected bitmap first blocks)
    (fun tally => tally.inUseFree.count)
    (fun w => ones (expected[w]?.getD 0 &&& ~~~haveWord bitmap blocks w))
    (fun tally w => count_note _ _ _) ⟨0, state.inUseFree, state.unreached⟩ expected.length
  have unreached := foldl_range_measure (compareWord expected bitmap first blocks)
    (fun tally => tally.unreached.count)
    (fun w => ones (haveWord bitmap blocks w &&& ~~~(expected[w]?.getD 0)))
    (fun tally w => count_note _ _ _) ⟨0, state.inUseFree, state.unreached⟩ expected.length
  have small (n : Nat) : n % 64 < 64 := Nat.mod_lt _ (by decide)
  rw [length, sum_ones_eq_count (fun n => isAccounted accounted (first + n)
    && !bitOf bitmap n) blocks (fun n => by
      rw [BitVec.getLsbD_and, BitVec.getLsbD_not, bits, getLsbD_haveWord, decide_eq_true (small n)]
      cases decide (n < blocks) <;> simp)] at inUseFree
  rw [length, sum_ones_eq_count (fun n => bitOf bitmap n
    && !isAccounted accounted (first + n)) blocks (fun n => by
      rw [BitVec.getLsbD_and, BitVec.getLsbD_not, bits, getLsbD_haveWord, decide_eq_true (small n)]
      cases decide (n < blocks) <;> simp)] at unreached
  unfold compareBitmap
  rw [span]
  dsimp only
  rw [length]
  split
  · exact ⟨inUseFree, unreached⟩
  · exact ⟨inUseFree, unreached⟩

/-- A bitmap of zeros marks nothing, as no bitmap does. -/
theorem bitOf_zeros (size n : Nat) : bitOf (List.replicate size 0) n = bitOf [] n := by
  rw [bitOf, getU8, List.getElem?_replicate]
  split <;> rfl

/-- No bitmap marks a block. -/
theorem bitOf_nil (n : Nat) : bitOf [] n = false := Nat.zero_testBit _

/-- One chunk adds its blocks of each kind, where it is compared. -/
theorem compareChunk_counts {accounted : List (Run By)}
    (sorted : accounted.Pairwise fun a b => a.start ≤ b.start) (state : Comparison)
    (chunk : ChunkInfo) (i : Nat) {first blocks : Nat}
    (span : chunkSpan self.blocksPerChunk self.blockCount i = (first, blocks))
    : let after := self.compareChunk accounted (reaches 0 accounted) state (chunk, i)
      after.inUseFree.count = state.inUseFree.count
          + Nat.count (fun n => (self.comparedChunk i chunk && (isAccounted accounted (first + n)
            && !(self.bitmapOf chunk).any (bitOf · n))) = true) blocks
        ∧ after.unreached.count = state.unreached.count
          + Nat.count (fun n => (self.comparedChunk i chunk && ((self.bitmapOf chunk).any (bitOf · n)
            && !isAccounted accounted (first + n))) = true) blocks := by
  have nothing (p : Nat → Bool) (none_ : ∀ n < blocks, p n = false)
      : Nat.count (p · = true) blocks = 0 :=
    Nat.count_iff_forall_not.mpr fun n below => by rw [none_ n below]; exact Bool.false_ne_true
  unfold compareChunk
  dsimp only
  rw [span]
  dsimp only
  cases stands : self.standing i chunk with
  | false =>
      rw [Bool.not_false, if_pos rfl, comparedChunk, stands]
      simp only [Bool.false_and]
      rw [nothing _ fun _ _ => rfl]
      exact ⟨rfl, rfl⟩
  | true =>
      rw [Bool.not_true, if_neg Bool.false_ne_true]
      generalize later : (if self.live < chunk.xid then
        ({ state with freeTotal := state.freeTotal + (chunk.freeCount &&& ciCountMask) }
          : Comparison).report _ else _) = noted
      have kept : noted.inUseFree = state.inUseFree ∧ noted.unreached = state.unreached := by
        rw [← later]
        split <;> exact ⟨rfl, rfl⟩
      have compared (bitmap : Bytes) (held : self.bitmapOf chunk = some bitmap)
          : self.comparedChunk i chunk = true := by
        rw [comparedChunk, stands, held]
        rfl
      by_cases none_ : chunk.bitmap = 0
      · have held : self.bitmapOf chunk = some [] := if_pos none_
        rw [if_pos none_, compared _ held, held]
        simp only [Bool.true_and, Option.any_some]
        split
        next idle =>
          have clear (n : Nat) (below : n < blocks)
              : isAccounted accounted (first + n) = false := by
            have bits := bit_expectedWords sorted first blocks n
            rw [decide_eq_true below, Bool.true_and] at bits
            rw [← bits, bit]
            cases there : (expectedWords accounted (reaches 0 accounted) first blocks)[n / 64]? with
            | none => simp
            | some word =>
                have zero := List.all_eq_true.mp idle word (List.mem_of_getElem? there)
                simp [beq_iff_eq.mp zero]
          rw [nothing _ fun n below => by rw [clear n below, Bool.false_and],
            nothing _ fun n _ => by rw [bitOf_nil, Bool.false_and]]
          split <;> exact ⟨congrArg Tally.count kept.1, congrArg Tally.count kept.2⟩
        next =>
          have counts := self.compareBitmap_counts sorted noted i (chunk.freeCount &&& ciCountMask)
            (List.replicate self.blockSize 0) span
          simp only [bitOf_zeros] at counts
          rw [← kept.1, ← kept.2]
          exact counts
      · rw [if_neg none_]
        cases read : self.readBlocks chunk.bitmap with
        | error failure =>
            have held : self.bitmapOf chunk = none := by
              rw [bitmapOf, if_neg none_, read]
              rfl
            rw [comparedChunk, held, stands]
            simp only [Option.isSome_none, Bool.and_false, Bool.false_and]
            rw [nothing _ fun _ _ => rfl]
            exact ⟨congrArg Tally.count kept.1, congrArg Tally.count kept.2⟩
        | ok bitmap =>
            have held : self.bitmapOf chunk = some bitmap := by
              rw [bitmapOf, if_neg none_, read]
              rfl
            rw [compared _ held, held]
            simp only [Bool.true_and, Option.any_some]
            have counts := self.compareBitmap_counts sorted
              { noted with pool := noted.pool ++ [(chunk.bitmap, "a chunk's bitmap")] } i
              (chunk.freeCount &&& ciCountMask) bitmap span
            rw [← kept.1, ← kept.2]
            exact counts

/-- A block's chunk is compared. -/
def compared (n : Nat) : Bool :=
  self.chunks[n / self.blocksPerChunk]?.any (self.comparedChunk (n / self.blocksPerChunk))

/-- A block's chunk marks it in use. -/
def marked (n : Nat) : Bool :=
  self.chunks[n / self.blocksPerChunk]?.any fun chunk =>
    (self.bitmapOf chunk).any (bitOf · (n % self.blocksPerChunk))

/-- A block is in use and marked free. -/
def missing (accounted : List (Run By)) (n : Nat) : Bool :=
  self.compared n && (isAccounted accounted n && !self.marked n)

/-- A block is marked in use and nothing accounts for it. -/
def extra (accounted : List (Run By)) (n : Nat) : Bool :=
  self.compared n && (self.marked n && !isAccounted accounted n)

theorem blocksPerChunk_pos : 0 < self.blocksPerChunk :=
  Nat.mul_pos self.blockSize_pos (by decide)

/-- The chunks compared up to one add up to the blocks of each kind up to it, by induction on those
left.
-/
theorem foldl_compareChunk {accounted : List (Run By)}
    (sorted : accounted.Pairwise fun a b => a.start ≤ b.start) {done rest : List ChunkInfo}
    (all : self.chunks = done ++ rest) {state : Comparison}
    (inUseFree : state.inUseFree.count = Nat.count (self.missing accounted · = true)
      (min (done.length * self.blocksPerChunk) self.blockCount))
    (unreached : state.unreached.count = Nat.count (self.extra accounted · = true)
      (min (done.length * self.blocksPerChunk) self.blockCount))
    : let after := (rest.zipIdx done.length).foldl
        (self.compareChunk accounted (reaches 0 accounted)) state
      after.inUseFree.count = Nat.count (self.missing accounted · = true) self.blockCount
        ∧ after.unreached.count = Nat.count (self.extra accounted · = true) self.blockCount := by
  have pos := self.blocksPerChunk_pos
  induction rest generalizing done state with
  | nil =>
      rw [List.append_nil] at all
      have covers : self.blockCount ≤ done.length * self.blocksPerChunk := by
        rw [← all, self.counted]
        exact le_divCeil_mul pos
      rw [Nat.min_eq_right covers] at inUseFree unreached
      exact ⟨inUseFree, unreached⟩
  | cons chunk rest ih =>
      have listed : self.chunks[done.length]? = some chunk := by
        rw [all, List.getElem?_append_right (Nat.le_refl _), Nat.sub_self]
        rfl
      have begins : done.length * self.blocksPerChunk < self.blockCount := by
        refine (lt_divCeil_iff pos).mp ?_
        change done.length < divCeil self.blockCount (self.blockSize * 8)
        rw [← self.counted, all, List.length_append, List.length_cons]
        omega
      rw [Nat.min_eq_left (Nat.le_of_lt begins)] at inUseFree unreached
      obtain ⟨blocks, span, fits, ends⟩ : ∃ blocks,
          chunkSpan self.blocksPerChunk self.blockCount done.length
            = (done.length * self.blocksPerChunk, blocks)
          ∧ blocks ≤ self.blocksPerChunk
          ∧ done.length * self.blocksPerChunk + blocks
            = min ((done.length + 1) * self.blocksPerChunk) self.blockCount := by
        refine ⟨_, rfl, ?_, ?_⟩
        · split <;> omega
        · rw [Nat.succ_mul]
          split <;> omega
      have place (n : Nat) (below : n < blocks)
          : (done.length * self.blocksPerChunk + n) / self.blocksPerChunk = done.length
            ∧ (done.length * self.blocksPerChunk + n) % self.blocksPerChunk = n := by
        rw [Nat.mul_comm]
        exact ⟨by rw [Nat.mul_add_div pos, Nat.div_eq_of_lt (by omega), Nat.add_zero],
          by rw [Nat.mul_add_mod, Nat.mod_eq_of_lt (by omega)]⟩
      obtain ⟨more, others⟩ := self.compareChunk_counts sorted state chunk done.length span
      have same (p q : Nat → Bool) (agree : ∀ n < blocks, p n = q n)
          : Nat.count (p · = true) blocks = Nat.count (q · = true) blocks := by
        refine Nat.le_antisymm (Nat.count_mono_left fun n below => ?_)
          (Nat.count_mono_left fun n below => ?_)
        all_goals
          rw [agree n below]
          exact id
      rw [List.zipIdx_cons, List.foldl_cons]
      have next := @ih (done ++ [chunk]) (by rw [all, List.append_assoc]; rfl)
        (self.compareChunk accounted (reaches 0 accounted) state (chunk, done.length))
      rw [List.length_append, List.length_singleton, ← ends, Nat.count_add, Nat.count_add] at next
      refine next ?_ ?_
      · rw [more, inUseFree]
        congr 1
        refine same _ _ fun n below => ?_
        obtain ⟨i, k⟩ := place n below
        rw [missing, compared, marked, i, k, listed]
        rfl
      · rw [others, unreached]
        congr 1
        refine same _ _ fun n below => ?_
        obtain ⟨i, k⟩ := place n below
        rw [extra, compared, marked, i, k, listed]
        rfl

/-- The chunks compared count the blocks of each kind. -/
theorem compareChunks_counts {accounted : List (Run By)}
    (sorted : accounted.Pairwise fun a b => a.start ≤ b.start) (pool : List (Nat × String))
    : (self.compareChunks accounted pool).inUseFree.count
        = Nat.count (self.missing accounted · = true) self.blockCount
      ∧ (self.compareChunks accounted pool).unreached.count
        = Nat.count (self.extra accounted · = true) self.blockCount := by
  have start : Nat.count (self.missing accounted · = true)
      (min (([] : List ChunkInfo).length * self.blocksPerChunk) self.blockCount) = 0 := by
    rw [List.length_nil, Nat.zero_mul, Nat.zero_min, Nat.count_zero]
  have start' : Nat.count (self.extra accounted · = true)
      (min (([] : List ChunkInfo).length * self.blocksPerChunk) self.blockCount) = 0 := by
    rw [List.length_nil, Nat.zero_mul, Nat.zero_min, Nat.count_zero]
  exact @foldl_compareChunk self accounted sorted [] self.chunks rfl
    ⟨0, ⟨0, none⟩, ⟨0, none⟩, pool, []⟩ start.symm start'.symm

end Chunked

end Ferrosys.Apfs.Space
