import Ferrosys.Ext.Alloc
import Ferrosys.Ext.Geometry.Soundness

/-! Any sequence of allocator operations over a planned layout: what each hands out, what
each leaves free, and when each refuses.
-/

namespace Ferrosys.Ext

open Spans Bits

namespace Allocator

variable {a : Allocator}

/-- Marking blocks changes nothing but which bits are set. -/
structure SameShape (a b : Allocator) : Prop where
  totalBlocks : b.totalBlocks = a.totalBlocks
  firstDataBlock : b.firstDataBlock = a.firstDataBlock
  cursor : b.cursor = a.cursor
  length : b.bits.length = a.bits.length

theorem SameShape.refl (a : Allocator) : SameShape a a := ⟨rfl, rfl, rfl, rfl⟩

theorem SameShape.trans {a b c : Allocator} (h : SameShape a b) (h' : SameShape b c)
    : SameShape a c :=
  ⟨h'.totalBlocks.trans h.totalBlocks, h'.firstDataBlock.trans h.firstDataBlock,
    h'.cursor.trans h.cursor, h'.length.trans h.length⟩

theorem bit_eq_some {b i : Nat}
    : a.bit b = some i ↔ a.firstDataBlock + i = b ∧ i / 8 < a.bits.length := by
  unfold bit
  by_cases low : a.firstDataBlock ≤ b
  · simp only [if_pos low, Option.ite_none_right_eq_some, Option.some.injEq]
    constructor
    · rintro ⟨covered, rfl⟩
      exact ⟨Nat.add_sub_cancel' low, covered⟩
    · rintro ⟨rfl, covered⟩
      simpa using covered
  · simp only [if_neg low, reduceCtorEq, false_iff, not_and]
    omega

theorem isUsed_of_lt_firstDataBlock {b : Nat} (low : b < a.firstDataBlock)
    : a.isUsed b = true := by
  have outside : a.bit b = none := if_neg (by omega)
  simp [isUsed, outside]

/-- A block past the last byte reads as used. -/
theorem isUsed_of_covered_le {b : Nat} (past : a.firstDataBlock + 8 * a.bits.length ≤ b)
    : a.isUsed b = true := by
  cases found : a.bit b with
  | none => simp [isUsed, found]
  | some i =>
      obtain ⟨rfl, covered⟩ := bit_eq_some.mp found
      omega

theorem set_sameShape (a : Allocator) (b : Nat) : SameShape a (a.set b) := by
  unfold set
  split
  · exact .refl a
  · exact ⟨rfl, rfl, rfl, length_setBit _ _⟩

/-- Setting a block uses that block and no other; a block without a bit reads as used
already.
-/
theorem isUsed_set (b c : Nat) : (a.set b).isUsed c = true ↔ a.isUsed c = true ∨ c = b := by
  cases found : a.bit b with
  | none =>
      have unchanged : a.set b = a := by simp [set, found]
      have already : a.isUsed b = true := by simp [isUsed, found]
      rw [unchanged]
      exact ⟨.inl, fun either => either.elim id (by rintro rfl; exact already)⟩
  | some i =>
      obtain ⟨rfl, covered⟩ := bit_eq_some.mp found
      have changed : a.set (a.firstDataBlock + i) = { a with bits := setBit a.bits i } := by
        simp [set, found]
      have same : (a.set (a.firstDataBlock + i)).bit c = a.bit c := by
        rw [changed]
        simp only [bit, length_setBit]
      cases here : a.bit c with
      | none => simp [isUsed, same, here]
      | some j =>
          obtain ⟨rfl, _⟩ := bit_eq_some.mp here
          simp only [isUsed, same, here]
          rw [changed]
          simp only [isSet_setBit covered, Bool.or_eq_true, decide_eq_true_eq,
            Nat.add_left_cancel_iff]
          exact or_congr_right eq_comm

/-- Marking a range uses its blocks and no other, by induction on its length. -/
theorem isUsed_markUsed (range : BlockRange) (c : Nat)
    : (a.markUsed range).isUsed c = true ↔ a.isUsed c = true ∨ range.Holds c := by
  obtain ⟨start, len⟩ := range
  simp only [markUsed, Span.Holds, Span.stop_mk]
  induction len generalizing a start with
  | zero => simp
  | succ len ih =>
      rw [List.range'_succ, List.foldl_cons, ih, isUsed_set, or_assoc]
      refine or_congr_right ?_
      omega

theorem markUsed_sameShape (a : Allocator) (range : BlockRange)
    : SameShape a (a.markUsed range) := by
  unfold markUsed
  induction List.range' range.start range.len generalizing a with
  | nil => exact .refl a
  | cons b rest ih => exact (set_sameShape a b).trans (ih _)

/-- Marking runs uses their blocks and no other, by induction over the runs. -/
theorem isUsed_markAll (runs : List BlockRange) (c : Nat)
    : (a.markAll runs).isUsed c = true ↔ a.isUsed c = true ∨ ∃ r ∈ runs, r.Holds c := by
  unfold markAll
  induction runs generalizing a with
  | nil => simp
  | cons run rest ih =>
      rw [List.foldl_cons, ih, isUsed_markUsed]
      simp only [List.mem_cons, exists_eq_or_imp]
      tauto

theorem markAll_sameShape (a : Allocator) (runs : List BlockRange)
    : SameShape a (a.markAll runs) := by
  unfold markAll
  induction runs generalizing a with
  | nil => exact .refl a
  | cons run rest ih => exact (markUsed_sameShape a run).trans (ih _)

/-- The free blocks of the filesystem, counted one by one. -/
def freeBlocks (a : Allocator) : Nat :=
  Nat.count (fun b => a.isUsed b = false) a.totalBlocks

/-- A run of free blocks. -/
def FreeRun (a : Allocator) (start count : Nat) : Prop :=
  ∀ b, start ≤ b → b < start + count → a.isUsed b = false

/-- Everything below the scan position is used, and so is everything past the filesystem,
and every block of the filesystem has a bit.
-/
structure Valid (a : Allocator) : Prop where
  below : ∀ b < a.cursor, a.isUsed b = true
  beyond : ∀ b, a.totalBlocks ≤ b → a.isUsed b = true
  cursor : a.cursor ≤ a.totalBlocks
  first : a.firstDataBlock ≤ a.cursor
  covered : a.totalBlocks ≤ a.firstDataBlock + 8 * a.bits.length

theorem nextFree_spec (a : Allocator) {i : Nat} (within : i ≤ a.totalBlocks)
    : i ≤ a.nextFree i
      ∧ a.nextFree i ≤ a.totalBlocks
      ∧ ∀ b, i ≤ b → b < a.nextFree i → a.isUsed b = true := by
  obtain ⟨least, most, passed, -⟩ := scanWhile_spec a.isUsed (a.totalBlocks - i) i
  exact ⟨least, by unfold nextFree; omega, passed⟩

/-- A run found free ends at its limit, at the end of the filesystem, or at a used block. -/
theorem freeRunEnd_spec (a : Allocator) {start : Nat} (within : start ≤ a.totalBlocks)
    (limit : Nat)
    : start ≤ a.freeRunEnd start limit
      ∧ a.freeRunEnd start limit ≤ a.totalBlocks
      ∧ a.freeRunEnd start limit ≤ start + limit
      ∧ (∀ b, start ≤ b → b < a.freeRunEnd start limit → a.isUsed b = false)
      ∧ (a.freeRunEnd start limit < a.totalBlocks
          → a.freeRunEnd start limit < start + limit
          → a.isUsed (a.freeRunEnd start limit) = true) := by
  obtain ⟨least, most, passed, stops⟩ := scanWhile_spec (fun b => !a.isUsed b)
    (min (a.totalBlocks - start) limit) start
  simp only [Bool.not_eq_true', Bool.not_eq_false'] at passed stops
  refine ⟨least, ?_, ?_, passed, fun inside short => stops ?_⟩
  all_goals
    unfold freeRunEnd at *
    omega

/-- What a successful gathering answers: the free blocks from where it began to where it
stopped, as runs in order that sum to the request.
-/
structure Gathered (a : Allocator) (from_ count : Nat) (runs : List BlockRange) (past : Nat)
    : Prop where
  chain : Chain from_ runs past
  inside : past ≤ a.totalBlocks
  sum : (runs.map Span.len).sum = count
  nonempty : ∀ r ∈ runs, 0 < r.len
  free : ∀ r ∈ runs, ∀ b, r.Holds b → a.isUsed b = false
  taken : ∀ b, from_ ≤ b → b < past → a.isUsed b = true ∨ ∃ r ∈ runs, r.Holds b
  counted
    : Nat.count (fun b => a.isUsed b = false) past
      = Nat.count (fun b => a.isUsed b = false) from_ + count

/-- One block is gathered as one run. -/
theorem Gathered.single {a : Allocator} {from_ past : Nat} {runs : List BlockRange}
    (gathered : Gathered a from_ 1 runs past)
    : ∃ b, runs = [⟨b, 1⟩] := by
  have sum := gathered.sum
  cases runs with
  | nil => cases sum
  | cons first rest =>
      have some_ := gathered.nonempty first List.mem_cons_self
      cases rest with
      | nil =>
          obtain ⟨start, len⟩ := first
          simp only [List.map_cons, List.map_nil, List.sum_cons, List.sum_nil] at sum
          obtain rfl : len = 1 := sum
          exact ⟨start, rfl⟩
      | cons second rest =>
          have more := gathered.nonempty second (by simp)
          simp only [List.map_cons, List.sum_cons] at sum
          omega

/-- Gathering either answers the runs it was asked for, or has counted every free block from
where it began, by induction on its turns.
-/
theorem gather_spec (a : Allocator) {fuel remaining i : Nat} (enough : remaining ≤ fuel)
    (within : i ≤ a.totalBlocks)
    : (∀ runs past, a.gather fuel remaining i enough = .ok (runs, past)
        → Gathered a i remaining runs past)
      ∧ (∀ short, a.gather fuel remaining i enough = .error short
        → 0 < short ∧ short ≤ remaining
          ∧ a.freeBlocks
            = Nat.count (fun b => a.isUsed b = false) i + (remaining - short)) := by
  induction fuel generalizing remaining i with
  | zero =>
      obtain rfl : remaining = 0 := Nat.le_zero.mp enough
      refine ⟨fun runs past done => ?_, fun short fails => by cases fails⟩
      cases done
      exact ⟨le_rfl, within, rfl, by simp, by simp, fun b least most => by omega, rfl⟩
  | succ fuel ih =>
      rw [gather]
      split
      next done =>
        subst done
        refine ⟨fun runs past found => ?_, fun short fails => by cases fails⟩
        cases found
        exact ⟨le_rfl, within, rfl, by simp, by simp, fun b least most => by omega, rfl⟩
      next more =>
        obtain ⟨least, most, skipped⟩ := a.nextFree_spec within
        have skippedCount : Nat.count (fun b => a.isUsed b = false) (a.nextFree i)
            = Nat.count (fun b => a.isUsed b = false) i :=
          count_eq_of_forall_not least fun k lower upper => by simp [skipped k lower upper]
        split
        next full =>
          refine ⟨fun runs past found => (by cases found), fun short fails => ?_⟩
          cases fails
          have atEnd : a.nextFree i = a.totalBlocks := Nat.le_antisymm most full
          rw [atEnd] at skippedCount
          exact ⟨Nat.pos_of_ne_zero more, le_rfl, by rw [freeBlocks, skippedCount]; omega⟩
        next room =>
          obtain ⟨first, last, limit, run, -⟩ := a.freeRunEnd_spec most remaining
          have moves := a.lt_freeRunEnd (not_le.mp room) (a.isUsed_nextFree (not_le.mp room))
            (Nat.pos_of_ne_zero more)
          have runCount := count_eq_add_of_forall (p := fun b => a.isUsed b = false) first run
          obtain ⟨later, shorter⟩ :=
            ih (show remaining - (a.freeRunEnd (a.nextFree i) remaining - a.nextFree i) ≤ fuel
              by omega) last
          simp only
          split
          next short fails =>
            refine ⟨fun runs past found => (by cases found), fun short' same => ?_⟩
            cases same
            obtain ⟨some_, most_, counted⟩ := shorter short fails
            exact ⟨some_, by omega, by omega⟩
          next runs past found =>
            refine ⟨fun runs' past' same => ?_, fun short same => (by cases same)⟩
            cases same
            have rest := later runs past found
            refine ⟨⟨least, ?_⟩, rest.inside, ?_, ?_, ?_, ?_, ?_⟩
            · exact rest.chain.widen (by simp [Span.stop]; omega) le_rfl
            · simp only [List.map_cons, List.sum_cons, rest.sum]
              omega
            · intro r member
              rcases List.mem_cons.mp member with rfl | there
              · exact Nat.sub_pos_of_lt moves
              · exact rest.nonempty r there
            · intro r member b holds
              rcases List.mem_cons.mp member with rfl | there
              · exact run b holds.1 (by have := holds.2; simp only [Span.stop] at this; omega)
              · exact rest.free r there b holds
            · intro b lower upper
              by_cases before : b < a.nextFree i
              · exact .inl (skipped b lower before)
              · by_cases here : b < a.freeRunEnd (a.nextFree i) remaining
                · refine .inr ⟨_, List.mem_cons_self, not_lt.mp before, ?_⟩
                  simp only [Span.stop]
                  omega
                · rcases rest.taken b (not_lt.mp here) upper with used | ⟨r, member, holds⟩
                  · exact .inl used
                  · exact .inr ⟨r, List.mem_cons_of_mem _ member, holds⟩
            · rw [rest.counted]
              omega

/-- The contiguous scan answers the front of a free run, or has seen that no run from where
it began is long enough, by induction on its turns.
-/
theorem contiguousFrom_spec {a : Allocator} (valid : a.Valid) {count fuel i : Nat}
    (some_ : 0 < count) (enough : a.totalBlocks - i < fuel)
    : (∀ start, a.contiguousFrom count fuel i enough = some start
        → i ≤ start ∧ start + count ≤ a.totalBlocks ∧ a.FreeRun start count)
      ∧ (a.contiguousFrom count fuel i enough = none
        → ∀ start, i ≤ start → ¬ a.FreeRun start count) := by
  induction fuel generalizing i with
  | zero => exact absurd enough (Nat.not_lt_zero _)
  | succ fuel ih =>
      rw [contiguousFrom]
      split
      next inside =>
        obtain ⟨least, most, skipped⟩ := a.nextFree_spec (Nat.le_of_lt inside)
        obtain ⟨first, last, -, run, stops⟩ :=
          a.freeRunEnd_spec most (a.totalBlocks - a.nextFree i)
        simp only
        split
        next long =>
          refine ⟨fun start found => ?_, fun missing => by cases missing⟩
          cases found
          exact ⟨least, by omega, fun b lower upper => run b lower (by omega)⟩
        next short =>
          have onward : a.totalBlocks
              - a.freeRunEnd (a.nextFree i) (a.totalBlocks - a.nextFree i) < fuel := by
            by_cases full : a.totalBlocks ≤ a.nextFree i
            · omega
            · have moves := a.lt_freeRunEnd (not_le.mp full)
                (a.isUsed_nextFree (not_le.mp full)) (Nat.sub_pos_of_lt (not_le.mp full))
              omega
          obtain ⟨later, rest⟩ := ih onward
          refine ⟨fun start found => ?_, fun missing start from_ free => ?_⟩
          · obtain ⟨lower, upper, free⟩ := later start found
            exact ⟨by omega, upper, free⟩
          · -- a long enough run begins past this one: not among the used blocks skipped,
            -- and not inside this run, which is short and ends at a used block
            by_cases past : a.freeRunEnd (a.nextFree i) (a.totalBlocks - a.nextFree i) ≤ start
            · exact rest missing start past free
            · by_cases before : start < a.nextFree i
              · have used := skipped start from_ before
                rw [free start le_rfl (by omega)] at used
                cases used
              · have ended : a.isUsed
                    (a.freeRunEnd (a.nextFree i) (a.totalBlocks - a.nextFree i)) = true := by
                  rcases Nat.lt_or_ge
                    (a.freeRunEnd (a.nextFree i) (a.totalBlocks - a.nextFree i))
                    a.totalBlocks with within | beyond
                  · exact stops within (by omega)
                  · exact valid.beyond _ beyond
                rw [free _ (by omega) (by omega)] at ended
                cases ended
      next outside =>
        refine ⟨fun start found => (by cases found), fun _ start from_ free => ?_⟩
        have used := valid.beyond start (by omega)
        rw [free start le_rfl (by omega)] at used
        cases used

/-- Marking blocks keeps an allocator valid. -/
theorem Valid.mark {a b : Allocator} (valid : a.Valid) (same : SameShape a b)
    (keeps : ∀ c, a.isUsed c = true → b.isUsed c = true)
    : b.Valid where
  below c least := keeps c (valid.below c (same.cursor ▸ least))
  beyond c most := keeps c (valid.beyond c (same.totalBlocks ▸ most))
  cursor := by rw [same.cursor, same.totalBlocks]; exact valid.cursor
  first := by rw [same.firstDataBlock, same.cursor]; exact valid.first
  covered := by
    rw [same.firstDataBlock, same.totalBlocks, same.length]
    exact valid.covered

/-- The count the bitmap gives is the number of free blocks. -/
theorem Valid.freeCount_eq {a : Allocator} (valid : a.Valid) : a.freeCount = a.freeBlocks := by
  have covered := valid.covered
  have first := valid.first.trans valid.cursor
  have prefix_ : Nat.count (fun b => a.isUsed b = false) a.firstDataBlock = 0 :=
    Nat.count_iff_forall_not.mpr fun b low => by simp [isUsed_of_lt_firstDataBlock low]
  have used := usedInPrefix_eq_count
    (show a.totalBlocks - a.firstDataBlock ≤ 8 * a.bits.length by omega)
  have parts := Nat.count_add (fun b => a.isUsed b = false) a.firstDataBlock
    (a.totalBlocks - a.firstDataBlock)
  rw [Nat.add_sub_cancel' first, prefix_, Nat.zero_add] at parts
  have reads : ∀ k < a.totalBlocks - a.firstDataBlock,
      (a.isUsed (a.firstDataBlock + k) = false ↔ ¬ isSet a.bits k = true) := by
    intro k below
    have position : a.bit (a.firstDataBlock + k) = some k :=
      bit_eq_some.mpr ⟨rfl, by omega⟩
    simp [isUsed, position]
  have every := count_add_count_of_not reads
  rw [freeCount, freeBlocks, used, parts]
  omega

/-- Nothing below the scan position is free. -/
theorem Valid.count_cursor {a : Allocator} (valid : a.Valid)
    : Nat.count (fun b => a.isUsed b = false) a.cursor = 0 :=
  Nat.count_iff_forall_not.mpr fun b below => by simp [valid.below b below]

/-- Allocation either marks the runs it gathered and moves the scan position past them, or
finds fewer free blocks than were asked for and changes nothing.
-/
theorem Valid.allocate_cases {a : Allocator} (valid : a.Valid) (count : Nat)
    : (∃ runs past,
        a.allocate count = (.ok runs, { a.markAll runs with cursor := past })
        ∧ Gathered a a.cursor count runs past
        ∧ count ≤ a.freeBlocks)
      ∨ (a.allocate count = (.error (.outOfSpace count a.freeBlocks), a)
        ∧ a.freeBlocks < count) := by
  unfold allocate
  split
  next none_ =>
    subst none_
    refine .inl ⟨[], a.cursor, rfl, ?_, Nat.zero_le _⟩
    exact ⟨le_rfl, valid.cursor, rfl, by simp, by simp, fun b least most => by omega, rfl⟩
  next some_ =>
    obtain ⟨found, missed⟩ := a.gather_spec (le_refl count) valid.cursor
    rw [valid.count_cursor] at missed
    split
    next short fails =>
      obtain ⟨pos, most, counted⟩ := missed short fails
      refine .inr ⟨?_, by omega⟩
      rw [show count - short = a.freeBlocks by omega]
    next runs past same =>
      have gathered := found runs past same
      refine .inl ⟨runs, past, rfl, gathered, ?_⟩
      have counted := gathered.counted
      rw [valid.count_cursor, Nat.zero_add] at counted
      exact counted ▸ Nat.count_monotone _ gathered.inside

/-- A contiguous allocation either marks a free run of the length asked for, or finds none.
-/
theorem Valid.allocateContiguous_cases {a : Allocator} (valid : a.Valid) (count : Nat)
    : (∃ start,
        a.allocateContiguous count = (some ⟨start, count⟩, a.markUsed ⟨start, count⟩)
        ∧ a.FreeRun start count)
      ∨ (a.allocateContiguous count = (none, a) ∧ ∀ start, ¬ a.FreeRun start count) := by
  unfold allocateContiguous
  split
  next none_ =>
    subst none_
    exact .inl ⟨a.firstDataBlock, rfl, fun b least most => by omega⟩
  next some_ =>
    have enough : a.totalBlocks - a.firstDataBlock < a.totalBlocks - a.firstDataBlock + 1 :=
      Nat.lt_succ_self _
    obtain ⟨found, missed⟩ :=
      contiguousFrom_spec valid (Nat.pos_of_ne_zero some_) enough
    split
    next missing =>
      refine .inr ⟨rfl, fun start free => ?_⟩
      by_cases low : start < a.firstDataBlock
      · have used := isUsed_of_lt_firstDataBlock low
        rw [free start le_rfl (by omega)] at used
        cases used
      · exact missed missing start (not_lt.mp low) free
    next start same => exact .inl ⟨start, rfl, (found start same).2.2⟩

end Allocator

-----------------------------------------------------------------------------------------
-- Sequences of operations
-----------------------------------------------------------------------------------------

inductive AllocOp where
  | markUsed (range : BlockRange)
  | allocate (count : Nat)
  | allocateContiguous (count : Nat)
  | allocateOne
deriving DecidableEq

inductive AllocAnswer where
  | marked
  | allocated (result : Except AllocError (List BlockRange))
  | contiguous (result : Option BlockRange)
  | one (result : Except AllocError (Option Nat))

/-- The blocks an answer hands out. -/
def AllocAnswer.handed : AllocAnswer → List BlockRange
  | .marked => []
  | .allocated (.error _) => []
  | .allocated (.ok runs) => runs
  | .contiguous result => result.toList
  | .one (.error _) => []
  | .one (.ok block) => block.toList.map fun b => ⟨b, 1⟩

/-- One operation: what it answers and the allocator it leaves. -/
def Allocator.apply (a : Allocator) : AllocOp → AllocAnswer × Allocator
  | .markUsed range => (.marked, a.markUsed range)
  | .allocate count => ((a.allocate count).map .allocated id)
  | .allocateContiguous count => ((a.allocateContiguous count).map .contiguous id)
  | .allocateOne => ((a.allocateOne).map .one id)

/-- An operation that was applied, between the allocators before and after it. -/
structure AllocStep where
  before : Allocator
  op : AllocOp
  answer : AllocAnswer
  after : Allocator

/-- The steps a sequence of operations takes from `a`. -/
def Allocator.trace (a : Allocator) : List AllocOp → List AllocStep
  | [] => []
  | op :: ops =>
      let (answer, after) := a.apply op
      ⟨a, op, answer, after⟩ :: after.trace ops

/-- What one step promises, whatever came before it. -/
structure AllocStep.Sound (s : AllocStep) : Prop where
  counted : s.before.freeCount = s.before.freeBlocks
  free : ∀ r ∈ s.answer.handed, ∀ b, r.Holds b → s.before.isUsed b = false
  allocated
    : ∀ count runs, s.op = .allocate count → s.answer = .allocated (.ok runs)
      → Chain s.before.firstDataBlock runs s.before.totalBlocks
        ∧ (runs.map Span.len).sum = count
  refuses
    : ∀ count, s.op = .allocate count
      → ((∃ error, s.answer = .allocated (.error error)) ↔ s.before.freeCount < count)
  refused
    : ∀ count error, s.op = .allocate count → s.answer = .allocated (.error error)
      → s.after = s.before ∧ error = .outOfSpace count s.before.freeCount
  contiguous
    : ∀ count, s.op = .allocateContiguous count
      → (s.answer = .contiguous none ↔ ¬ ∃ start, s.before.FreeRun start count)
  one
    : s.op = .allocateOne
      → (∃ block, s.answer = .one (.ok (some block)) ∧ 0 < s.before.freeCount)
        ∨ (s.answer = .one (.error (.outOfSpace 1 0)) ∧ s.before.freeCount = 0
            ∧ s.after = s.before)

/-- Two runs share no block. -/
def ShareNone (r s : BlockRange) : Prop := ∀ b, r.Holds b → ¬ s.Holds b

/-- What one operation leaves behind: an allocator as valid as before over the same blocks,
with everything used before still used, and what was handed out used as well.
-/
structure Allocator.Leaves (a : Allocator) (answer : AllocAnswer) (b : Allocator) : Prop where
  valid : b.Valid
  totalBlocks : b.totalBlocks = a.totalBlocks
  firstDataBlock : b.firstDataBlock = a.firstDataBlock
  keeps : ∀ c, a.isUsed c = true → b.isUsed c = true
  takes : ∀ r ∈ answer.handed, ∀ c, r.Holds c → b.isUsed c = true
  apart : answer.handed.Pairwise ShareNone

namespace Allocator

variable {a : Allocator}

/-- Moving the scan position over used blocks keeps an allocator valid. -/
theorem Valid.moveCursor {past : Nat} (valid : a.Valid) (onward : a.cursor ≤ past)
    (below : ∀ b < past, a.isUsed b = true) (inside : past ≤ a.totalBlocks)
    : ({ a with cursor := past } : Allocator).Valid :=
  ⟨below, valid.beyond, inside, valid.first.trans onward, valid.covered⟩

theorem chain_shareNone {lo hi : Nat} {runs : List BlockRange} (h : Chain lo runs hi)
    : runs.Pairwise ShareNone :=
  h.pairwise_apart.imp fun apart _ => apart.not_holds

/-- Marking what was gathered leaves everything up to where gathering stopped used. -/
theorem Valid.leaves_of_gathered (valid : a.Valid) {count past : Nat} {runs : List BlockRange}
    (gathered : Gathered a a.cursor count runs past)
    : Leaves a (.allocated (.ok runs)) { a.markAll runs with cursor := past } := by
  have same := a.markAll_sameShape runs
  have keeps : ∀ c, a.isUsed c = true → (a.markAll runs).isUsed c = true :=
    fun c used => (isUsed_markAll runs c).mpr (.inl used)
  refine ⟨?_, same.totalBlocks, same.firstDataBlock, keeps, ?_, chain_shareNone gathered.chain⟩
  · refine (valid.mark same keeps).moveCursor (same.cursor ▸ gathered.chain.le) (fun b below => ?_)
      (same.totalBlocks ▸ gathered.inside)
    by_cases before : b < a.cursor
    · exact keeps b (valid.below b before)
    · exact (isUsed_markAll runs b).mpr (gathered.taken b (not_lt.mp before) below)
  · intro r member c holds
    exact (isUsed_markAll runs c).mpr (.inr ⟨r, member, holds⟩)

/-- Every operation leaves a valid allocator, by cases over the operations. -/
theorem Valid.apply_leaves (valid : a.Valid) (op : AllocOp)
    : Leaves a (a.apply op).1 (a.apply op).2 := by
  have unchanged : ∀ answer : AllocAnswer, answer.handed = [] → Leaves a answer a :=
    fun answer nothing => ⟨valid, rfl, rfl, fun _ used => used, by simp [nothing], by
      simp [nothing]⟩
  have marked : ∀ (answer : AllocAnswer) (range : BlockRange),
      (∀ r ∈ answer.handed, r = range) → answer.handed.Pairwise ShareNone
      → Leaves a answer (a.markUsed range) := by
    intro answer range only apart
    have same := a.markUsed_sameShape range
    have keeps : ∀ c, a.isUsed c = true → (a.markUsed range).isUsed c = true :=
      fun c used => (isUsed_markUsed range c).mpr (.inl used)
    refine ⟨valid.mark same keeps, same.totalBlocks, same.firstDataBlock, keeps, ?_, apart⟩
    intro r member c holds
    exact (isUsed_markUsed range c).mpr (.inr (only r member ▸ holds))
  cases op with
  | markUsed range => exact marked _ range (by simp [apply, AllocAnswer.handed]) .nil
  | allocate count =>
      rcases valid.allocate_cases count with ⟨runs, past, done, gathered, -⟩ | ⟨done, -⟩
      · simp only [apply, done]
        exact valid.leaves_of_gathered gathered
      · simp only [apply, done]
        exact unchanged _ rfl
  | allocateContiguous count =>
      rcases valid.allocateContiguous_cases count with ⟨start, done, -⟩ | ⟨done, -⟩
      · simp only [apply, done]
        refine marked _ ⟨start, count⟩ ?_ ?_
        · simp [AllocAnswer.handed]
        · exact List.pairwise_singleton _ _
      · simp only [apply, done]
        exact unchanged _ rfl
  | allocateOne =>
      rcases valid.allocate_cases 1 with ⟨runs, past, done, gathered, -⟩ | ⟨done, -⟩
      · have leaves := valid.leaves_of_gathered gathered
        obtain ⟨b, rfl⟩ := gathered.single
        simp only [apply, allocateOne, done]
        exact ⟨leaves.valid, leaves.totalBlocks, leaves.firstDataBlock, leaves.keeps,
          leaves.takes, leaves.apart⟩
      · simp only [apply, allocateOne, done]
        exact unchanged _ rfl

/-- Every operation keeps what it promises, by cases over the operations. -/
theorem Valid.apply_sound (valid : a.Valid) (op : AllocOp)
    : AllocStep.Sound ⟨a, op, (a.apply op).1, (a.apply op).2⟩ := by
  have counted := valid.freeCount_eq
  cases op with
  | markUsed range =>
      refine ⟨counted, by simp [apply, AllocAnswer.handed], ?_, ?_, ?_, ?_, ?_⟩
      all_goals simp
  | allocate count =>
      rcases valid.allocate_cases count with ⟨runs, past, done, gathered, room⟩ | ⟨done, full⟩
      · simp only [apply, done, Prod.map, id]
        refine ⟨counted, gathered.free, ?_, ?_, ?_, by simp, by simp⟩
        · rintro _ _ ⟨⟩ ⟨⟩
          exact ⟨gathered.chain.widen valid.first gathered.inside, gathered.sum⟩
        · rintro _ ⟨⟩
          simp only [AllocAnswer.allocated.injEq, reduceCtorEq, exists_false, false_iff,
            not_lt, counted]
          exact room
        · rintro _ _ _ ⟨⟩
      · simp only [apply, done, Prod.map, id]
        refine ⟨counted, by simp [AllocAnswer.handed], by simp, ?_, ?_, by simp, by simp⟩
        · rintro _ ⟨⟩
          exact ⟨fun _ => counted ▸ full, fun _ => ⟨_, rfl⟩⟩
        · rintro _ _ ⟨⟩ ⟨⟩
          exact ⟨rfl, by rw [counted]⟩
  | allocateContiguous count =>
      rcases valid.allocateContiguous_cases count with ⟨start, done, free⟩ | ⟨done, none_⟩
      · simp only [apply, done, Prod.map, id]
        refine ⟨counted, ?_, by simp, by simp, by simp, ?_, by simp⟩
        · simp only [AllocAnswer.handed, Option.toList_some, List.mem_singleton]
          rintro r rfl b holds
          exact free b holds.1 holds.2
        · rintro _ ⟨⟩
          simp only [AllocAnswer.contiguous.injEq, reduceCtorEq, false_iff, not_not]
          exact ⟨start, free⟩
      · simp only [apply, done, Prod.map, id]
        refine ⟨counted, by simp [AllocAnswer.handed], by simp, by simp, by simp, ?_, by simp⟩
        rintro _ ⟨⟩
        simp only [true_iff, not_exists]
        exact none_
  | allocateOne =>
      rcases valid.allocate_cases 1 with ⟨runs, past, done, gathered, room⟩ | ⟨done, full⟩
      · obtain ⟨b, rfl⟩ := gathered.single
        simp only [apply, allocateOne, done, Prod.map, id]
        refine ⟨counted, gathered.free, by simp, by simp, by simp, by simp, fun _ => ?_⟩
        exact .inl ⟨b, rfl, counted ▸ room⟩
      · simp only [apply, allocateOne, done, Prod.map, id]
        refine ⟨counted, by simp [AllocAnswer.handed, Except.map], by simp, by simp, by simp,
          by simp, fun _ => ?_⟩
        obtain zero : a.freeBlocks = 0 := by omega
        exact .inr ⟨by rw [zero]; rfl, counted.trans zero, rfl⟩

/-- Over a run of operations from a valid allocator every step keeps its promises, and what
the run hands out was free at its start and is handed out once, by induction over the
operations: what one step hands out is used in every later one.
-/
theorem Valid.trace_sound (valid : a.Valid) (ops : List AllocOp)
    : (∀ s ∈ a.trace ops, s.Sound
        ∧ s.before.totalBlocks = a.totalBlocks ∧ s.before.firstDataBlock = a.firstDataBlock)
      ∧ ((a.trace ops).flatMap fun s => s.answer.handed).Pairwise ShareNone
      ∧ ∀ r ∈ (a.trace ops).flatMap fun s => s.answer.handed,
          ∀ b, r.Holds b → a.isUsed b = false := by
  induction ops generalizing a with
  | nil => simp [trace]
  | cons op ops ih =>
      have sound := valid.apply_sound op
      have leaves := valid.apply_leaves op
      obtain ⟨steps, once, free⟩ := ih leaves.valid
      simp only [trace, List.flatMap_cons]
      refine ⟨?_, ?_, ?_⟩
      · intro s member
        rcases List.mem_cons.mp member with rfl | later
        · exact ⟨sound, rfl, rfl⟩
        · obtain ⟨kept, total, first⟩ := steps s later
          exact ⟨kept, total.trans leaves.totalBlocks, first.trans leaves.firstDataBlock⟩
      · refine List.pairwise_append.mpr ⟨leaves.apart, once, ?_⟩
        intro r here s there b holds also
        have used := leaves.takes r here b holds
        rw [free s there b also] at used
        cases used
      · intro r member b holds
        rcases List.mem_append.mp member with here | there
        · exact sound.free r here b holds
        · by_contra used
          have still := leaves.keeps b (by simpa using used)
          rw [free r there b holds] at still
          cases still

end Allocator

-----------------------------------------------------------------------------------------
-- From a planned layout
-----------------------------------------------------------------------------------------

/-- The groups' bitmaps describe every block of a planned layout, a whole byte at a time. -/
theorem Planned.described_blocks {request : PlanRequest} {layout : Layout}
    (plan : Planned request layout)
    : layout.firstDataBlock ≤ layout.totalBlocks
      ∧ layout.totalBlocks
        ≤ layout.firstDataBlock + 8 * (layout.groupCount * layout.blocksPerGroup / 8) := by
  have all := (PlanRequest.lt_groupsFor_iff plan.sized plan.room).not.mp
    (lt_irrefl (request.groupsFor request.keptBlocks))
  have perGroup : layout.blocksPerGroup = request.blocksPerGroup := by
    rw [plan.layout_eq_placed]
    rfl
  have bytes : layout.groupCount * layout.blocksPerGroup
      = 8 * (layout.groupCount * layout.feature.blockSize) := by
    rw [perGroup, PlanRequest.blocksPerGroup, plan.layout_feature, Nat.mul_left_comm]
  have room := plan.room
  rw [bytes, Nat.mul_div_cancel_left _ (by decide), ← bytes, perGroup, plan.layout_totalBlocks,
    plan.layout_firstDataBlock, plan.layout_groupCount]
  exact ⟨room.le, not_lt.mp all⟩

/-- A layout whose bitmaps the platform addresses has an allocator. -/
theorem Allocator.exists_new {usizeMax : Nat} {layout : Layout}
    (fits : layout.groupCount * layout.blocksPerGroup / 8 ≤ usizeMax)
    : ∃ start, Allocator.new usizeMax layout = .ok start :=
  ⟨_, if_neg (not_lt.mpr fits)⟩

/-- A new allocator is valid, and every block of the layout's metadata is used in it. -/
theorem Allocator.new_valid {usizeMax : Nat} {request : PlanRequest} {layout : Layout}
    {start : Allocator} (plan : Planned request layout)
    (created : Allocator.new usizeMax layout = .ok start)
    : start.Valid
      ∧ start.totalBlocks = layout.totalBlocks
      ∧ start.firstDataBlock = layout.firstDataBlock
      ∧ ∀ m ∈ layout.metadataRegions, ∀ b, m.Holds b → start.isUsed b = true := by
  obtain ⟨first, described⟩ := plan.described_blocks
  simp only [Allocator.new] at created
  split at created
  next => cases created
  next =>
    obtain rfl := Except.ok.inj created
    set blank : Allocator :=
      {
        bits := List.replicate (layout.groupCount * layout.blocksPerGroup / 8) 0
        totalBlocks := layout.totalBlocks
        blocksPerGroup := layout.blocksPerGroup
        bytesPerGroup := layout.blocksPerGroup / 8
        firstDataBlock := layout.firstDataBlock
        cursor := layout.firstDataBlock
      } with blank_eq
    have length : blank.bits.length = layout.groupCount * layout.blocksPerGroup / 8 := by
      simp [blank_eq]
    set tail : BlockRange := ⟨layout.totalBlocks,
      layout.firstDataBlock + layout.groupCount * layout.blocksPerGroup - layout.totalBlocks⟩
      with tail_eq
    have padded := blank.markUsed_sameShape tail
    have marked := (blank.markUsed tail).markAll_sameShape layout.metadataRegions
    have same := padded.trans marked
    have keeps : ∀ c, blank.isUsed c = true ∨ tail.Holds c
        → ((blank.markUsed tail).markAll layout.metadataRegions).isUsed c = true :=
      fun c used => (isUsed_markAll _ c).mpr (.inl ((isUsed_markUsed _ c).mpr used))
    refine ⟨⟨?_, ?_, ?_, ?_, ?_⟩, same.totalBlocks, same.firstDataBlock, ?_⟩
    · intro b below
      have low : b < blank.cursor := same.cursor ▸ below
      exact keeps b (.inl (isUsed_of_lt_firstDataBlock low))
    · intro b beyond
      rw [same.totalBlocks] at beyond
      by_cases inTail : b < layout.firstDataBlock + layout.groupCount * layout.blocksPerGroup
      · refine keeps b (.inr ⟨beyond, ?_⟩)
        simp only [tail_eq, Span.stop_mk]
        omega
      · refine keeps b (.inl (isUsed_of_covered_le ?_))
        rw [length]
        have bits : blank.firstDataBlock = layout.firstDataBlock := rfl
        omega
    · rw [same.cursor, same.totalBlocks]
      exact first
    · rw [same.firstDataBlock, same.cursor]
    · rw [same.firstDataBlock, same.totalBlocks, same.length, length]
      exact described
    · intro m member b holds
      exact (isUsed_markAll _ b).mpr (.inr ⟨m, member, holds⟩)

/-- What a run of operations on a layout's allocator promises. -/
structure AllocStep.Honest (layout : Layout) (steps : List AllocStep) : Prop where
  once : (steps.flatMap fun s => s.answer.handed).Pairwise ShareNone
  inside
    : ∀ r ∈ steps.flatMap fun s => s.answer.handed, ∀ b, r.Holds b
      → layout.firstDataBlock ≤ b ∧ b < layout.totalBlocks
        ∧ ∀ m ∈ layout.metadataRegions, ¬ m.Holds b
  sound
    : ∀ s ∈ steps, s.Sound
      ∧ s.before.totalBlocks = layout.totalBlocks
      ∧ s.before.firstDataBlock = layout.firstDataBlock

/-- Any sequence of operations on the allocator of a planned layout is honest. -/
theorem allocator_trace_honest {usizeMax : Nat} {request : PlanRequest} {layout : Layout}
    {start : Allocator} (planned : planLayout request = .ok layout)
    (created : Allocator.new usizeMax layout = .ok start) (ops : List AllocOp)
    : AllocStep.Honest layout (start.trace ops) := by
  obtain ⟨valid, total, first, metadata⟩ := Allocator.new_valid (planLayout_ok planned) created
  obtain ⟨steps, once, free⟩ := valid.trace_sound ops
  rw [total, first] at steps
  refine ⟨once, ?_, steps⟩
  intro r member b holds
  have unused := free r member b holds
  have notUsed : ¬ start.isUsed b = true := by simp [unused]
  refine ⟨?_, ?_, fun m isMeta inMeta => notUsed (metadata m isMeta b inMeta)⟩
  · by_contra low
    exact notUsed (Allocator.isUsed_of_lt_firstDataBlock (by omega))
  · by_contra past
    exact notUsed (valid.beyond b (by omega))

/-- Witness: a run of operations over the default filesystem of 64 MiB, on a platform of
64-bit addresses.
-/
theorem allocator_trace_honest_of_64MiB
    : ∃ layout start,
        planLayout (.new (64 * 1024 * 1024) .default) = .ok layout
        ∧ Allocator.new (2 ^ 64 - 1) layout = .ok start
        ∧ AllocStep.Honest layout
          (start.trace [.allocate 3, .allocateContiguous 7, .allocateOne, .markUsed ⟨0, 9⟩]) := by
  obtain ⟨layout, planned⟩ :=
    exists_eq_ok (planLayout (.new (64 * 1024 * 1024) .default)) (by decide +kernel)
  have fits : (planLayout (.new (64 * 1024 * 1024) .default)).toOption.all (fun layout =>
      layout.groupCount * layout.blocksPerGroup / 8 ≤ 2 ^ 64 - 1) = true := by
    decide +kernel
  simp only [planned, Except.toOption, Option.all_some, decide_eq_true_eq] at fits
  obtain ⟨start, created⟩ := Allocator.exists_new fits
  exact ⟨layout, start, planned, created, allocator_trace_honest planned created _⟩

end Ferrosys.Ext
