import Ferrosys.Apfs.Space.Comparison

/-! When the check of a container's space is exact: what it counts and what it reports as claimed
twice against the blocks its structures reach, its queue holds and its bitmaps mark.
-/

namespace Ferrosys.Apfs.Space

open Sweep

/-- A block of the container that a call reaches. -/
def Reached (blockCount : Nat) (calls : List Reach) (n : Nat) : Prop :=
  n < blockCount ∧ ∃ call ∈ calls, call.Has n

/-- A block one of a queue's runs holds. -/
def Queued (queue : List (Run Nat)) (n : Nat) : Prop := ∃ run ∈ queue, run.Has n

section

variable {blockCount : Nat} {calls : List Reach}

/-- The runs reached are not empty. -/
theorem reached_solid : ∀ run ∈ reached blockCount calls, run.start < run.stop := by
  intro run member
  obtain ⟨call, -, made⟩ := List.mem_filterMap.mp member
  unfold Reach.run at made
  split at made
  · cases made
  · dsimp only at made
    split at made
    next some_ =>
      obtain rfl := Option.some.inj made
      exact some_
    next => cases made

/-- The runs reached hold the blocks reached. -/
theorem has_reached (addressed : blockCount < 2 ^ 64) (n : Nat)
    : (∃ run ∈ reached blockCount calls, run.Has n) ↔ Reached blockCount calls n := by
  simp only [reached, List.mem_filterMap]
  constructor
  · rintro ⟨run, ⟨call, member, made⟩, low, high⟩
    unfold Reach.run at made
    split at made
    · cases made
    · dsimp only at made
      split at made
      next =>
        obtain rfl := Option.some.inj made
        change call.start ≤ n at low
        change n < min (min (call.start + call.count) (2 ^ 64 - 1)) blockCount at high
        exact ⟨by omega, call, member, low, by omega⟩
      next => cases made
  · rintro ⟨inside, call, member, low, high⟩
    have stop : n < min (saturatingAdd call.start call.count) blockCount := by
      unfold saturatingAdd
      omega
    refine ⟨⟨call.start, min (saturatingAdd call.start call.count) blockCount, call.by_⟩,
      ⟨call, member, ?_⟩, low, stop⟩
    rw [Reach.run, if_neg (by omega)]
    exact if_pos (by omega)

end

/-- The runs accounted for are in the order they begin. -/
theorem account_sorted (merged : List (Run By)) (queue : List (Run Nat))
    : (account merged queue).Pairwise fun a b => a.start ≤ b.start := by
  have total : Std.Total fun a b : Run By => a.start ≤ b.start :=
    ⟨fun a b => Nat.le_total a.start b.start⟩
  have trans : IsTrans (Run By) fun a b => a.start ≤ b.start := ⟨fun _ _ _ => Nat.le_trans⟩
  exact List.pairwise_insertionSort _ _

/-- What is accounted for is what is reached or queued. -/
theorem isAccounted_account (merged : List (Run By)) (queue : List (Run Nat)) (n : Nat)
    : isAccounted (account merged queue) n = true
      ↔ (∃ run ∈ merged, run.Has n) ∨ Queued queue n := by
  simp only [isAccounted, List.any_eq_true, decide_eq_true_eq, account, List.mem_insertionSort,
    List.mem_append, List.mem_map, or_and_right, exists_or, Queued]
  refine or_congr_right ⟨?_, ?_⟩
  · rintro ⟨_, ⟨run, member, rfl⟩, has⟩
    exact ⟨run, member, has⟩
  · rintro ⟨run, member, has⟩
    exact ⟨_, ⟨run, member, rfl⟩, has⟩

/-- A queue's runs are in order. -/
theorem queueRuns_sorted (low high : Nat) (records : List Freed)
    : (queueRuns low high records).Pairwise Run.Before := by
  refine (List.pairwise_insertionSort Run.QueueBefore _).imp fun {a b} before => ?_
  unfold Run.QueueBefore at before
  unfold Run.Before
  omega

theorem mem_queueRuns {low high : Nat} {records : List Freed} {run : Run Nat}
    : run ∈ queueRuns low high records
      ↔ ∃ record ∈ records, record.inside low high = true ∧ record.run = run := by
  simp only [queueRuns, List.mem_insertionSort, List.mem_map, List.mem_filter, and_assoc]

/-- The check is exact: it counts the blocks compared that are reached or queued and not marked, and
those marked and neither; it reports as reached twice the runs that share a block with one that
begins no later, as far as it reports any; as queued and still reached the queued runs that share a
block with a reached one; and as queued twice those that share one with a queued one before.
-/
structure Exact (chunked : Chunked) (calls : List Reach) (records : List Freed)
    (pool : List (Nat × String)) : Prop where
  inUseFree : ∀ comparison
    ∈ (chunked.hold calls (some (queueRuns 0 chunked.blockCount records)) pool).2.2,
    comparison.inUseFree.count = Set.ncard {n | n < chunked.blockCount ∧ chunked.compared n = true
      ∧ (Reached chunked.blockCount calls n ∨ Queued (queueRuns 0 chunked.blockCount records) n)
      ∧ chunked.marked n = false}
  unreached : ∀ comparison
    ∈ (chunked.hold calls (some (queueRuns 0 chunked.blockCount records)) pool).2.2,
    comparison.unreached.count = Set.ncard {n | n < chunked.blockCount ∧ chunked.compared n = true
      ∧ chunked.marked n = true
      ∧ ¬(Reached chunked.blockCount calls n ∨ Queued (queueRuns 0 chunked.blockCount records) n)}
  overlaps :
    (chunked.hold calls (some (queueRuns 0 chunked.blockCount records)) pool).1.map (·.block)
    = ((clashes [] ((reached chunked.blockCount calls).insertionSort Run.Before)).map
        (·.start)).take overlapCap
  stillReached :
    (chunked.hold calls (some (queueRuns 0 chunked.blockCount records)) pool).2.1.map (·.1)
    = (queueRuns 0 chunked.blockCount records).filter fun run =>
        ∃ other ∈ reached chunked.blockCount calls, other.Meets run
  queuedTwice : (Space.overlaps (queueRuns 0 chunked.blockCount records)).map (·.2)
      = clashes [] (queueRuns 0 chunked.blockCount records)
    ∧ ∀ pair ∈ Space.overlaps (queueRuns 0 chunked.blockCount records),
      pair.1 ∈ queueRuns 0 chunked.blockCount records ∧ pair.1.Meets pair.2

/-- The condition under which it is: a record of no blocks lies at the container's first block or
past its last.
-/
def Placed (blockCount : Nat) (records : List Freed) : Prop :=
  ∀ record ∈ records, record.count = 0 → record.address = 0 ∨ blockCount ≤ record.address

/-- Where a queue's empty runs are placed so, each begins at the container's first block or its
end.
-/
theorem placed_run {blockCount : Nat} (addressed : blockCount < 2 ^ 64) {records : List Freed}
    (placed : Placed blockCount records) {run : Run Nat}
    (member : run ∈ queueRuns 0 blockCount records)
    : run.stop ≤ blockCount ∧ (run.stop ≤ run.start → run.start = 0 ∨ blockCount ≤ run.start) := by
  obtain ⟨record, listed, inside, rfl⟩ := mem_queueRuns.mp member
  simp only [Freed.inside, Nat.zero_le, decide_true, Bool.true_and, decide_eq_true_eq] at inside
  refine ⟨inside, fun empty => ?_⟩
  by_cases none_ : record.count = 0
  · exact placed record listed none_
  · change min (record.address + record.count) (2 ^ 64 - 1) ≤ record.address at empty
    exact .inr (show blockCount ≤ record.address by omega)

/-- Where its empty runs are placed so, none is strictly inside another run. -/
theorem unpierced_of_placed {blockCount : Nat} (addressed : blockCount < 2 ^ 64)
    {records : List Freed} (placed : Placed blockCount records)
    : Unpierced (queueRuns 0 blockCount records) := by
  intro point member empty run listed
  obtain ⟨-, ends⟩ := placed_run addressed placed member
  obtain ⟨inside, -⟩ := placed_run addressed placed listed
  rcases ends empty with first | last <;> omega

/-- A run queued, and empty where placed so, is found to be reached exactly where it shares a block
with a run that is.
-/
theorem covered_merge {blockCount : Nat} {calls : List Reach} (addressed : blockCount < 2 ^ 64)
    {run : Run Nat} (placed : run.stop ≤ run.start → run.start = 0 ∨ blockCount ≤ run.start)
    : (covered (merge (reached blockCount calls)).1 run.start run.stop).isSome = true
      ↔ ∃ other ∈ reached blockCount calls, other.Meets run := by
  obtain ⟨apart, solid, has, -⟩ := merge_spec (@reached_solid blockCount calls)
  rw [covered_isSome apart solid]
  constructor
  · rintro ⟨other, member, ends, begins⟩
    have within : other.stop - 1 < blockCount := by
      have some_ := solid other member
      have last := (has (other.stop - 1)).mp ⟨other, member, by omega, by omega⟩
      exact ((has_reached addressed _).mp last).1
    have some_ := solid other member
    have inside : run.start < run.stop := by
      by_contra empty
      rcases placed (Nat.not_lt.mp empty) with first | last <;> omega
    obtain ⟨found, listed, holds⟩ :=
      (has (max other.start run.start)).mp ⟨other, member, by omega, by omega⟩
    exact ⟨found, listed, _, holds, by omega, by omega⟩
  · rintro ⟨other, member, n, holds, low, high⟩
    obtain ⟨found, listed, low', high'⟩ := (has n).mpr ⟨other, member, holds⟩
    exact ⟨found, listed, by omega, by omega⟩

/-- The runs still reached are the queued ones that are found to be. -/
theorem map_stillReached (merged : List (Run By)) (queue : List (Run Nat))
    : (stillReached merged queue).map (·.1)
      = queue.filter fun run => (covered merged run.start run.stop).isSome := by
  induction queue with
  | nil => rfl
  | cons run rest ih =>
      rw [stillReached, List.filterMap_cons, List.filter_cons]
      cases covered merged run.start run.stop with
      | none => exact ih
      | some by_ => exact congrArg (run :: ·) ih

/-- Blocks of a kind counted one by one are as many as there are. -/
theorem count_eq_ncard {kind : Nat → Bool} {blocks : Nat} {set : Set Nat}
    (same : ∀ n, n ∈ set ↔ n < blocks ∧ kind n = true)
    : Nat.count (kind · = true) blocks = set.ncard := by
  have listed : set = ↑((Finset.range blocks).filter (kind · = true)) := by
    ext n
    simp only [same, Finset.coe_filter, Finset.mem_range, Set.mem_ofPred_eq]
  rw [listed, Set.ncard_coe_finset, Nat.count_eq_card_filter_range]

theorem idle_blockSize_pos : 0 < 4096 := by decide

/-- A container of ten blocks, none of them in use. -/
def idle : Chunked where
  blockCount := 10
  blockSize := 4096
  live := 1
  freeCount := 10
  chunks := [⟨1, 0, 10, 10, 0⟩]
  readBlocks := fun _ => .ok []
  blockSize_pos := idle_blockSize_pos
  addressed := by decide
  counted := by decide

end Ferrosys.Apfs.Space
