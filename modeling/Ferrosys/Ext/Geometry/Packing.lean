import Ferrosys.Ext.Geometry.Verdict

/-! Packing where nothing is in the way: a flex group whose bitmaps and tables fit beside the copy in
its first group is packed there in one run.
-/

namespace Ferrosys.Ext

open Arith Spans

/-- No window reaches between two blocks. -/
def ClearOf (windows : List BlockRange) (lo hi : Nat) : Prop :=
  ∀ w ∈ windows, w.stop ≤ lo ∨ hi ≤ w.start

theorem ClearOf.narrow {windows : List BlockRange} {lo lo' hi hi' : Nat} (clear : ClearOf windows lo hi)
    (first : lo ≤ lo') (last : hi' ≤ hi) : ClearOf windows lo' hi' :=
  fun w member => (clear w member).imp (·.trans first) last.trans

/-- A run no window reaches is placed where it is asked for. -/
theorem firstFit_of_clear {windows : List BlockRange} {start len : Nat}
    (clear : ClearOf windows start (start + len)) : firstFit start len windows = start := by
  have none_ : windows.find? (meets start len) = none := by
    refine List.find?_eq_none.mpr fun w member met => ?_
    simp only [meets, Bool.and_eq_true, decide_eq_true_eq] at met
    rcases clear w member with before | after <;> omega
  rw [firstFit, firstFitLoop]
  split
  next => rfl
  next w hit =>
    rw [none_] at hit
    cases hit

/-- Runs no window reaches are placed one after another, by induction on how many there are. -/
theorem placeEach_of_clear {windows : List BlockRange} {len count cursor : Nat}
    (clear : ClearOf windows cursor (cursor + count * len))
    : (placeEach windows len count cursor).2 = cursor + count * len
      ∧ (0 < count → (placeEach windows len count cursor).1.headD 0 = cursor) := by
  induction count generalizing cursor with
  | zero => exact ⟨by rw [Nat.zero_mul]; rfl, fun none_ => absurd none_ (lt_irrefl 0)⟩
  | succ count ih =>
      rw [Nat.succ_mul] at clear
      have here := firstFit_of_clear (clear.narrow le_rfl (show cursor + len ≤ _ by omega))
      have rest := @ih (cursor + len) (clear.narrow (by omega) (by omega))
      rw [placeEach, here]
      refine ⟨?_, fun _ => rfl⟩
      change (placeEach windows len count (cursor + len)).2 = _
      rw [rest.1, Nat.succ_mul]
      omega

/-- Where a flex head's metadata begins, where nothing is in its way. -/
def Layout.flexBase (layout : Layout) (head : Nat) : Nat :=
  layout.startOf head + layout.superOverheadLen head

/-- A flex head whose run no window reaches packs it straight. -/
theorem placeHead_of_clear {layout : Layout} {windows : List BlockRange} {head placedEnd : Nat}
    (some_ : 0 < layout.flexMembers head) (full : layout.flexMembers head ≤ layout.flexSlots head)
    (free : placedEnd ≤ layout.flexBase head)
    (clear : ClearOf windows (layout.flexBase head)
      (layout.flexBase head + layout.flexMetaSpan head))
    : (placeHead layout windows head placedEnd).2
      = layout.flexBase head + layout.flexMetaSpan head := by
  have whole : layout.flexMetaSpan head
      = layout.flexSlots head + layout.flexSlots head
        + layout.flexMembers head * layout.inodeTableBlocks := by
    rw [Layout.flexMetaSpan, Nat.two_mul]
  have begin_ : max (layout.startOf head + layout.superOverheadLen head) placedEnd
      = layout.flexBase head := Nat.max_eq_left free
  have blocks := @placeEach_of_clear windows 1 (layout.flexMembers head) (layout.flexBase head)
    (clear.narrow le_rfl (by omega))
  have blocksTo := blocks.2 some_
  have inodes := @placeEach_of_clear windows 1 (layout.flexMembers head)
    (layout.flexBase head + layout.flexSlots head) (clear.narrow (by omega) (by omega))
  have inodesTo := inodes.2 some_
  have tables := @placeEach_of_clear windows layout.inodeTableBlocks (layout.flexMembers head)
    (layout.flexBase head + layout.flexSlots head + layout.flexSlots head)
    (clear.narrow (by omega) (by omega))
  have first : max (layout.flexBase head + layout.flexMembers head * 1)
      (layout.flexBase head + layout.flexSlots head)
      = layout.flexBase head + layout.flexSlots head := by omega
  have second : max (layout.flexBase head + layout.flexSlots head + layout.flexMembers head * 1)
      (layout.flexBase head + layout.flexSlots head + layout.flexSlots head)
      = layout.flexBase head + layout.flexSlots head + layout.flexSlots head := by omega
  simp only [placeHead, begin_, blocks.1, blocksTo, first, inodes.1, inodesTo, second, tables.1]
  omega

/-- Flex heads in order, each with its run clear and before the next one's, are packed within what
the last reaches, by induction on the heads.
-/
theorem placeFlex_of_clear {layout : Layout} {windows : List BlockRange} {heads : List Nat}
    {placedEnd bound : Nat} (start : placedEnd ≤ bound)
    (each : ∀ head ∈ heads, 0 < layout.flexMembers head
      ∧ layout.flexMembers head ≤ layout.flexSlots head
      ∧ placedEnd ≤ layout.flexBase head
      ∧ ClearOf windows (layout.flexBase head)
          (layout.flexBase head + layout.flexMetaSpan head)
      ∧ layout.flexBase head + layout.flexMetaSpan head ≤ bound)
    (order : heads.Pairwise fun head later =>
      layout.flexBase head + layout.flexMetaSpan head ≤ layout.flexBase later)
    : (placeFlex layout windows heads placedEnd).2 ≤ bound := by
  induction heads generalizing placedEnd with
  | nil => exact start
  | cons head heads ih =>
      obtain ⟨some_, full, free, clear, within⟩ := each head List.mem_cons_self
      obtain ⟨before, later⟩ := List.pairwise_cons.mp order
      have packed := placeHead_of_clear some_ full free clear
      change (placeFlex layout windows heads (placeHead layout windows head placedEnd).2).2 ≤ bound
      rw [packed]
      refine ih within (fun other member => ?_) later
      obtain ⟨some_, full, -, clear, within⟩ := each other (List.mem_cons_of_mem _ member)
      exact ⟨some_, full, before other member, clear, within⟩

/-- Where every flex head's metadata fits beside the copy in its own group, the packing ends inside
the filesystem.
-/
theorem PlanRequest.packedEndAt_le {request : PlanRequest} (sized : request.feature.Sized)
    {blocks : Nat} (room : request.firstDataBlock < blocks)
    (flex : request.feature.hasFlexBg = true)
    (copies : 2 ≤ request.groupsFor blocks → request.copyLenAt blocks ≤ request.blocksPerGroup)
    (fits : ∀ head < request.groupsFor blocks, head % 16 = 0 →
      (request.unplacedAt blocks).superOverheadLen head + (request.unplacedAt blocks).flexMetaSpan head
        ≤ (groupRange request blocks head).blockCount)
    : request.packedEndAt blocks ≤ blocks := by
  have pos := blocksPerGroup_pos sized
  have startAt : ∀ index < request.groupsFor blocks, (request.unplacedAt blocks).startOf index
      = request.firstDataBlock + index * request.blocksPerGroup := by
    intro index below
    rw [Layout.startOf, groups_unplacedAt, List.getElem?_map, List.getElem?_range below]
    rfl
  have count : ∀ index, (groupRange request blocks index).blockCount
      ≤ request.blocksPerGroup := by
    intro index
    change min _ _ - _ ≤ _
    omega
  have inside : ∀ index < request.groupsFor blocks,
      request.firstDataBlock + index * request.blocksPerGroup
        + (groupRange request blocks index).blockCount ≤ blocks := by
    intro index below
    have first := (lt_groupsFor_iff sized room).mp below
    change _ + (min _ _ - _) ≤ _
    omega
  -- a group's first block is a whole group past the one before
  have apart : ∀ index later, index < later →
      request.firstDataBlock + index * request.blocksPerGroup + request.blocksPerGroup
        ≤ request.firstDataBlock + later * request.blocksPerGroup := by
    intro index later before
    have step : (index + 1) * request.blocksPerGroup ≤ later * request.blocksPerGroup :=
      Nat.mul_le_mul_right _ before
    rw [Nat.succ_mul] at step
    omega
  have known : ∀ head ∈ flexHeads (request.unplacedAt blocks),
      head < request.groupsFor blocks ∧ head % 16 = 0 := by
    intro head member
    obtain ⟨flexGroup, isGroup, rfl⟩ := List.mem_map.mp member
    have most : flexGroup * 16 < request.groupsFor blocks :=
      (lt_divCeil_iff (show 0 < 16 by decide)).mp (List.mem_range.mp isGroup)
    exact ⟨most, Nat.mul_mod_left _ _⟩
  have base : ∀ head < request.groupsFor blocks, (request.unplacedAt blocks).flexBase head
      = request.firstDataBlock + head * request.blocksPerGroup
        + (request.unplacedAt blocks).superOverheadLen head := by
    intro head below
    rw [Layout.flexBase, startAt head below]
  have order : ∀ head later, head < later → head < request.groupsFor blocks →
      later < request.groupsFor blocks → head % 16 = 0 →
      (request.unplacedAt blocks).flexBase head + (request.unplacedAt blocks).flexMetaSpan head
        ≤ (request.unplacedAt blocks).flexBase later := by
    intro head later before below isLater heads
    have metadata := fits head below heads
    have size := count head
    have gap := apart head later before
    rw [base head below, base later isLater]
    omega
  have flexed : (request.unplacedAt blocks).feature.hasFlexBg = true := flex
  rw [packedEndAt, placements, if_pos flexed]
  refine placeFlex_of_clear (Nat.zero_le _) (fun head member => ?_) ?_
  · obtain ⟨below, heads⟩ := known head member
    have metadata := fits head below heads
    have most := inside head below
    rw [base head below]
    have members : (request.unplacedAt blocks).flexMembers head
        = min (request.groupsFor blocks - head) 16 := rfl
    refine ⟨by omega, ?_, Nat.zero_le _, fun w window => ?_, by omega⟩
    · unfold Layout.flexSlots
      split
      next one =>
        rw [one]
        exact Nat.le_of_ble_eq_true rfl
      next => exact le_rfl
    · obtain ⟨index, isIndex, region⟩ := List.mem_filterMap.mp window
      have bound : index < request.groupsFor blocks := List.mem_range.mp isIndex
      rw [unplacedAt_superOverheadRegion bound] at region
      by_cases copy : request.hasSuper index
      · rw [if_pos copy] at region
        obtain rfl := Option.some.inj region
        rw [Span.stop_mk]
        have size := count head
        rcases Nat.lt_trichotomy index head with before | rfl | after
        · have gap := apart index head before
          have short := copies (by omega)
          left
          omega
        · left
          rw [unplacedAt_superOverheadLen bound, if_pos copy]
        · have gap := apart head index after
          right
          change _ ≤ request.firstDataBlock + index * request.blocksPerGroup
          omega
      · rw [if_neg copy] at region
        cases region
  · refine List.pairwise_map.mpr (List.pairwise_lt_range.imp_of_mem fun isHead isLater before => ?_)
    obtain ⟨below, heads⟩ := known _ (List.mem_map_of_mem isHead)
    obtain ⟨later, -⟩ := known _ (List.mem_map_of_mem isLater)
    exact order _ _ (Nat.mul_lt_mul_of_pos_right before (show 0 < 16 by decide)) below later heads

end Ferrosys.Ext
