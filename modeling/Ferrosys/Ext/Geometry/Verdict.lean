import Ferrosys.Ext.Geometry.Resize

/-! When the planner accepts a request: the checks it makes, about the sizes it settles on, and
nothing else.
-/

namespace Ferrosys.Ext

open Arith Checked

namespace PlanRequest

variable (self : PlanRequest)

/-- The blocks a size keeps: all of them, or all but a final group it drops. -/
def keeps (blocks : Nat) : Nat :=
  if self.Drops blocks then blocks - self.remainderAt blocks else blocks

theorem keeps_le (blocks : Nat) : self.keeps blocks ≤ blocks := by
  unfold keeps
  split
  · exact Nat.sub_le _ _
  · exact le_rfl

/-- What is kept drops no more. -/
theorem not_drops_keeps (blocks : Nat) : ¬ self.Drops (self.keeps blocks) := by
  unfold keeps
  split
  next => exact not_drops_of_whole (self.remainderAt_sub blocks)
  next keep => exact keep

/-- Blocks of the final group at a size of `blocks`. -/
def lastBlocksAt (blocks : Nat) : Nat :=
  (groupRange self blocks (self.groupsFor blocks - 1)).blockCount

/-- Metadata blocks the final group holds at a size of `blocks`. -/
def lastOverheadAt (blocks : Nat) : Nat :=
  self.requiredInLast (self.groupsFor blocks) (self.gdtAt blocks) (self.reservedAt blocks)
    (self.inodeTableAt blocks)

/-- Metadata blocks group 0 holds at a size of `blocks`, and one block of data. -/
def group0At (blocks : Nat) : Nat :=
  superOverhead (self.gdtAt blocks) (self.reservedAt blocks)
    + group0Tables self (self.sizingAt blocks) + 1

/-- The inodes of every group at a size of `blocks`. -/
def inodesAt (blocks : Nat) : Nat :=
  self.inodesPerGroupFor blocks (self.groupsFor blocks) * self.groupsFor blocks

/-- Where the packed bitmaps and tables end at a size of `blocks`. -/
def packedEndAt (blocks : Nat) : Nat := (placements (self.unplacedAt blocks)).2

end PlanRequest

/-- What the planner checks of a size it keeps, past what a pass admits. -/
structure PlanRequest.Holds (request : PlanRequest) (blocks : Nat) : Prop where
  inodes : request.inodesAt blocks ≤ 2 ^ 32 - 1
  group0 : request.group0At blocks ≤ blocks
  last : request.lastOverheadAt blocks + 1 ≤ request.lastBlocksAt blocks
  packed : request.packedEndAt blocks ≤ blocks

/-- Everything the planner checks. -/
structure PlanRequest.Plans (request : PlanRequest) : Prop where
  valid : request.feature.validate = .ok ()
  size : checkSize request = .ok ()
  admits : request.Admits request.totalBlocks
  admitsKept : request.Admits (request.keeps request.totalBlocks)
  holds : request.Holds (request.keeps request.totalBlocks)

/-- A pass succeeds exactly where it admits its size. -/
theorem sizingPass_ok_iff {request : PlanRequest} {blocks : Nat}
    : (∃ next, sizingPass request blocks = .ok next) ↔ request.Admits blocks := by
  constructor
  · rintro ⟨next, passed⟩
    exact (sizingPass_ok passed).1
  · intro admits
    simp only [sizingPass, bind_unit_eq_ok, refuseIf_eq_ok]
    have groups : decide (request.groupsFor blocks > 2 ^ 32 - 1) = false := by
      simpa using admits.groups
    have descriptors : (decide (request.groupsFor blocks ≥ 2)
        && decide (1 + request.gdtAt blocks + request.reservedAt blocks > request.blocksPerGroup))
        = false := by
      rw [Bool.and_eq_false_iff, decide_eq_false_iff_not, decide_eq_false_iff_not, not_lt]
      by_cases several : 2 ≤ request.groupsFor blocks
      · exact .inr (admits.descriptors several)
      · exact .inl several
    have inodes : decide (request.inodeShare blocks (request.groupsFor blocks) > request.inodeCap)
        = false := by
      simpa using admits.inodes
    by_cases drop : request.Drops blocks
    · exact ⟨_, groups, admits.reserved, descriptors, inodes, dif_pos drop⟩
    · exact ⟨_, groups, admits.reserved, descriptors, inodes, dif_neg drop⟩

/-- The loop settles exactly where its first pass admits the size and its second what is kept. -/
theorem sizingLoop_ok_iff {request : PlanRequest} {fuel blocks : Nat} {enough : blocks < fuel}
    {sizing : Sizing}
    : sizingLoop request fuel blocks enough = .ok sizing
      ↔ request.Admits blocks ∧ request.Admits (request.keeps blocks)
        ∧ sizing = request.sizingAt (request.keeps blocks) := by
  -- a pass that keeps its size settles at once
  have settles : ∀ {fuel blocks : Nat} {enough : blocks < fuel}, ¬ request.Drops blocks →
      request.Admits blocks →
      sizingLoop request fuel blocks enough = .ok (request.sizingAt blocks) := by
    intro fuel blocks enough keep admits
    obtain ⟨next, passed⟩ := sizingPass_ok_iff.mpr admits
    cases fuel with
    | zero => exact absurd enough (Nat.not_lt_zero _)
    | succ fuel =>
        rw [sizingLoop]
        obtain ⟨-, ⟨_, drop, -⟩ | ⟨-, rfl⟩⟩ := sizingPass_ok passed
        · exact absurd drop keep
        · rw [passed]
  constructor
  · intro settled
    obtain ⟨kept, same, admits, -, sized⟩ := sizingLoop_ok settled
    obtain rfl : kept = request.keeps blocks := same
    refine ⟨?_, admits, sized⟩
    cases fuel with
    | zero => exact absurd enough (Nat.not_lt_zero _)
    | succ fuel =>
        rw [sizingLoop] at settled
        cases passed : sizingPass request blocks with
        | error error =>
            rw [passed] at settled
            cases settled
        | ok next => exact sizingPass_ok_iff.mp ⟨next, passed⟩
  · rintro ⟨admits, admitsKept, rfl⟩
    by_cases drop : request.Drops blocks
    · obtain ⟨next, passed⟩ := sizingPass_ok_iff.mpr admits
      cases fuel with
      | zero => exact absurd enough (Nat.not_lt_zero _)
      | succ fuel =>
          rw [sizingLoop]
          obtain ⟨-, ⟨smaller, -, rfl⟩ | ⟨keep, -⟩⟩ := sizingPass_ok passed
          · have kept : request.keeps blocks = blocks - request.remainderAt blocks := if_pos drop
            have whole := request.not_drops_keeps blocks
            rw [kept] at admitsKept whole ⊢
            rw [passed]
            exact settles whole admitsKept
          · exact absurd drop keep
    · have kept : request.keeps blocks = blocks := if_neg drop
      rw [kept]
      exact settles drop admits

/-- What the final group holds of a layout is what its position assigns it. -/
theorem lastOverhead_placed (request : PlanRequest) (blocks : Nat)
    : lastOverhead (request.unplacedAt blocks).placed = request.lastOverheadAt blocks := by
  have groups := Planned.groupsFor_pos request blocks
  have last : request.groupsFor blocks - 1 < request.groupsFor blocks := by omega
  have copy : (request.unplacedAt blocks).placed.superOverheadLen (request.groupsFor blocks - 1)
      = if request.hasSuper (request.groupsFor blocks - 1) then
          1 + request.gdtAt blocks + request.reservedAt blocks else 0 := by
    rw [Layout.superOverheadLen, Layout.placed_superOverheadRegion (PlanRequest.placements_length _ _)]
    exact PlanRequest.unplacedAt_superOverheadLen last
  have members : min (request.groupsFor blocks - (request.groupsFor blocks - 1)) 16 = 1 := by omega
  have one : request.groupsFor blocks - (request.groupsFor blocks - 1) = 1 := by omega
  change (request.unplacedAt blocks).placed.superOverheadLen (request.groupsFor blocks - 1)
    + (if request.feature.hasFlexBg then
        if ((request.groupsFor blocks - 1) % 16 == 0) then
          2 * (if min (request.groupsFor blocks - (request.groupsFor blocks - 1)) 16 = 1 then 16
              else min (request.groupsFor blocks - (request.groupsFor blocks - 1)) 16)
            + min (request.groupsFor blocks - (request.groupsFor blocks - 1)) 16
              * request.inodeTableAt blocks
        else 0
      else 2 + request.inodeTableAt blocks) = _
  rw [copy, members, PlanRequest.lastOverheadAt, PlanRequest.requiredInLast]
  simp only [one, PlanRequest.flexBgSize, beq_iff_eq]

/-- The final group's blocks are its range's. -/
theorem lastBlocks_placed (request : PlanRequest) (blocks : Nat)
    : (request.unplacedAt blocks).placed.lastBlocks = request.lastBlocksAt blocks := by
  have groups := Planned.groupsFor_pos request blocks
  change (((request.unplacedAt blocks).placed.groups[request.groupsFor blocks - 1]?).map
    GroupLayout.blockCount).getD 0 = _
  rw [← List.getElem?_map,
    Layout.map_groups_placed (fun _ _ => rfl) (PlanRequest.placements_length _ _),
    PlanRequest.groups_unplacedAt, List.getElem?_map, List.getElem?_map,
    List.getElem?_range (by omega)]
  rfl

/-- The planner accepts a request exactly where its checks hold, and lays out the sizes kept. -/
theorem planLayout_ok_iff {request : PlanRequest} {layout : Layout}
    : planLayout request = .ok layout
      ↔ request.Plans ∧ layout = (request.unplacedAt (request.keeps request.totalBlocks)).placed := by
  simp only [planLayout, bind_eq_ok, mapError_eq_ok, Unique.exists_iff, PUnit.default_eq_unit,
    refuseIf_eq_ok, sizingLoop_ok_iff, Bool.or_eq_false_iff, decide_eq_false_iff_not, not_lt]
  constructor
  · rintro ⟨valid, size, sizing, ⟨admits, admitsKept, rfl⟩, inodes, group0, ⟨last, packed⟩, made⟩
    obtain rfl := Except.ok.inj made
    change lastOverhead (request.unplacedAt _).placed + 1
      ≤ (request.unplacedAt _).placed.lastBlocks at last
    rw [lastOverhead_placed, lastBlocks_placed] at last
    exact ⟨⟨valid, size, admits, admitsKept, ⟨inodes, group0, last, packed⟩⟩, rfl⟩
  · rintro ⟨⟨valid, size, admits, admitsKept, ⟨inodes, group0, last, packed⟩⟩, rfl⟩
    refine ⟨valid, size, _, ⟨admits, admitsKept, rfl⟩, inodes, group0, ⟨?_, packed⟩, rfl⟩
    change lastOverhead (request.unplacedAt _).placed + 1
      ≤ (request.unplacedAt _).placed.lastBlocks
    rwa [lastOverhead_placed, lastBlocks_placed]

/-- The planner accepts a request exactly where its checks hold. -/
theorem exists_planLayout_iff {request : PlanRequest}
    : (∃ layout, planLayout request = .ok layout) ↔ request.Plans :=
  ⟨fun ⟨_, planned⟩ => (planLayout_ok_iff.mp planned).1,
    fun plans => ⟨_, planLayout_ok_iff.mpr ⟨plans, rfl⟩⟩⟩

end Ferrosys.Ext
