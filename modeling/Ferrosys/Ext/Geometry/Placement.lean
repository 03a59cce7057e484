import Ferrosys.Ext.Geometry
import Mathlib.Logic.Unique

/-! What the sizing loop settles, and what a successful plan has checked. -/

namespace Ferrosys.Ext

open Arith Checked

namespace PlanRequest

variable (self : PlanRequest)

/-- Descriptor-table blocks of the live table at a size of `blocks`. -/
def gdtAt (blocks : Nat) : Nat := self.gdtFor (self.groupsFor blocks)

/-- Descriptor blocks reserved at a size of `blocks`. -/
def reservedAt (blocks : Nat) : Nat := self.reservedWanted blocks (self.gdtAt blocks)

/-- Inode-table blocks of one group at a size of `blocks`. -/
def inodeTableAt (blocks : Nat) : Nat :=
  self.inodesPerGroupFor blocks (self.groupsFor blocks) / self.feature.inodesPerBlock

/-- Blocks of a partial final group at a size of `blocks`, zero where it is whole. -/
def remainderAt (blocks : Nat) : Nat :=
  (blocks - self.firstDataBlock) % self.blocksPerGroup

/-- A partial final group too small for the metadata its position assigns it. -/
def Drops (blocks : Nat) : Prop :=
  2 ≤ self.groupsFor blocks
  ∧ self.remainderAt blocks ≠ 0
  ∧ self.remainderAt blocks
    < self.requiredInLast (self.groupsFor blocks) (self.gdtAt blocks) (self.reservedAt blocks)
        (self.inodeTableAt blocks) + 1

instance (blocks : Nat) : Decidable (self.Drops blocks) :=
  inferInstanceAs (Decidable (_ ∧ _))

/-- The blocks the filesystem keeps of those the request names: all of them, or all but a
partial final group too small for its metadata.
-/
def keptBlocks : Nat :=
  if self.Drops self.totalBlocks then
    self.totalBlocks - self.remainderAt self.totalBlocks
  else
    self.totalBlocks

/-- The sizes a plan has for `blocks`. -/
def sizingAt (blocks : Nat) : Sizing where
  totalBlocks := blocks
  groupCount := self.groupsFor blocks
  gdtBlocks := self.gdtAt blocks
  reservedGdtBlocks := self.reservedAt blocks
  inodesPerGroup := self.inodesPerGroupFor blocks (self.groupsFor blocks)
  inodeTableBlocks := self.inodeTableAt blocks

end PlanRequest

/-- The refusals a pass makes before it settles or drops anything. -/
structure PlanRequest.Admits (request : PlanRequest) (blocks : Nat) : Prop where
  groups : request.groupsFor blocks ≤ 2 ^ 32 - 1
  reserved : request.checkReserved blocks (request.reservedAt blocks) = .ok ()
  descriptors
    : 2 ≤ request.groupsFor blocks
      → 1 + request.gdtAt blocks + request.reservedAt blocks ≤ request.blocksPerGroup
  inodes : request.inodeShare blocks (request.groupsFor blocks) ≤ request.inodeCap

/-- One pass either drops the final group or settles the sizes, and admits both. -/
theorem sizingPass_ok {request : PlanRequest} {blocks : Nat} {next : SizingStep blocks}
    (h : sizingPass request blocks = .ok next)
    : request.Admits blocks
      ∧ ((∃ smaller, request.Drops blocks
            ∧ next = .again (blocks - request.remainderAt blocks) smaller)
          ∨ (¬ request.Drops blocks ∧ next = .done (request.sizingAt blocks))) := by
  simp only [sizingPass, bind_unit_eq_ok, refuseIf_eq_ok] at h
  obtain ⟨groups, reserved, descriptors, inodes, settled⟩ := h
  refine ⟨⟨by simpa using groups, reserved, ?_, by simpa using inodes⟩, ?_⟩
  · intro several
    simpa [several, PlanRequest.reservedAt, PlanRequest.gdtAt] using descriptors
  · split at settled
    next drop => exact .inl ⟨_, drop, (Except.ok.inj settled).symm⟩
    next keep => exact .inr ⟨keep, (Except.ok.inj settled).symm⟩

/-- A filesystem of whole groups drops none. -/
theorem PlanRequest.not_drops_of_whole {request : PlanRequest} {blocks : Nat}
    (whole : request.remainderAt blocks = 0)
    : ¬ request.Drops blocks := fun drop => drop.2.1 whole

/-- What a drop leaves is a whole number of groups, by removing the remainder. -/
theorem PlanRequest.remainderAt_sub (request : PlanRequest) (blocks : Nat)
    : request.remainderAt (blocks - request.remainderAt blocks) = 0 := by
  unfold remainderAt
  rw [Nat.sub_right_comm]
  exact Nat.sub_mod_eq_zero_of_mod_eq (Nat.mod_mod _ _).symm

/-- A loop that settles has settled at a size its pass admits and keeps, by induction on
the passes. The second pass never drops, so the size is the request's own or the one the
first drop left.
-/
theorem sizingLoop_ok {request : PlanRequest} {fuel blocks : Nat} {enough : blocks < fuel}
    {sizing : Sizing} (h : sizingLoop request fuel blocks enough = .ok sizing)
    : ∃ kept,
        kept = (if request.Drops blocks then blocks - request.remainderAt blocks else blocks)
        ∧ request.Admits kept
        ∧ ¬ request.Drops kept
        ∧ sizing = request.sizingAt kept := by
  induction fuel generalizing blocks with
  | zero => exact absurd enough (Nat.not_lt_zero _)
  | succ fuel ih =>
      rw [sizingLoop] at h
      split at h
      next => cases h
      next settled pass =>
        obtain ⟨admits, ⟨_, _, again⟩ | ⟨keep, done⟩⟩ := sizingPass_ok pass
        · cases again
        · cases done
          exact ⟨blocks, by simp [keep], admits, keep, (Except.ok.inj h).symm⟩
      next kept smaller pass =>
        obtain ⟨-, ⟨_, drop, again⟩ | ⟨_, done⟩⟩ := sizingPass_ok pass
        · cases again
          have whole := PlanRequest.not_drops_of_whole (request.remainderAt_sub blocks)
          obtain ⟨kept, same, admits, keep, sized⟩ := ih h
          rw [if_neg whole] at same
          exact ⟨kept, by rw [if_pos drop, same], admits, keep, sized⟩
        · cases done

/-- Everything a successful plan has checked, about the sizes it keeps. -/
structure Planned (request : PlanRequest) (layout : Layout) : Prop where
  valid : request.feature.validate = .ok ()
  size : checkSize request = .ok ()
  admits : request.Admits request.keptBlocks
  keeps : ¬ request.Drops request.keptBlocks
  group0
    : superOverhead (request.gdtAt request.keptBlocks) (request.reservedAt request.keptBlocks)
        + group0Tables request (request.sizingAt request.keptBlocks) + 1
      ≤ request.keptBlocks
  layout_eq : layout = (unplacedLayout request (request.sizingAt request.keptBlocks)).placed
  last : lastOverhead layout + 1 ≤ layout.lastBlocks
  placed
    : (placements (unplacedLayout request (request.sizingAt request.keptBlocks))).2
      ≤ layout.totalBlocks

/-- A plan that succeeds has passed every check, by peeling its steps apart. -/
theorem planLayout_ok {request : PlanRequest} {layout : Layout}
    (h : planLayout request = .ok layout)
    : Planned request layout := by
  simp only [planLayout, bind_eq_ok, mapError_eq_ok, Unique.exists_iff, PUnit.default_eq_unit,
    refuseIf_eq_ok] at h
  obtain ⟨valid, size, sizing, sized, -, group0, last, made⟩ := h
  obtain ⟨kept, same, admits, keeps, rfl⟩ := sizingLoop_ok sized
  obtain rfl : kept = request.keptBlocks := same
  obtain rfl := Except.ok.inj made
  simp only [Bool.or_eq_false_iff, decide_eq_false_iff_not, not_lt] at group0 last
  exact {
    valid := valid
    size := size
    admits := admits
    keeps := keeps
    group0 := group0
    layout_eq := rfl
    last := last.1
    placed := last.2
  }

end Ferrosys.Ext

/-! Placement of the fixed metadata: under flex block groups the tables step around every
superblock copy, and in the block-mapped family each group keeps its own.
-/

namespace Ferrosys.Ext

open Arith Spans

/-- The restart loop only moves forward and ends clear of every window, by induction on
its restarts.
-/
theorem firstFitLoop_spec {len : Nat} {windows : List BlockRange} {fuel start : Nat}
    {enough : lastStop windows - start < fuel}
    : start ≤ firstFitLoop len windows fuel start enough
      ∧ ∀ w ∈ windows, (⟨firstFitLoop len windows fuel start enough, len⟩ : Span).Apart w := by
  induction fuel generalizing start with
  | zero => exact absurd enough (Nat.not_lt_zero _)
  | succ fuel ih =>
      rw [firstFitLoop]
      split
      next clear =>
        refine ⟨le_rfl, fun w member => ?_⟩
        have missed := List.find?_eq_none.mp clear w member
        simp only [meets, Bool.and_eq_true, decide_eq_true_eq, not_and, not_lt] at missed
        by_cases before : w.start < start + len
        · exact .inr (missed before)
        · exact .inl (not_lt.mp before)
      next w hit =>
        have met := List.find?_some hit
        simp only [meets, Bool.and_eq_true, decide_eq_true_eq] at met
        exact ⟨met.2.le.trans ih.1, ih.2⟩

/-- First fit never moves back. -/
theorem le_firstFit (start len : Nat) (windows : List BlockRange)
    : start ≤ firstFit start len windows :=
  firstFitLoop_spec.1

/-- The run first fit answers clears every window. -/
theorem firstFit_apart (start len : Nat) {windows : List BlockRange} {w : BlockRange}
    (member : w ∈ windows)
    : (⟨firstFit start len windows, len⟩ : Span).Apart w :=
  firstFitLoop_spec.2 w member

/-- Runs placed in order between two cursors, each clear of every window. -/
structure PlacedBetween (windows : List BlockRange) (lo : Nat) (runs : List BlockRange)
    (hi : Nat)
    : Prop where
  chain : Chain lo runs hi
  clear : ∀ r ∈ runs, ∀ w ∈ windows, r.Apart w

theorem PlacedBetween.nil {windows : List BlockRange} {lo hi : Nat} (h : lo ≤ hi)
    : PlacedBetween windows lo [] hi :=
  ⟨h, by simp⟩

/-- Placement continues where it stopped, or further on. -/
theorem PlacedBetween.append {windows : List BlockRange} {lo mid mid' hi : Nat}
    {left right : List BlockRange} (hl : PlacedBetween windows lo left mid)
    (onward : mid ≤ mid') (hr : PlacedBetween windows mid' right hi)
    : PlacedBetween windows lo (left ++ right) hi where
  chain := (hl.chain.widen le_rfl onward).append hr.chain
  clear r member := (List.mem_append.mp member).elim (hl.clear r) (hr.clear r)

/-- Placing runs one by one places them in order, by induction on their number. -/
theorem placeEach_placed (windows : List BlockRange) (len count cursor : Nat)
    : PlacedBetween windows cursor
        ((placeEach windows len count cursor).1.map fun at_ => ⟨at_, len⟩)
        (placeEach windows len count cursor).2
      ∧ (placeEach windows len count cursor).1.length = count := by
  induction count generalizing cursor with
  | zero => exact ⟨.nil le_rfl, rfl⟩
  | succ count ih =>
      obtain ⟨placed, length⟩ := ih (firstFit cursor len windows + len)
      simp only [placeEach, List.map_cons, List.length_cons]
      refine ⟨⟨⟨le_firstFit _ _ _, placed.chain⟩, ?_⟩, congrArg (· + 1) length⟩
      intro r member w window
      rcases List.mem_cons.mp member with rfl | later
      · exact firstFit_apart _ _ window
      · exact placed.clear r later w window

/-- The runs one placement occupies. -/
def Placement.runs (itb : Nat) (p : Placement) : List BlockRange :=
  [⟨p.blockBitmap, 1⟩, ⟨p.inodeBitmap, 1⟩, ⟨p.inodeTable, itb⟩]

/-- Bitmaps, bitmaps and tables listed kind by kind are the same runs listed group by group.
-/
theorem placement_runs_perm (itb : Nat) {blockBitmaps inodeBitmaps tables : List Nat}
    (h₁ : blockBitmaps.length = inodeBitmaps.length)
    (h₂ : inodeBitmaps.length = tables.length)
    : ((List.zipWith (fun b rest => (⟨b, rest.1, rest.2⟩ : Placement)) blockBitmaps
          (inodeBitmaps.zip tables)).flatMap (Placement.runs itb)).Perm
        (blockBitmaps.map (fun b => ⟨b, 1⟩) ++ inodeBitmaps.map (fun b => ⟨b, 1⟩)
          ++ tables.map fun t => ⟨t, itb⟩) := by
  induction blockBitmaps generalizing inodeBitmaps tables with
  | nil =>
      obtain rfl := List.eq_nil_of_length_eq_zero h₁.symm
      obtain rfl := List.eq_nil_of_length_eq_zero h₂.symm
      exact .nil
  | cons b bs ih =>
      cases inodeBitmaps with
      | nil => cases h₁
      | cons i is =>
          cases tables with
          | nil => cases h₂
          | cons t ts =>
              have rest := ih (Nat.succ.inj h₁) (Nat.succ.inj h₂)
              simp only [List.zip_cons_cons, List.zipWith_cons_cons, List.flatMap_cons,
                Placement.runs, List.map_cons, List.cons_append, List.nil_append]
              refine .cons _ ?_
              -- the group's inode bitmap and table move past the bitmaps listed before them
              have table := (List.Perm.cons (⟨t, itb⟩ : Span) rest).trans
                List.perm_middle.symm
              have bitmap := (List.Perm.cons (⟨i, 1⟩ : Span) table)
              refine bitmap.trans ?_
              simp only [List.append_assoc]
              exact List.perm_middle.symm

/-- One flex head places its members' runs in order after what was placed before, and none
before its own first block.
-/
theorem placeHead_placed (layout : Layout) (windows : List BlockRange)
    (head placedEnd : Nat)
    : (∃ runs,
        PlacedBetween windows placedEnd runs (placeHead layout windows head placedEnd).2
        ∧ (∀ r ∈ runs, layout.startOf head ≤ r.start)
        ∧ ((placeHead layout windows head placedEnd).1.flatMap
            (Placement.runs layout.inodeTableBlocks)).Perm runs)
      ∧ (placeHead layout windows head placedEnd).1.length = layout.flexMembers head := by
  simp only [placeHead]
  obtain ⟨blocks, blockCount⟩ := placeEach_placed windows 1 (layout.flexMembers head)
    (max (layout.startOf head + layout.superOverheadLen head) placedEnd)
  generalize placeEach windows 1 (layout.flexMembers head) (max _ placedEnd) = blockRuns at *
  obtain ⟨inodes, inodeCount⟩ := placeEach_placed windows 1 (layout.flexMembers head)
    (max blockRuns.2 (blockRuns.1.headD 0 + layout.flexSlots head))
  generalize placeEach windows 1 (layout.flexMembers head) (max blockRuns.2 _) = inodeRuns at *
  obtain ⟨tables, tableCount⟩ := placeEach_placed windows layout.inodeTableBlocks
    (layout.flexMembers head) (max inodeRuns.2 (inodeRuns.1.headD 0 + layout.flexSlots head))
  generalize placeEach windows layout.inodeTableBlocks _ _ = tableRuns at *
  have all := (blocks.append (le_max_left _ _) inodes).append (le_max_left _ _) tables
  refine ⟨⟨_, ⟨all.chain.widen (le_max_right _ _) le_rfl, all.clear⟩, ?_,
    placement_runs_perm _ (blockCount.trans inodeCount.symm)
      (inodeCount.trans tableCount.symm)⟩, ?_⟩
  · intro r member
    have after := (all.chain.within r member).1
    omega
  · simp [blockCount, inodeCount, tableCount]

/-- The flex heads place their groups' runs in order, by induction over the heads. -/
theorem placeFlex_placed (layout : Layout) (windows : List BlockRange) {lo : Nat}
    (heads : List Nat) (starts : ∀ head ∈ heads, lo ≤ layout.startOf head) (placedEnd : Nat)
    : (∃ runs,
        PlacedBetween windows placedEnd runs (placeFlex layout windows heads placedEnd).2
        ∧ (∀ r ∈ runs, lo ≤ r.start)
        ∧ ((placeFlex layout windows heads placedEnd).1.flatMap
            (Placement.runs layout.inodeTableBlocks)).Perm runs)
      ∧ (placeFlex layout windows heads placedEnd).1.length
        = (heads.map layout.flexMembers).sum := by
  induction heads generalizing placedEnd with
  | nil => exact ⟨⟨[], .nil le_rfl, by simp, .nil⟩, rfl⟩
  | cons head heads ih =>
      obtain ⟨⟨first, placed, fromHead, same⟩, count⟩ :=
        placeHead_placed layout windows head placedEnd
      obtain ⟨⟨later, rest, fromLater, sameLater⟩, countLater⟩ :=
        ih (fun other member => starts other (by simp [member]))
          (placeHead layout windows head placedEnd).2
      simp only [placeFlex, List.flatMap_append, List.length_append, List.map_cons,
        List.sum_cons]
      refine ⟨⟨first ++ later, placed.append le_rfl rest, ?_, same.append sameLater⟩, by omega⟩
      intro r member
      rcases List.mem_append.mp member with here | there
      · exact (starts head (by simp)).trans (fromHead r here)
      · exact fromLater r there

/-- Whatever placing a group leaves alone reads the same over the placed layout, by
induction over its groups.
-/
theorem Layout.map_groups_placed {layout : Layout} {α : Type} {field : GroupLayout → α}
    (kept : ∀ g at_, field (g.place at_) = field g)
    (full : layout.groups.length = (placements layout).1.length)
    : layout.placed.groups.map field = layout.groups.map field := by
  simp only [placed]
  generalize (placements layout).1 = placed at *
  generalize layout.groups = groups at *
  induction groups generalizing placed with
  | nil => rfl
  | cons g groups ih =>
      cases placed with
      | nil => cases full
      | cons p placed =>
          rw [List.zipWith_cons_cons, List.map_cons, List.map_cons, kept,
            ih placed (Nat.succ.inj full)]

/-- Placing a group's tables moves neither the group nor its superblock copy. -/
theorem Layout.placed_superOverheadRegion {layout : Layout}
    (full : layout.groups.length = (placements layout).1.length) (index : Nat)
    : layout.placed.superOverheadRegion index = layout.superOverheadRegion index := by
  simp only [superOverheadRegion, placed, List.getElem?_zipWith]
  cases found : layout.groups[index]? with
  | none => rfl
  | some g =>
      obtain ⟨bound, -⟩ := List.getElem?_eq_some_iff.mp found
      rw [List.getElem?_eq_getElem (full ▸ bound)]
      rfl

/-- The placed groups' regions are the superblock copies and the placed runs, listed
together, by induction over the groups.
-/
theorem zipWith_place_regions_perm (region : Nat → Option BlockRange) (itb : Nat)
    {groups : List GroupLayout} {placed : List Placement}
    (full : groups.length = placed.length)
    : ((List.zipWith GroupLayout.place groups placed).flatMap fun g =>
          (region g.index).toList
            ++ [⟨g.blockBitmap, 1⟩, ⟨g.inodeBitmap, 1⟩, ⟨g.inodeTable, itb⟩]).Perm
        (groups.flatMap (fun g => (region g.index).toList)
          ++ placed.flatMap (Placement.runs itb)) := by
  induction groups generalizing placed with
  | nil =>
      obtain rfl := List.eq_nil_of_length_eq_zero full.symm
      exact .nil
  | cons g groups ih =>
      cases placed with
      | nil => cases full
      | cons p placed =>
          have rest := ih (Nat.succ.inj full)
          simp only [List.zipWith_cons_cons, List.flatMap_cons, List.append_assoc]
          refine .append_left _ ((rest.append_left _).trans ?_)
          exact List.perm_append_comm_assoc _ _ _

/-- A placed layout's metadata is its superblock copies and its placed runs. -/
theorem Layout.placed_metadataRegions_perm {layout : Layout}
    (full : layout.groups.length = (placements layout).1.length)
    : layout.placed.metadataRegions.Perm
        (layout.groups.flatMap (fun g => (layout.superOverheadRegion g.index).toList)
          ++ (placements layout).1.flatMap (Placement.runs layout.inodeTableBlocks)) := by
  refine (List.mergeSort_perm _ _).trans ?_
  refine List.Perm.trans (.of_eq ?_)
    (zipWith_place_regions_perm layout.superOverheadRegion layout.inodeTableBlocks full)
  refine List.flatMap_congr fun g _ => ?_
  rw [groupRegions, placed_superOverheadRegion full]
  rfl

end Ferrosys.Ext
