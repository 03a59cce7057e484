import Ferrosys.Ext.Reader.Extents

/-! What a file's map holds at one logical block, whichever window it is read through: in a
classic map always, and in an extent tree whose entries cover the leaves below them.
-/

namespace Ferrosys.Ext

open Checked Windows

namespace Reader

variable (self : Reader)

/-- The block a tree maps a logical block to, where nothing before it in the walk maps the block to
other than `v`. A child that cannot be read maps nothing.
-/
def treeMapsAt (l : Nat) : (levels : Nat) → (node : Bytes) → (v : Nat) → Nat
  | 0, _, v => v
  | levels + 1, node, v =>
      match parseNode node with
      | .ok (.leaves leaves) => leaves.foldl (ExtentLeaf.mapOnto l) v
      | .ok (.index _ entries) =>
          entries.foldl
            (fun v idx =>
              match self.block idx.leaf with
              | .ok child => treeMapsAt l levels child v
              | .error _ => v)
            v
      | .error _ => v

/-- Every logical block that a leaf below a node maps lies between `lo` and `hi`, and inside what
each index entry on the way covers.
-/
def Covered : (levels : Nat) → (node : Bytes) → (lo hi : Nat) → Prop
  | 0, _, _, _ => True
  | levels + 1, node, lo, hi =>
      match parseNode node with
      | .ok (.leaves leaves) => ∀ leaf ∈ leaves, ∀ l, leaf.maps l = true → lo ≤ l ∧ l < hi
      | .ok (.index _ entries) =>
          ∀ entry ∈ coverage entries, ∀ child, self.block entry.1.leaf = .ok child →
            Covered levels child (max lo entry.1.block) (min hi entry.2)
      | .error _ => True

variable {self}

/-- The entries of a node with their ends are its entries, by induction on them. -/
theorem coverage_fst (entries : List ExtentIdx) : (coverage entries).map Prod.fst = entries := by
  induction entries with
  | nil => rfl
  | cons idx rest ih => rw [coverage_cons, List.map_cons, ih]

/-- A tree whose root is a leaf node has nothing above its leaves to cover them. -/
theorem covered_of_leaves {levels : Nat} {node : Bytes} {leaves : List ExtentLeaf}
    (parsed : parseNode node = .ok (.leaves leaves)) : self.Covered (levels + 1) node 0 u64Max := by
  rw [Covered, parsed]
  exact fun leaf _ l mapped => ⟨Nat.zero_le l, ExtentLeaf.lt_of_maps mapped⟩

/-- A tree maps nothing outside what covers it, by induction on the levels. -/
theorem Covered.treeMapsAt_eq {levels : Nat} {node : Bytes} {lo hi l : Nat}
    (covered : self.Covered levels node lo hi) (outside : l < lo ∨ hi ≤ l) (v : Nat)
    : self.treeMapsAt l levels node v = v := by
  induction levels generalizing node lo hi v with
  | zero => rfl
  | succ levels ih =>
      rw [Covered] at covered
      rw [treeMapsAt]
      split at covered
      · next leaves parsed =>
          refine List.foldlRecOn (motive := fun u => u = v) _ _ rfl ?_
          intro u same leaf member
          rw [ExtentLeaf.mapOnto, if_neg, same]
          intro mapped
          have := covered leaf member l mapped
          omega
      · next depth entries parsed =>
          rw [← coverage_fst entries, List.foldl_map]
          refine List.foldlRecOn (motive := fun u => u = v) _ _ rfl ?_
          intro u same entry member
          split
          · next child read =>
              rw [ih (covered entry member child read) (by omega), same]
          · exact same
      · rfl

/-- A walk of a covered tree collects leaves that map each block of its window as the tree does, by
induction on the levels: a subtree it skips maps none of them.
-/
theorem Covered.walk {levels : Nat} {node : Bytes} {a b : Nat}
    (covered : self.Covered levels node a b) {lo hi : Nat} {walk walk' : ExtentWalk}
    (walked : self.walkExtentNode lo hi levels node walk = .ok walk')
    : ∃ found, walk'.out = walk.out ++ found ∧ ∀ l, lo ≤ l → l < hi → ∀ v,
        found.foldl (ExtentLeaf.mapOnto l) v = self.treeMapsAt l levels node v := by
  induction levels generalizing node a b walk walk' with
  | zero => cases walked
  | succ levels ih =>
      cases parsed : parseNode node with
      | error error =>
          rw [walkExtentNode, parsed] at walked
          cases walked
      | ok contents =>
          rw [Covered, parsed] at covered
          cases contents with
          | leaves leaves =>
              rw [walkExtentNode_leaves parsed] at walked
              obtain ⟨-, -, walked⟩ := bind_eq_ok.mp walked
              cases walked
              refine ⟨_, rfl, ?_⟩
              intro l low high v
              rw [treeMapsAt, parsed]
              dsimp only
              rw [List.foldl_filter]
              congr 1
              funext v leaf
              cases met : leaf.meets lo hi with
              | true => rw [if_pos rfl]
              | false =>
                  rw [if_neg Bool.false_ne_true, ExtentLeaf.mapOnto,
                    ExtentLeaf.maps_of_not_meets met low high, if_neg Bool.false_ne_true]
          | index depth entries =>
              rw [walkExtentNode_index parsed] at walked
              dsimp only at covered
              have folded : ∀ (turns : List (ExtentIdx × Nat)) (walk walk' : ExtentWalk),
                  (∀ entry ∈ turns, ∀ child, self.block entry.1.leaf = .ok child →
                    self.Covered levels child (max a entry.1.block) (min b entry.2)) →
                  turns.foldlM (self.walkEntry lo hi levels) walk = .ok walk' →
                  ∃ found, walk'.out = walk.out ++ found ∧ ∀ l, lo ≤ l → l < hi → ∀ v,
                    found.foldl (ExtentLeaf.mapOnto l) v
                      = turns.foldl
                          (fun v entry =>
                            match self.block entry.1.leaf with
                            | .ok child => self.treeMapsAt l levels child v
                            | .error _ => v)
                          v := by
                intro turns
                induction turns with
                | nil =>
                    intro walk walk' _ walked
                    cases walked
                    exact ⟨[], (List.append_nil _).symm, fun l _ _ v => rfl⟩
                | cons entry rest more =>
                    intro walk walk' each walked
                    rw [List.foldlM_cons] at walked
                    obtain ⟨next, turn, walked⟩ := bind_eq_ok.mp walked
                    obtain ⟨later, reached, agrees⟩ := more next walk'
                      (fun other member => each other (List.mem_cons_of_mem _ member)) walked
                    have here := each entry List.mem_cons_self
                    rw [walkEntry] at turn
                    split at turn
                    · cases turn
                    · dsimp only at turn
                      split at turn
                      · next skipped =>
                          cases turn
                          refine ⟨later, reached, ?_⟩
                          intro l low high v
                          rw [agrees l low high, List.foldl_cons]
                          congr 1
                          split
                          · next child read =>
                              exact ((here child read).treeMapsAt_eq (by omega) v).symm
                          · rfl
                      · obtain ⟨child, read, turn⟩ := bind_eq_ok.mp turn
                        obtain ⟨found, out, same⟩ := ih (here child read) turn
                        refine ⟨found ++ later, ?_, ?_⟩
                        · rw [reached, out, List.append_assoc]
                        · intro l low high v
                          rw [List.foldl_append, same l low high, agrees l low high,
                            List.foldl_cons, read]
              obtain ⟨found, out, same⟩ := folded _ _ _ covered walked
              refine ⟨found, out, ?_⟩
              intro l low high v
              rw [same l low high, treeMapsAt, parsed]
              dsimp only
              conv_rhs => rw [← coverage_fst entries, List.foldl_map]

/-- A window of a covered tree holds what the tree maps each of its blocks to. -/
theorem extentWindow_of_covered {inode : Inode} {first count : Nat} {map : List Nat}
    (covered : self.Covered (maxExtentDepth + 1) inode.block 0 u64Max)
    (mapped : self.extentWindow inode first (List.replicate count 0) = .ok map)
    : map = (List.range' first count).map fun l =>
        self.treeMapsAt l (maxExtentDepth + 1) inode.block 0 := by
  rw [extentWindow_eq, extentLeavesIn] at mapped
  cases walked : self.walkExtentNode first (satAdd first count) (maxExtentDepth + 1) inode.block
      ⟨[], []⟩ with
  | error error =>
      rw [walked] at mapped
      cases mapped
  | ok walk =>
      rw [walked] at mapped
      cases mapped
      obtain ⟨found, out, same⟩ := covered.walk walked
      rw [out, List.nil_append]
      refine List.map_congr_left ?_
      intro l member
      obtain ⟨low, high⟩ := List.mem_range'_1.mp member
      by_cases reach : l < satAdd first count
      · exact same l low reach 0
      · -- Past the top of the 64-bit range neither the leaves nor the tree map anything.
        have past : u64Max ≤ l := by
          simp only [satAdd] at reach
          omega
        rw [covered.treeMapsAt_eq (.inr past)]
        exact mappedAt_of_past past found

section Classic

variable (self)

/-- The block that an indirect block with `below` levels of indirection under it maps the logical
block `at_` places into its span to. A block that cannot be read maps nothing.
-/
def indirectMapsAt : (below : Nat) → (block at_ : Nat) → Nat
  | below, block, at_ =>
      if block = 0 then 0
      else
        match self.block block with
        | .error _ => 0
        | .ok buf =>
            let span := (self.blockSize / 4) ^ below
            let ptr := getU32 buf (at_ / span * 4)
            match below with
            | 0 => ptr
            | below + 1 => indirectMapsAt below ptr (at_ % span)

/-- The block the indirect levels of a classic map, the first of them beginning at `base`, map a
logical block to.
-/
def levelsMapAt (inode : Inode) (l : Nat) : (levels : List Nat) → (base : Nat) → Nat
  | [], _ => 0
  | below :: levels, base =>
      let next := base + (self.blockSize / 4) ^ (below + 1)
      if l < next then
        self.indirectMapsAt below (getU32 inode.block ((directBlocks + below) * 4)) (l - base)
      else levelsMapAt inode l levels next

/-- The block a classic map maps a logical block to. -/
def classicMapsAt (inode : Inode) (l : Nat) : Nat :=
  if l < directBlocks then getU32 inode.block (l * 4)
  else self.levelsMapAt inode l (List.range indirectLevels) directBlocks

variable {self}

/-- A loop over a node's slots that stops at the window's end and succeeds has filled in the whole
node, where each turn that succeeds fills in its own slot.
-/
theorem slotLoop_filled {first count base span perBlock : Nat} {f : Nat → Nat}
    {step : List Nat → Nat → Except ReadError (List Nat)}
    (small : base + perBlock * span ≤ classicBound)
    (each : ∀ i < perBlock, base + i * span < first + count → ∀ after,
      step (fill first count f (base + i * span)) i = .ok after →
        after = fill first count f (base + (i + 1) * span))
    {out : List Nat}
    (ran : ((List.range perBlock).takeWhile fun i =>
        satAdd base (satMul i span) < satAdd first count).foldlM step (fill first count f base)
      = .ok out)
    : out = fill first count f (base + perBlock * span) := by
  have limit := classicBound_lt
  have place {i : Nat} (within : i ≤ perBlock) : i * span ≤ perBlock * span :=
    Nat.mul_le_mul_right span within
  obtain ⟨k, within, taken, holds, stops⟩ := takeWhile_range
    (fun i => decide (satAdd base (satMul i span) < satAdd first count)) perBlock
  rw [taken] at ran
  have filled : out = fill first count f (base + k * span) := by
    refine @foldlM_range_invariant _ _ step
      (fun i map => map = fill first count f (base + i * span)) k ?_ _ _ ?_ ran
    · intro i below before after same turn
      subst same
      have inside := of_decide_eq_true (holds i below)
      have up := place (Nat.le_of_lt (Nat.lt_of_lt_of_le below within))
      simp only [satAdd, satMul] at inside
      exact each i (by omega) (by omega) after turn
    · rw [Nat.zero_mul, Nat.add_zero]
  rw [filled]
  by_cases whole : k = perBlock
  · rw [whole]
  · have past := of_decide_eq_false (stops (by omega))
    have up := place within
    refine fill_congr (Nat.add_le_add_left up base) ?_
    intro l _ inside low _
    simp only [satAdd, satMul] at past
    omega

/-- Where no block is named, a hole the size of the span is filled in with nothing. -/
theorem fill_hole {first count below base : Nat} {f : Nat → Nat}
    (agrees : ∀ at_ < (self.blockSize / 4) ^ (below + 1),
      f (base + at_) = self.indirectMapsAt below 0 at_)
    : fill first count f base
      = fill first count f (base + (self.blockSize / 4) ^ (below + 1)) := by
  refine fill_congr (Nat.le_add_right _ _) ?_
  intro l _ _ low high
  have at_ := agrees (l - base) (by omega)
  rw [Nat.add_sub_cancel' low] at at_
  rw [at_]
  unfold indirectMapsAt
  exact if_pos rfl

/-- A slot that ends before the window begins fills none of it in. -/
theorem fill_passed {first count base i span : Nat} {f : Nat → Nat}
    (before : base + (i + 1) * span ≤ first)
    : fill first count f (base + i * span) = fill first count f (base + (i + 1) * span) := by
  refine fill_congr (Nat.add_le_add_left (Nat.mul_le_mul_right _ (Nat.le_succ i)) base) ?_
  intro l low _ _ high
  exact absurd high (by omega)

/-- A walk of an indirect block that succeeds fills its span of the window in with the blocks it
maps, by induction on the levels of indirection under it.
-/
theorem walkIndirectWindow_filled {first count below block base : Nat} {f : Nat → Nat}
    (small : base + (self.blockSize / 4) ^ (below + 1) ≤ classicBound)
    (agrees : ∀ at_ < (self.blockSize / 4) ^ (below + 1),
      f (base + at_) = self.indirectMapsAt below block at_)
    {out : List Nat}
    (walked : self.walkIndirectWindow first below block base (fill first count f base) = .ok out)
    : out = fill first count f (base + (self.blockSize / 4) ^ (below + 1)) := by
  have whole (height : Nat) : (self.blockSize / 4) ^ (height + 1)
      = self.blockSize / 4 * (self.blockSize / 4) ^ height := Nat.pow_succ' ..
  induction below generalizing block base out with
  | zero =>
      unfold walkIndirectWindow at walked
      split at walked
      · next blank =>
          cases walked
          exact fill_hole (blank ▸ agrees)
      · next mapped =>
          obtain ⟨buf, read, walked⟩ := bind_eq_ok.mp walked
          rw [whole 0] at small ⊢
          simp only [length_fill, min_span small] at walked
          refine slotLoop_filled small ?_ walked
          intro i within inside after turn
          obtain ⟨here, next⟩ := slot_place small within
          simp only [here, next] at turn
          split at turn
          · next before =>
              cases turn
              exact fill_passed before
          · next reached =>
              have slot := agrees i (by rw [Nat.zero_add, Nat.pow_one]; exact within)
              unfold indirectMapsAt at slot
              simp only [if_neg mapped, read, Nat.pow_zero, Nat.div_one] at slot
              rw [Nat.pow_zero, Nat.mul_one] at inside
              rw [Nat.succ_mul, Nat.pow_zero, Nat.mul_one, ← Nat.add_assoc] at reached ⊢
              rw [← slot] at turn
              have placed := @set_fill first count (base + i) f (by omega) inside
              split at turn
              all_goals
                obtain ⟨-, -, turn⟩ := bind_eq_ok.mp turn
                cases turn
                rw [← placed, Nat.pow_zero, Nat.mul_one]
  | succ below ih =>
      unfold walkIndirectWindow at walked
      split at walked
      · next blank =>
          cases walked
          exact fill_hole (blank ▸ agrees)
      · next mapped =>
          obtain ⟨buf, read, walked⟩ := bind_eq_ok.mp walked
          rw [whole (below + 1)] at small ⊢
          simp only [length_fill, min_span small] at walked
          refine slotLoop_filled small ?_ walked
          intro i within inside after turn
          obtain ⟨here, next⟩ := slot_place small within
          simp only [here, next] at turn
          split at turn
          · next before =>
              cases turn
              exact fill_passed before
          · next reached =>
              have up := Nat.mul_le_mul_right ((self.blockSize / 4) ^ (below + 1)) within
              rw [Nat.succ_mul, ← Nat.add_assoc]
              refine ih (by rw [Nat.succ_mul] at up; omega) ?_ turn
              intro at_ low
              have slot := agrees (i * (self.blockSize / 4) ^ (below + 1) + at_)
                (by rw [whole (below + 1)]; rw [Nat.succ_mul] at up; omega)
              unfold indirectMapsAt at slot
              have quotient : (i * (self.blockSize / 4) ^ (below + 1) + at_)
                  / (self.blockSize / 4) ^ (below + 1) = i :=
                Nat.div_eq_of_lt_le (Nat.le_add_right _ _) (by rw [Nat.succ_mul]; omega)
              have rest : (i * (self.blockSize / 4) ^ (below + 1) + at_)
                  % (self.blockSize / 4) ^ (below + 1) = at_ := by
                rw [Nat.mul_add_mod_self_right, Nat.mod_eq_of_lt low]
              simp only [if_neg mapped, read, quotient, rest] at slot
              rw [Nat.add_assoc]
              exact slot

/-- A window with nothing left to fill in is filled in whole. -/
theorem fill_rest {first count mark : Nat} {f : Nat → Nat}
    (silent : ∀ l, first ≤ l → l < first + count → mark ≤ l → f l = 0)
    : fill first count f mark = (List.range' first count).map f := by
  rw [← @fill_eq_map first count (max mark (first + count)) f (Nat.le_max_right _ _)]
  exact fill_congr (Nat.le_max_left _ _) fun l low high above _ => silent l low high above

/-- The indirect levels of a classic map fill the window in with the blocks they map, by induction
on the levels.
-/
theorem blockMapLevels_mapped {inode : Inode} {first count base : Nat} {levels : List Nat}
    {f : Nat → Nat}
    (small : base + (levels.map fun below => (self.blockSize / 4) ^ (below + 1)).sum
      ≤ classicBound)
    (agrees : ∀ l, base ≤ l → f l = self.levelsMapAt inode l levels base) {out : List Nat}
    (mapped : self.blockMapLevels inode first levels base (fill first count f base) = .ok out)
    : out = (List.range' first count).map f := by
  have limit := classicBound_lt
  induction levels generalizing base out with
  | nil =>
      cases mapped
      exact fill_rest fun l _ _ low => agrees l low
  | cons below levels ih =>
      rw [List.map_cons, List.sum_cons, ← Nat.add_assoc] at small
      rw [blockMapLevels] at mapped
      simp only [length_fill] at mapped
      have next : satAdd base (min ((self.blockSize / 4) ^ (below + 1)) u64Max)
          = base + (self.blockSize / 4) ^ (below + 1) := by
        unfold satAdd
        omega
      have onward : ∀ l, base + (self.blockSize / 4) ^ (below + 1) ≤ l →
          f l = self.levelsMapAt inode l levels (base + (self.blockSize / 4) ^ (below + 1)) := by
        intro l low
        rw [agrees l (by omega), levelsMapAt, if_neg (by omega)]
      split at mapped
      · next past =>
          cases mapped
          refine fill_rest fun l _ high low => ?_
          unfold satAdd at past
          omega
      · rw [next] at mapped
        split at mapped
        · obtain ⟨middle, walked, mapped⟩ := bind_eq_ok.mp mapped
          have filled := walkIndirectWindow_filled (by omega) (by
            intro at_ low
            rw [agrees _ (Nat.le_add_right _ _), levelsMapAt, if_pos (by omega),
              Nat.add_sub_cancel_left]) walked
          subst filled
          exact ih small onward mapped
        · next before =>
            obtain ⟨middle, same, mapped⟩ := bind_eq_ok.mp mapped
            cases same
            have passed : fill first count f base
                = fill first count f (base + (self.blockSize / 4) ^ (below + 1)) :=
              fill_congr (Nat.le_add_right _ _) fun l low _ _ high => absurd high (by omega)
            rw [passed] at mapped
            exact ih small onward mapped

/-- A window of a classic map holds what the map maps each of its blocks to. -/
theorem blockMapWindow_mapped {inode : Inode} (most : self.blockSize ≤ 65536) {first count : Nat}
    {map : List Nat}
    (mapped : self.blockMapWindow inode first (List.replicate count 0) = .ok map)
    : map = (List.range' first count).map (self.classicMapsAt inode) := by
  have sized := self.blockSized
  have limit : directBlocks < u64Max := by decide
  unfold blockMapWindow at mapped
  simp only [List.length_replicate] at mapped
  obtain ⟨direct, placed, mapped⟩ := bind_eq_ok.mp mapped
  have small : directBlocks + ((List.range indirectLevels).map fun below =>
      (self.blockSize / 4) ^ (below + 1)).sum ≤ classicBound := by
    have reach := levelBase_le (show 0 < self.blockSize / 4 by omega)
      (show self.blockSize / 4 ≤ 2 ^ 14 by omega)
    have levels : ((List.range indirectLevels).map fun below =>
        (self.blockSize / 4) ^ (below + 1)).sum
        = (self.blockSize / 4) ^ (0 + 1) + ((self.blockSize / 4) ^ (1 + 1)
          + ((self.blockSize / 4) ^ (2 + 1) + 0)) := rfl
    rw [levels]
    simp only [levelBase, indirectLevels] at reach
    omega
  refine @blockMapLevels_mapped self inode _ _ _ _ _ small ?_ _ ?_
  · intro l low
    exact if_neg (Nat.not_lt.mpr low)
  · have filled : direct = fill first count (self.classicMapsAt inode) directBlocks := by
      by_cases low : first < directBlocks
      · have begun : List.replicate count 0 = fill first count (self.classicMapsAt inode) first :=
          replicate_eq_fill le_rfl
        rw [begun] at placed
        have all := @foldlM_range'_invariant _ _ _
          (fun i map => map = fill first count (self.classicMapsAt inode) i) _ _ (by
            intro i from_ below before after same turn
            subst same
            have word : getU32 inode.block (i * 4) = self.classicMapsAt inode i :=
              (if_pos (by omega)).symm
            rw [word] at turn
            have set := @set_fill first count i (self.classicMapsAt inode) from_
              (by unfold satAdd at below; omega)
            split at turn
            all_goals
              obtain ⟨-, -, turn⟩ := bind_eq_ok.mp turn
              cases turn
              exact set) _ _ rfl placed
        rw [all]
        refine fill_congr (by unfold satAdd; omega) ?_
        intro l _ high from_ _
        unfold satAdd at from_
        omega
      · rw [Nat.sub_eq_zero_of_le (by omega)] at placed
        cases placed
        exact replicate_eq_fill (by omega)
    rw [← filled]
    exact mapped

end Classic

variable (self)

/-- The leaves of an inode's extent tree map only what the entries above them cover. -/
def MapCovered (inode : Inode) : Prop :=
  inode.hasFlag InodeFlags.extents = true →
    self.Covered (maxExtentDepth + 1) inode.block 0 u64Max

/-- The physical block of a file's logical block, zero for one that reads as zeros. -/
def mapsAt (inode : Inode) (l : Nat) : Nat :=
  if inode.hasFlag InodeFlags.extents then
    self.treeMapsAt l (maxExtentDepth + 1) inode.block 0
  else self.classicMapsAt inode l

variable {self}

/-- Whichever window a block is read through, its map is the same. -/
theorem mapWindow_mapped {inode : Inode} (most : self.blockSize ≤ 65536)
    (covered : self.MapCovered inode) (mapsData : inode.mapsData self.blockSize = true)
    {first count : Nat} {map : List Nat} (mapped : self.mapWindow inode first count = .ok map)
    : map = (List.range' first count).map (self.mapsAt inode) := by
  simp only [mapWindow, mapsData, Bool.true_eq_false, or_false] at mapped
  split at mapped
  · next none_ =>
      cases mapped
      rw [none_]
      rfl
  · split at mapped
    · next tree =>
        rw [extentWindow_of_covered (covered tree) mapped]
        refine List.map_congr_left fun l _ => ?_
        rw [mapsAt, if_pos tree]
    · next classic =>
        rw [blockMapWindow_mapped most mapped]
        refine List.map_congr_left fun l _ => ?_
        rw [mapsAt, if_neg classic]

end Reader

end Ferrosys.Ext
