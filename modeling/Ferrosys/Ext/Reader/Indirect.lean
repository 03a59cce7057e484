import Ferrosys.Library.Windows
import Ferrosys.Ext.Reader.Map

/-! Reading a window of a classic block map: a tree of indirect blocks that denotes a file's
blocks fills the window with exactly those.
-/

namespace Ferrosys.Ext

open Checked Windows

/-- The physical block of each logical block of a file whose blocks are `final`. -/
def physicalOf (final : List Nat) (l : Nat) : Nat := final[l]?.getD 0

/-- A word with `height` levels of indirection under it maps the logical blocks from `base` on as
`final` has them: a zero word stands for blocks the file does not have, and any other names an
indirect block among `nodes` whose words each map their own part.
-/
def Denotes (perBlock : Nat) (contents : Nat → Bytes) (nodes final : List Nat)
    : (height word base : Nat) → Prop
  | 0, word, base => word = physicalOf final base
  | height + 1, word, base =>
      (word = 0 ∧ final.length ≤ base)
      ∨ (word ≠ 0 ∧ word ∈ nodes
        ∧ ∀ i < perBlock,
          Denotes perBlock contents nodes final height (getU32 (contents word) (i * 4))
            (base + i * perBlock ^ height))

theorem physicalOf_of_le {final : List Nat} {l : Nat} (past : final.length ≤ l)
    : physicalOf final l = 0 := by
  rw [physicalOf, List.getElem?_eq_none past, Option.getD_none]

/-- A word of zero maps nothing at any height. -/
theorem denotes_zero {perBlock : Nat} {contents : Nat → Bytes} {nodes final : List Nat}
    {height base : Nat} (past : final.length ≤ base)
    : Denotes perBlock contents nodes final height 0 base := by
  cases height with
  | zero => exact (physicalOf_of_le past).symm
  | succ height => exact .inl ⟨rfl, past⟩

namespace Reader

/-- A reader holds a file's blocks: the filesystem has every one of them, and the indirect blocks
read as their contents.
-/
structure HoldsBlocks (reader : Reader) (contents : Nat → Bytes) (nodes final : List Nat)
    : Prop where
  reads : ∀ node ∈ nodes, reader.block node = .ok (contents node)
  inside : ∀ block ∈ final, block < reader.sb.blocksCount

variable {self : Reader} {contents : Nat → Bytes} {nodes final : List Nat}

/-- A block the file has, or the zero of a hole, passes the filesystem's bound. -/
theorem HoldsBlocks.checkWord (holds : self.HoldsBlocks contents nodes final) (l : Nat)
    : (if physicalOf final l ≠ 0 then self.checkBlock (physicalOf final l) else .ok ()) = .ok () := by
  split
  next mapped =>
    have member : physicalOf final l ∈ final := by
      unfold physicalOf at mapped ⊢
      cases found : final[l]? with
      | none =>
          rw [found] at mapped
          exact absurd rfl mapped
      | some block => exact List.mem_of_getElem? found
    exact if_neg (not_le.mpr (holds.inside _ member))
  next => rfl

/-- Placing the word that maps a logical block inside the window. -/
theorem HoldsBlocks.placeWord (holds : self.HoldsBlocks contents nodes final)
    {first count l : Nat} (low : first ≤ l) (high : l < first + count)
    : (do
        if physicalOf final l ≠ 0 then self.checkBlock (physicalOf final l) else .ok ()
        return (fill first count (physicalOf final) l).set (l - first) (physicalOf final l))
      = .ok (fill first count (physicalOf final) (l + 1)) := by
  rw [set_fill low high]
  have checked := holds.checkWord l
  split at checked
  next mapped => rw [if_pos mapped, checked]; rfl
  next hole => rw [if_neg hole]; rfl

/-- The last logical block number any classic map's arithmetic reaches. -/
def classicBound : Nat := 2 ^ 45

theorem classicBound_lt : classicBound < u64Max := by decide

/-- A position below the window's end is below its saturated end. -/
theorem lt_satAdd_iff {first count l : Nat} (small : l < u64Max)
    : l < satAdd first count ↔ l < first + count := by
  unfold satAdd
  omega

/-- A slot's place and its end, where the map's arithmetic cannot reach the top of the range. -/
theorem slot_place {base span perBlock i : Nat} (small : base + perBlock * span ≤ classicBound)
    (within : i < perBlock)
    : satAdd base (satMul i span) = base + i * span
      ∧ satAdd (base + i * span) span = base + (i + 1) * span := by
  have limit := classicBound_lt
  have up : (i + 1) * span ≤ perBlock * span := Nat.mul_le_mul_right span within
  have next : (i + 1) * span = i * span + span := Nat.succ_mul i span
  unfold satAdd satMul
  omega

/-- A loop over a node's slots that stops at the window's end fills in the whole node, where each
turn fills in its own slot.
-/
theorem slotLoop_fill {first count base span perBlock : Nat}
    {step : List Nat → Nat → Except ReadError (List Nat)}
    (small : base + perBlock * span ≤ classicBound)
    (each : ∀ i < perBlock, base + i * span < first + count →
      step (fill first count (physicalOf final) (base + i * span)) i
        = .ok (fill first count (physicalOf final) (base + (i + 1) * span)))
    : ((List.range perBlock).takeWhile fun i =>
          satAdd base (satMul i span) < satAdd first count).foldlM step
        (fill first count (physicalOf final) base)
      = .ok (fill first count (physicalOf final) (base + perBlock * span)) := by
  have limit := classicBound_lt
  have place {i : Nat} (within : i ≤ perBlock) : base + i * span ≤ classicBound :=
    (Nat.add_le_add_left (Nat.mul_le_mul_right span within) base).trans small
  have exact_ {i : Nat} (within : i ≤ perBlock)
      : (satAdd base (satMul i span) < satAdd first count) ↔ base + i * span < first + count := by
    have inside := place within
    rw [lt_satAdd_iff (by unfold satAdd satMul; omega)]
    unfold satAdd satMul
    omega
  obtain ⟨k, within, taken, holds, stops⟩ := takeWhile_range
    (fun i => decide (satAdd base (satMul i span) < satAdd first count)) perBlock
  rw [taken, List.range_eq_range']
  have filled := @foldlM_range'_eq_ok _ _ step
    (fun i => fill first count (physicalOf final) (base + i * span)) 0 k fun i _ below =>
      each i (by omega) ((exact_ (by omega)).mp (of_decide_eq_true (holds i (by omega))))
  simp only [Nat.zero_mul, Nat.add_zero, Nat.zero_add] at filled
  rw [filled]
  by_cases whole : k = perBlock
  · rw [whole]
  · have past := of_decide_eq_false (stops (by omega))
    rw [exact_ within] at past
    apply congrArg Except.ok
    apply fill_congr (Nat.add_le_add_left (Nat.mul_le_mul_right span within) base)
    intro l _ inside
    omega

/-- A node's slots are as wide as the levels under it say, where the map's arithmetic cannot reach
the top of the range.
-/
theorem min_span {base height : Nat}
    (small : base + self.blockSize / 4 * (self.blockSize / 4) ^ height ≤ classicBound)
    : min ((self.blockSize / 4) ^ height) u64Max = (self.blockSize / 4) ^ height := by
  have limit := classicBound_lt
  have sized := self.blockSized
  have one := Nat.mul_le_mul_right ((self.blockSize / 4) ^ height)
    (show 1 ≤ self.blockSize / 4 by omega)
  omega

/-- Walking a word that denotes part of a file fills that part of the window in, by induction on
the levels of indirection under it.
-/
theorem walkIndirectWindow_fill (holds : self.HoldsBlocks contents nodes final)
    {first count below word base : Nat}
    (denotes : Denotes (self.blockSize / 4) contents nodes final (below + 1) word base)
    (small : base + (self.blockSize / 4) ^ (below + 1) ≤ classicBound)
    : self.walkIndirectWindow first below word base
        (fill first count (physicalOf final) base)
      = .ok (fill first count (physicalOf final) (base + (self.blockSize / 4) ^ (below + 1))) := by
  have whole (height : Nat) : (self.blockSize / 4) * (self.blockSize / 4) ^ height
      = (self.blockSize / 4) ^ (height + 1) := (Nat.pow_succ' ..).symm
  induction below generalizing word base with
  | zero =>
      unfold walkIndirectWindow
      rcases denotes with ⟨rfl, past⟩ | ⟨mapped, isNode, slots⟩
      · rw [if_pos rfl]
        apply congrArg Except.ok
        exact fill_congr (by omega) fun l _ _ low _ => physicalOf_of_le (by omega)
      · rw [← whole 0] at small ⊢
        rw [if_neg mapped, holds.reads word isNode]
        simp only [length_fill, ok_bind, min_span small]
        apply slotLoop_fill small
        intro i within inside
        obtain ⟨here, next⟩ := slot_place small within
        simp only [here, next]
        split
        next before =>
          apply congrArg Except.ok
          refine fill_congr ?_ fun l low _ _ high => absurd high (by omega)
          exact Nat.add_le_add_left (Nat.mul_le_mul_right _ (Nat.le_succ i)) base
        next reached =>
          have slot : getU32 (contents word) (i * 4)
              = physicalOf final (base + i * (self.blockSize / 4) ^ 0) := slots i within
          rw [Nat.succ_mul, Nat.pow_zero, Nat.mul_one, ← Nat.add_assoc] at reached ⊢
          rw [Nat.pow_zero, Nat.mul_one] at slot inside
          rw [slot]
          exact holds.placeWord (by omega) inside
  | succ below ih =>
      unfold walkIndirectWindow
      rcases denotes with ⟨rfl, past⟩ | ⟨mapped, isNode, slots⟩
      · rw [if_pos rfl]
        apply congrArg Except.ok
        exact fill_congr (by omega) fun l _ _ low _ => physicalOf_of_le (by omega)
      · rw [← whole (below + 1)] at small ⊢
        rw [if_neg mapped, holds.reads word isNode]
        simp only [length_fill, ok_bind, min_span small]
        apply slotLoop_fill small
        intro i within inside
        obtain ⟨here, next⟩ := slot_place small within
        simp only [here, next]
        split
        next before =>
          apply congrArg Except.ok
          refine fill_congr ?_ fun l low _ _ high => absurd high (by omega)
          exact Nat.add_le_add_left (Nat.mul_le_mul_right _ (Nat.le_succ i)) base
        next reached =>
          have child := ih (slots i within)
          rw [Nat.add_assoc, ← Nat.succ_mul] at child
          apply child
          exact (Nat.add_le_add_left (Nat.mul_le_mul_right _ within) base).trans small

/-- Where the levels of a classic map begin: after the direct words, and each after the last. -/
def levelBase (perBlock : Nat) : Nat → Nat
  | 0 => directBlocks
  | below + 1 => levelBase perBlock below + perBlock ^ (below + 1)

theorem levelBase_mono {perBlock below below' : Nat} (up : below ≤ below')
    : levelBase perBlock below ≤ levelBase perBlock below' := by
  induction up with
  | refl => exact le_rfl
  | step _ ih => exact ih.trans (Nat.le_add_right _ _)

/-- At the largest block size the map's reach is far from the top of the range. -/
theorem levelBase_le {perBlock : Nat} (least : 0 < perBlock) (most : perBlock ≤ 2 ^ 14)
    : levelBase perBlock indirectLevels ≤ classicBound := by
  have square : perBlock ^ 2 ≤ (2 ^ 14) ^ 2 := Nat.pow_le_pow_left most 2
  have cube : perBlock ^ 3 ≤ (2 ^ 14) ^ 3 := Nat.pow_le_pow_left most 3
  simp only [levelBase, indirectLevels, directBlocks, classicBound, Nat.reduceAdd, Nat.pow_one]
  omega

/-- The block area of an inode maps a file whose blocks are `final`. -/
structure MapsFile (perBlock : Nat) (contents : Nat → Bytes) (nodes final : List Nat)
    (words : Bytes) : Prop where
  direct : ∀ i < directBlocks, getU32 words (i * 4) = physicalOf final i
  indirect : ∀ below < indirectLevels,
    Denotes perBlock contents nodes final (below + 1) (getU32 words ((directBlocks + below) * 4))
      (levelBase perBlock below)
  reach : final.length ≤ levelBase perBlock indirectLevels

/-- The levels from one on fill in everything the map reaches, by induction on how many there are.
-/
theorem blockMapLevels_fill (holds : self.HoldsBlocks contents nodes final) {inode : Inode}
    (maps : MapsFile (self.blockSize / 4) contents nodes final inode.block)
    (most : self.blockSize ≤ 65536) {first count : Nat} {k m : Nat} (within : k + m = indirectLevels)
    : self.blockMapLevels inode first (List.range' k m) (levelBase (self.blockSize / 4) k)
        (fill first count (physicalOf final) (levelBase (self.blockSize / 4) k))
      = .ok (fill first count (physicalOf final)
          (levelBase (self.blockSize / 4) indirectLevels)) := by
  have limit := classicBound_lt
  have sized := self.blockSized
  have bounded := levelBase_le (show 0 < self.blockSize / 4 by omega)
    (show self.blockSize / 4 ≤ 2 ^ 14 by omega)
  induction m generalizing k with
  | zero =>
      obtain rfl : k = indirectLevels := within
      rfl
  | succ m ih =>
      have up : levelBase (self.blockSize / 4) k
          ≤ levelBase (self.blockSize / 4) indirectLevels := levelBase_mono (by omega)
      have step : levelBase (self.blockSize / 4) k + (self.blockSize / 4) ^ (k + 1)
          ≤ levelBase (self.blockSize / 4) indirectLevels :=
        levelBase_mono (show k + 1 ≤ indirectLevels by omega)
      have next : satAdd (levelBase (self.blockSize / 4) k)
          (min ((self.blockSize / 4) ^ (k + 1)) u64Max)
          = levelBase (self.blockSize / 4) (k + 1) := by
        rw [levelBase]
        unfold satAdd
        omega
      rw [List.range'_succ]
      unfold blockMapLevels
      simp only [length_fill, next]
      split
      next past =>
        apply congrArg Except.ok
        refine fill_congr up fun l _ high low _ => ?_
        unfold satAdd at past
        omega
      next open_ =>
        have filled := @fill_congr first count (levelBase (self.blockSize / 4) k)
          (levelBase (self.blockSize / 4) (k + 1)) (physicalOf final) (Nat.le_add_right _ _)
        split
        next reached =>
          rw [walkIndirectWindow_fill holds (maps.indirect k (by omega)) (by omega), ok_bind]
          exact ih (by omega)
        next before =>
          rw [ok_bind, filled fun l low _ _ high => absurd high (by omega)]
          exact ih (by omega)

/-- A window of a classic map holds the physical block of each of the file's logical blocks, and
zero past its end.
-/
theorem blockMapWindow_eq (holds : self.HoldsBlocks contents nodes final) {inode : Inode}
    (maps : MapsFile (self.blockSize / 4) contents nodes final inode.block)
    (most : self.blockSize ≤ 65536) (first count : Nat)
    : self.blockMapWindow inode first (List.replicate count 0)
      = .ok ((List.range' first count).map (physicalOf final)) := by
  have limit : directBlocks < u64Max := by decide
  have direct : (List.range' first (min directBlocks (satAdd first count) - first)).foldlM
      (fun map i => do
        let ptr := getU32 inode.block (i * 4)
        if ptr ≠ 0 then self.checkBlock ptr else .ok ()
        return map.set (i - first) ptr)
      (List.replicate count 0)
      = .ok (fill first count (physicalOf final) directBlocks) := by
    by_cases low : first < directBlocks
    · have start : List.replicate count 0 = fill first count (physicalOf final) first :=
        replicate_eq_fill le_rfl
      rw [start, @foldlM_range'_eq_ok _ _ _ (fun i => fill first count (physicalOf final) i)]
      · apply congrArg Except.ok
        unfold satAdd
        refine fill_congr (by omega) fun l _ high from_ _ => ?_
        omega
      · intro i from_ below
        unfold satAdd at below
        rw [maps.direct i (by omega)]
        exact holds.placeWord from_ (by omega)
    · rw [Nat.sub_eq_zero_of_le (by omega)]
      exact congrArg Except.ok (replicate_eq_fill (by omega))
  unfold blockMapWindow
  simp only [List.length_replicate]
  rw [direct, ok_bind, List.range_eq_range']
  have levels := @blockMapLevels_fill _ _ _ _ holds _ maps most first count 0 indirectLevels rfl
  refine levels.trans (congrArg Except.ok ?_)
  have filled := @fill_eq_map first count
    (max (first + count) (levelBase (self.blockSize / 4) indirectLevels)) (physicalOf final)
    (by omega)
  rw [← filled]
  exact fill_congr (by omega) fun l _ _ past _ => physicalOf_of_le (maps.reach.trans past)

end Reader

end Ferrosys.Ext
