import Ferrosys.Ext.Extent.Tree
import Ferrosys.Ext.Reader.Data
import Ferrosys.Ext.Reader.Indirect

/-! Reading a window of an extent tree. What a window's map holds at a logical block is what the
last leaf that maps the block says; and a tree that was built, written and is read back maps each
logical block to the one its ranges denote.
-/

namespace Ferrosys.Ext

open Checked Spans Splice

/-- A leaf holds data for a logical block. -/
def ExtentLeaf.maps (leaf : ExtentLeaf) (l : Nat) : Bool :=
  leaf.initialized && (leaf.block ≤ l && l < satAdd leaf.block leaf.len)

/-- What one more leaf makes of the block a logical block is mapped to. -/
def ExtentLeaf.mapOnto (l v : Nat) (leaf : ExtentLeaf) : Nat :=
  if leaf.maps l then leaf.start + (l - leaf.block) else v

/-- The block `leaves` map a logical block to: the last that maps it decides. -/
def mappedAt (leaves : List ExtentLeaf) (l : Nat) : Nat := leaves.foldl (ExtentLeaf.mapOnto l) 0

/-- A leaf's logical run meets the window from `lo` to `hi`. -/
def ExtentLeaf.meets (lo hi : Nat) (leaf : ExtentLeaf) : Bool :=
  satAdd leaf.block leaf.len > lo && leaf.block < hi

/-- Writing a range of a map writes the blocks in it and no others, by induction on how many. -/
theorem getElem?_placeRange (first lo hi : Nat) (value : Nat → Nat) (map : List Nat) (i : Nat)
    (low : first ≤ lo)
    : (placeRange first lo hi value map)[i]?
      = if lo ≤ first + i ∧ first + i < hi ∧ i < map.length then some (value (first + i))
        else map[i]? := by
  have folded : ∀ (n lo : Nat) (map : List Nat), first ≤ lo →
      ((List.range' lo n).foldl (fun map logical => map.set (logical - first) (value logical))
        map)[i]?
      = if lo ≤ first + i ∧ first + i < lo + n ∧ i < map.length then some (value (first + i))
        else map[i]? := by
    intro n
    induction n with
    | zero =>
        intro lo map _
        rw [if_neg (by omega)]
        rfl
    | succ n ih =>
        intro lo map low
        rw [List.range'_succ, List.foldl_cons, ih (lo + 1) _ (by omega), List.length_set,
          List.getElem?_set]
        by_cases here : lo = first + i
        · have at_ : lo - first = i := by omega
          rw [if_neg (by omega), if_pos at_, here]
          split
          · rw [if_pos (by omega)]
          · rw [if_neg (by omega), List.getElem?_eq_none (by omega)]
        · have off : ¬ lo - first = i := by omega
          rw [if_neg off]
          congr 1
          refine propext ⟨?_, ?_⟩ <;> omega
  rw [placeRange, folded (hi - lo) lo map low]
  congr 1
  refine propext ⟨?_, ?_⟩ <;> omega

/-- A leaf the window does not meet maps none of its blocks. -/
theorem ExtentLeaf.maps_of_not_meets {leaf : ExtentLeaf} {lo hi l : Nat}
    (apart : leaf.meets lo hi = false) (low : lo ≤ l) (high : l < hi) : leaf.maps l = false := by
  cases mapped : leaf.maps l with
  | false => rfl
  | true =>
      simp only [maps, meets, Bool.and_eq_true, Bool.and_eq_false_iff, decide_eq_true_eq,
        decide_eq_false_iff_not] at mapped apart
      omega

/-- The leaves a window meets decide what its blocks are mapped to. -/
theorem mappedAt_filter (leaves : List ExtentLeaf) {lo hi l : Nat} (low : lo ≤ l) (high : l < hi)
    : mappedAt (leaves.filter (ExtentLeaf.meets lo hi)) l = mappedAt leaves l := by
  rw [mappedAt, mappedAt, List.foldl_filter]
  congr 1
  funext v leaf
  cases met : leaf.meets lo hi with
  | true => rw [if_pos rfl]
  | false =>
      rw [if_neg Bool.false_ne_true, ExtentLeaf.mapOnto,
        ExtentLeaf.maps_of_not_meets met low high, if_neg Bool.false_ne_true]

/-- No leaf maps a block past the top of the 64-bit range. -/
theorem ExtentLeaf.lt_of_maps {leaf : ExtentLeaf} {l : Nat} (mapped : leaf.maps l = true)
    : l < u64Max := by
  have most : satAdd leaf.block leaf.len ≤ u64Max := Nat.min_le_right _ _
  simp only [maps, Bool.and_eq_true, decide_eq_true_eq] at mapped
  omega

/-- Nothing is mapped past the top of the 64-bit range. -/
theorem mappedAt_of_past {l : Nat} (past : u64Max ≤ l) (leaves : List ExtentLeaf)
    : leaves.foldl (ExtentLeaf.mapOnto l) 0 = 0 := by
  refine List.foldlRecOn (motive := fun v => v = 0) _ _ rfl ?_
  intro v zero leaf _
  rw [ExtentLeaf.mapOnto, if_neg, zero]
  intro mapped
  exact absurd (ExtentLeaf.lt_of_maps mapped) (Nat.not_lt.mpr past)

/-- Leaves that tile an interval map each of its logical blocks to the one they list for it, and
no other, by induction on the leaves.
-/
theorem foldl_mapOnto {leaves : List ExtentLeaf} {lo hi : Nat}
    (tiles : Tiles lo (leaves.map ExtentLeaf.span) hi)
    (each : ∀ leaf ∈ leaves, leaf.initialized = true) (small : hi ≤ u64Max) (l v : Nat)
    : leaves.foldl (ExtentLeaf.mapOnto l) v
      = if lo ≤ l ∧ l < hi then physicalOf (leaves.flatMap ExtentLeaf.blocks) (l - lo) else v := by
  induction leaves generalizing lo v with
  | nil =>
      have same : lo = hi := tiles
      rw [if_neg (by omega)]
      rfl
  | cons leaf rest ih =>
      obtain ⟨begins, some_, later⟩ := tiles
      have start : leaf.block = lo := begins
      have long : 0 < leaf.len := some_
      have up : leaf.block + leaf.len ≤ hi := later.chain.le
      rw [List.foldl_cons, ih later fun other member => each other (List.mem_cons_of_mem _ member)]
      have holds := each leaf List.mem_cons_self
      have stop : leaf.span.stop = leaf.block + leaf.len := rfl
      have reach : satAdd leaf.block leaf.len = leaf.block + leaf.len := Nat.min_eq_left (by omega)
      have size : leaf.blocks.length = leaf.len := List.length_range'
      simp only [stop, ExtentLeaf.mapOnto, ExtentLeaf.maps, holds, reach, Bool.true_and,
        Bool.and_eq_true, decide_eq_true_eq, physicalOf, List.flatMap_cons]
      by_cases here : leaf.block ≤ l ∧ l < leaf.block + leaf.len
      · rw [if_neg (by omega), if_pos here, if_pos (by omega),
          List.getElem?_append_left (by omega), ExtentLeaf.blocks,
          List.getElem?_range' (by omega), Option.getD_some]
        omega
      · rw [if_neg here]
        by_cases after : leaf.block + leaf.len ≤ l ∧ l < hi
        · rw [if_pos after, if_pos (by omega), List.getElem?_append_right (by omega), size,
            Nat.sub_sub, ← start]
        · rw [if_neg after, if_neg (by omega)]

/-- Leaves that map a file's blocks map each logical block to its own, and nothing past them. -/
theorem Maps.mappedAt_eq {leaves : List ExtentLeaf} {blocks : List Nat} (maps : Maps leaves blocks)
    (small : blocks.length ≤ u64Max) (l : Nat) : mappedAt leaves l = physicalOf blocks l := by
  rw [mappedAt, foldl_mapOnto maps.tiles (fun leaf member => (maps.each leaf member).1) small,
    maps.denotes]
  split
  · rfl
  · rw [physicalOf_of_le (by omega)]

/-- An entry of a node is followed to where the next one begins, and the last without end. -/
theorem coverage_cons (idx : ExtentIdx) (rest : List ExtentIdx)
    : coverage (idx :: rest) = (idx, (rest.head?.map ExtentIdx.block).getD u64Max) :: coverage rest := by
  cases rest <;> rfl

/-- Runs that tile an interval, each tiled by runs of its own, are tiled by all of those, by
induction on the outer ones.
-/
theorem tiles_flatMap {α : Type} {cells : List α} {cell : α → Span} {inside : α → List Span}
    {lo hi : Nat} (outer : Tiles lo (cells.map cell) hi)
    (inner : ∀ c ∈ cells, Tiles (cell c).start (inside c) (cell c).stop)
    : Tiles lo (cells.flatMap inside) hi := by
  induction cells generalizing lo with
  | nil => exact outer
  | cons c rest ih =>
      obtain ⟨begins, -, later⟩ := outer
      rw [List.flatMap_cons]
      refine tiles_append.mpr ⟨(cell c).stop, ?_, ?_⟩
      · exact begins ▸ inner c List.mem_cons_self
      · exact ih later fun d member => inner d (List.mem_cons_of_mem _ member)

/-- The leaves under a node tile what it covers, by induction on the height. -/
theorem Spreads.tiles {holds : Nat → ExtentNode → Prop} {height : Nat} {node : ExtentNode}
    {lo hi : Nat} {leaves : List ExtentLeaf} {names : List Nat}
    (spreads : Spreads holds height node lo hi leaves names)
    : Tiles lo (leaves.map ExtentLeaf.span) hi := by
  induction height generalizing node lo hi leaves names with
  | zero => exact spreads.2.1
  | succ height ih =>
      obtain ⟨depth, subs, -, rfl, -, tiles, each⟩ := spreads
      rw [List.map_flatMap]
      refine tiles_flatMap tiles ?_
      intro sub member
      obtain ⟨child, -, below⟩ := each sub member
      exact ih below

namespace Reader

variable (self : Reader)

/-- A block holds a node. -/
def HoldsNode (block : Nat) (node : ExtentNode) : Prop :=
  ∃ bytes, self.block block = .ok bytes ∧ parseNode bytes = .ok node

/-- One turn of the loop over an interior node's entries: the entry, and where its coverage ends. -/
def walkEntry (lo hi levels : Nat) (walk : ExtentWalk) (entry : ExtentIdx × Nat)
    : Except ReadError ExtentWalk :=
  if entry.1.leaf ∈ walk.visited then .error .badExtentTree
  else
    let walk := { walk with visited := entry.1.leaf :: walk.visited }
    if entry.2 ≤ lo ∨ entry.1.block ≥ hi then .ok walk
    else do
      let child ← self.block entry.1.leaf
      self.walkExtentNode lo hi levels child walk

variable {self}

/-- A leaf node gives the leaves the window meets, all of them checked. -/
theorem walkExtentNode_leaves {lo hi levels : Nat} {node : Bytes} {leaves : List ExtentLeaf}
    (parsed : parseNode node = .ok (.leaves leaves)) (walk : ExtentWalk)
    : self.walkExtentNode lo hi (levels + 1) node walk
      = do
        leaves.forM self.checkLeaf
        return { walk with out := walk.out ++ leaves.filter (ExtentLeaf.meets lo hi) } := by
  simp only [walkExtentNode, parsed, orParse, Except.mapError, ok_bind]
  rfl

/-- An interior node is walked an entry at a time. -/
theorem walkExtentNode_index {lo hi levels depth : Nat} {node : Bytes}
    {entries : List ExtentIdx} (parsed : parseNode node = .ok (.index depth entries))
    (walk : ExtentWalk)
    : self.walkExtentNode lo hi (levels + 1) node walk
      = (coverage entries).foldlM (self.walkEntry lo hi levels) walk := by
  simp only [walkExtentNode, parsed, orParse, Except.mapError, ok_bind]
  rfl

/-- A leaf inside the filesystem passes its bound. -/
theorem checkLeaf_eq_ok {leaf : ExtentLeaf} (some_ : 0 < leaf.len)
    (inside : leaf.start + leaf.len ≤ self.sb.blocksCount) : self.checkLeaf leaf = .ok () := by
  refine if_neg ?_
  simp only [satAdd]
  omega

/-- Walking a tree that covers the blocks from `a` to `b` collects the leaves the window meets, and
names no block that the tree does not, by induction on the height and, in a node, on its subtrees:
one that is skipped has no leaf the window meets.
-/
theorem walkExtentNode_spreads {lo hi height levels : Nat} (deep : height < levels)
    {bytes : Bytes} {node : ExtentNode} (parsed : parseNode bytes = .ok node) {a b : Nat}
    {leaves : List ExtentLeaf} {names : List Nat}
    (spreads : Spreads self.HoldsNode height node a b leaves names) (small : b ≤ u64Max)
    (checked : ∀ leaf ∈ leaves, self.checkLeaf leaf = .ok ()) (distinct : names.Nodup)
    {walk : ExtentWalk} (fresh : ∀ name ∈ names, name ∉ walk.visited)
    : ∃ visited,
        self.walkExtentNode lo hi levels bytes walk
          = .ok ⟨visited, walk.out ++ leaves.filter (ExtentLeaf.meets lo hi)⟩
        ∧ ∀ name ∈ visited, name ∈ walk.visited ∨ name ∈ names := by
  induction height generalizing levels bytes node a b leaves names walk with
  | zero =>
      obtain ⟨levels, rfl⟩ : ∃ n, levels = n + 1 := ⟨levels - 1, by omega⟩
      obtain ⟨rfl, -, rfl⟩ := spreads
      refine ⟨walk.visited, ?_, fun name member => .inl member⟩
      rw [walkExtentNode_leaves parsed, forM_eq_ok.mpr checked]
      rfl
  | succ height ih =>
      obtain ⟨levels, rfl⟩ : ∃ n, levels = n + 1 := ⟨levels - 1, by omega⟩
      obtain ⟨depth, subs, rfl, rfl, rfl, tiles, each⟩ := spreads
      rw [walkExtentNode_index parsed]
      clear parsed
      induction subs generalizing a walk with
      | nil =>
          refine ⟨walk.visited, ?_, fun name member => .inl member⟩
          simp only [List.map_nil, coverage, List.foldlM_nil, List.flatMap_nil, List.filter_nil,
            List.append_nil]
          rfl
      | cons sub rest more =>
          obtain ⟨begins, some_, later⟩ := tiles
          rw [List.flatMap_cons] at distinct fresh checked
          obtain ⟨own, others, apart⟩ := List.nodup_append.mp distinct
          obtain ⟨child, ⟨stored, read, parsed⟩, below⟩ := each sub List.mem_cons_self
          have unseen : sub.idx.leaf ∉ walk.visited :=
            fresh _ (List.mem_append_left _ List.mem_cons_self)
          have ends : sub.span.stop ≤ b := later.chain.le
          -- What the entry is followed to is never short of what the subtree covers.
          have covered : sub.span.stop
              ≤ ((rest.map Subtree.idx).head?.map ExtentIdx.block).getD u64Max := by
            cases rest with
            | nil => exact ends.trans small
            | cons next rest => exact Nat.le_of_eq later.1.symm
          rw [List.map_cons, coverage_cons, List.foldlM_cons]
          have fresh_ : ∀ name ∈ sub.names, name ∉ sub.idx.leaf :: walk.visited := by
            intro name member seen
            rcases List.mem_cons.mp seen with rfl | before
            · exact (List.nodup_cons.mp own).1 member
            · exact fresh name (List.mem_append_left _ (List.mem_cons_of_mem _ member)) before
          -- Followed or skipped, the entry adds the leaves of its subtree that the window meets.
          obtain ⟨visited, turn, seen⟩ : ∃ visited,
              self.walkEntry lo hi levels walk
                (sub.idx, ((rest.map Subtree.idx).head?.map ExtentIdx.block).getD u64Max)
              = .ok ⟨visited, walk.out ++ sub.leaves.filter (ExtentLeaf.meets lo hi)⟩
              ∧ ∀ name ∈ visited, name ∈ walk.visited ∨ name ∈ sub.allNames := by
            rw [walkEntry, if_neg unseen]
            dsimp only
            split
            · next skipped =>
                refine ⟨sub.idx.leaf :: walk.visited, ?_, ?_⟩
                · have none_ : sub.leaves.filter (ExtentLeaf.meets lo hi) = [] := by
                    refine List.filter_eq_nil_iff.mpr ?_
                    intro leaf member met
                    obtain ⟨low, -, high⟩ := tiles_mem below.tiles (List.mem_map_of_mem member)
                    have start : sub.idx.block ≤ leaf.block := low
                    have stop : leaf.block + leaf.len ≤ sub.span.stop := high
                    have reach : satAdd leaf.block leaf.len ≤ leaf.block + leaf.len :=
                      Nat.min_le_left _ _
                    simp only [ExtentLeaf.meets, Bool.and_eq_true, decide_eq_true_eq] at met
                    rcases skipped with before | after
                    · exact absurd met.1 (by omega)
                    · exact absurd met.2 (by omega)
                  rw [none_, List.append_nil]
                · intro name member
                  rcases List.mem_cons.mp member with rfl | before
                  · exact .inr List.mem_cons_self
                  · exact .inl before
            · obtain ⟨visited, walked, seen⟩ := @ih levels (by omega) stored child parsed _ _ _ _
                below (ends.trans small)
                (fun leaf member => checked leaf (List.mem_append_left _ member))
                (List.nodup_cons.mp own).2
                { walk with visited := sub.idx.leaf :: walk.visited } fresh_
              refine ⟨visited, ?_, ?_⟩
              · rw [read, ok_bind]
                exact walked
              · intro name member
                rcases seen name member with before | named
                · rcases List.mem_cons.mp before with rfl | before
                  · exact .inr List.mem_cons_self
                  · exact .inl before
                · exact .inr (List.mem_cons_of_mem _ named)
          rw [turn, ok_bind]
          obtain ⟨visited', walked, seen'⟩ :=
            @more sub.span.stop ⟨visited, walk.out ++ sub.leaves.filter (ExtentLeaf.meets lo hi)⟩
              (fun leaf member => checked leaf (List.mem_append_right _ member)) others
              (fun name member before => by
                rcases seen name before with already | named
                · exact fresh name (List.mem_append_right _ member) already
                · exact apart name named name member rfl)
              later (fun other member => each other (List.mem_cons_of_mem _ member))
          refine ⟨visited', ?_, ?_⟩
          · rw [walked, List.flatMap_cons, List.filter_append, List.append_assoc]
          · intro name member
            rw [List.flatMap_cons]
            rcases seen' name member with before | named
            · rcases seen name before with already | here
              · exact .inl already
              · exact .inr (List.mem_append_left _ here)
            · exact .inr (List.mem_append_right _ named)

/-- Placing one leaf in a window's map changes the entries of the blocks it maps, and no others. -/
theorem placeLeaf_eq {first count : Nat} (value : Nat → Nat) (leaf : ExtentLeaf)
    : (if satAdd leaf.block leaf.len ≤ first ∨ leaf.block ≥ satAdd first count
          ∨ leaf.initialized = false
        then (List.range' first count).map value
        else placeRange first (max leaf.block first)
          (min (satAdd leaf.block leaf.len) (satAdd first count))
          (fun l => leaf.start + (l - leaf.block)) ((List.range' first count).map value))
      = (List.range' first count).map fun l => leaf.mapOnto l (value l) := by
  have reach : satAdd leaf.block leaf.len ≤ u64Max := Nat.min_le_right _ _
  have stop : satAdd first count = min (first + count) u64Max := rfl
  apply List.ext_getElem?
  intro i
  by_cases inside : i < count
  · have entry (f : Nat → Nat) : ((List.range' first count).map f)[i]? = some (f (first + i)) := by
      rw [List.getElem?_map, List.getElem?_range' inside, Nat.one_mul, Option.map_some]
    rw [entry]
    simp only [ExtentLeaf.mapOnto, ExtentLeaf.maps, Bool.and_eq_true, decide_eq_true_eq]
    split
    · next apart =>
        rw [entry, if_neg]
        rintro ⟨initialized, low, high⟩
        rcases apart with before | after | blank
        · omega
        · omega
        · exact Bool.noConfusion (blank.symm.trans initialized)
    · next met =>
        rw [not_or, not_or, Bool.not_eq_false] at met
        rw [getElem?_placeRange _ _ _ _ _ _ (Nat.le_max_right _ _), entry, List.length_map,
          List.length_range']
        by_cases mapped : leaf.block ≤ first + i ∧ first + i < satAdd leaf.block leaf.len
        · rw [if_pos (by omega), if_pos ⟨met.2.2, mapped⟩]
        · rw [if_neg (by omega), if_neg fun held => mapped held.2]
  · rw [List.getElem?_eq_none, List.getElem?_eq_none]
    · simp only [List.length_map, List.length_range']
      omega
    · split
      · simp only [List.length_map, List.length_range']
        omega
      · simp only [length_placeRange, List.length_map, List.length_range']
        omega

/-- A window's map holds, at each logical block, what the leaves the walk collects map it to. -/
theorem extentWindow_eq (inode : Inode) (first count : Nat)
    : self.extentWindow inode first (List.replicate count 0)
      = (self.extentLeavesIn inode first (satAdd first count)).map fun leaves =>
          (List.range' first count).map (mappedAt leaves) := by
  simp only [extentWindow, List.length_replicate]
  cases self.extentLeavesIn inode first (satAdd first count) with
  | error error => rfl
  | ok leaves =>
      refine congrArg Except.ok ?_
      have folded : ∀ (rest : List ExtentLeaf) (value : Nat → Nat),
          rest.foldl (fun map leaf =>
            if satAdd leaf.block leaf.len ≤ first ∨ leaf.block ≥ satAdd first count
                ∨ leaf.initialized = false
              then map
              else placeRange first (max leaf.block first)
                (min (satAdd leaf.block leaf.len) (satAdd first count))
                (fun l => leaf.start + (l - leaf.block)) map)
            ((List.range' first count).map value)
          = (List.range' first count).map fun l =>
              rest.foldl (ExtentLeaf.mapOnto l) (value l) := by
        intro rest
        induction rest with
        | nil => exact fun value => rfl
        | cons leaf rest ih =>
            intro value
            rw [List.foldl_cons, placeLeaf_eq value leaf, ih]
            rfl
      have blank : List.replicate count 0 = (List.range' first count).map fun _ => 0 := by
        rw [List.map_const', List.length_range']
      rw [blank]
      exact folded leaves fun _ => 0

end Reader

end Ferrosys.Ext
