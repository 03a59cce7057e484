import Ferrosys.Ext.Extent
import Ferrosys.Ext.Extent.Node
import Ferrosys.Library.Spans

/-! The leaves built from a file's ranges: they map the file's blocks, in order and without a
gap.
-/

namespace Ferrosys.Ext

open Checked Spans

/-- The logical blocks a leaf maps. -/
def ExtentLeaf.span (leaf : ExtentLeaf) : Span := ⟨leaf.block, leaf.len⟩

/-- The physical blocks a leaf maps them to. -/
def ExtentLeaf.blocks (leaf : ExtentLeaf) : List Nat := List.range' leaf.start leaf.len

/-- The physical blocks a file's ranges denote, in logical order. -/
def blocksOf (ranges : List BlockRange) : List Nat :=
  ranges.flatMap fun range => List.range' range.start range.len

/-- Ranges denote as many blocks as they are long, by induction on the ranges. -/
theorem length_blocksOf (ranges : List BlockRange)
    : (blocksOf ranges).length = (ranges.map Span.len).sum := by
  induction ranges with
  | nil => rfl
  | cons range rest ih =>
      rw [blocksOf, List.flatMap_cons, ← blocksOf, List.length_append, List.length_range', ih,
        List.map_cons, List.sum_cons]

/-- Every block that ranges denote is inside one of them. -/
theorem lt_of_mem_blocksOf {ranges : List BlockRange} {bound b : Nat}
    (inside : ∀ range ∈ ranges, range.start + range.len ≤ bound) (member : b ∈ blocksOf ranges)
    : b < bound := by
  obtain ⟨range, isRange, held⟩ := List.mem_flatMap.mp member
  have most := inside range isRange
  have := List.mem_range'_1.mp held
  omega

/-- Leaves that map `blocks` from logical block zero on: one after the other, each of a length
one leaf may have, and all holding data.
-/
structure Maps (leaves : List ExtentLeaf) (blocks : List Nat) : Prop where
  tiles : Tiles 0 (leaves.map ExtentLeaf.span) blocks.length
  denotes : leaves.flatMap ExtentLeaf.blocks = blocks
  each : ∀ leaf ∈ leaves, leaf.initialized = true ∧ leaf.len ≤ maxExtentLen

/-- Two pieces of a run of blocks, the second going on from the first. -/
theorem range'_append_of_abut {start len phys take : Nat} (abut : start + len = phys)
    : List.range' start len ++ List.range' phys take = List.range' start (len + take) := by
  subst abut
  have joined := @List.range'_append start len take 1
  rwa [Nat.one_mul] at joined

/-- Adding a piece of a run maps its blocks after the others. -/
theorem LeafBuild.add_maps {self : LeafBuild} {blocks : List Nat} {phys take : Nat}
    (maps : Maps self.leaves blocks) (logical : self.logical = blocks.length)
    (some_ : 0 < take) (most : take ≤ maxExtentLen)
    : Maps (self.add phys take).leaves (blocks ++ List.range' phys take)
      ∧ (self.add phys take).logical = (blocks ++ List.range' phys take).length := by
  refine ⟨?_, by simp only [add, List.length_append, List.length_range', logical]⟩
  have long : (blocks ++ List.range' phys take).length = blocks.length + take := by
    rw [List.length_append, List.length_range']
  have fresh : Maps (self.leaves ++ [⟨self.logical, take, phys, true⟩])
      (blocks ++ List.range' phys take) := by
    refine ⟨?_, ?_, ?_⟩
    · rw [List.map_append, long]
      exact tiles_append.mpr ⟨_, maps.tiles, logical, some_,
        congrArg (· + take) logical⟩
    · rw [List.flatMap_append, maps.denotes]
      exact congrArg (blocks ++ ·) (List.append_nil _)
    · intro leaf member
      rcases List.mem_append.mp member with before | last
      · exact maps.each leaf before
      · obtain rfl := List.mem_singleton.mp last
        exact ⟨rfl, most⟩
  simp only [add]
  split
  case h_2 => exact fresh
  case h_1 last found =>
    split
    case isFalse => exact fresh
    case isTrue joins =>
      obtain ⟨initialized, -, abut, fits⟩ := joins
      obtain ⟨init, parts⟩ := List.getLast?_eq_some_iff.mp found
      rw [parts, List.dropLast_concat]
      have tiles := maps.tiles
      have denotes := maps.denotes
      rw [parts, List.map_append] at tiles
      rw [parts, List.flatMap_append] at denotes
      obtain ⟨mid, before, begins, -, ends⟩ := tiles_append.mp tiles
      refine ⟨?_, ?_, ?_⟩
      · rw [List.map_append, long]
        refine tiles_append.mpr ⟨mid, before, begins, Nat.add_pos_right _ some_, ?_⟩
        have reached : last.block + last.len = blocks.length := ends
        show last.block + (last.len + take) = blocks.length + take
        omega
      · rw [List.flatMap_append, ← denotes, List.append_assoc]
        simp only [List.flatMap_cons, List.flatMap_nil, List.append_nil, ExtentLeaf.blocks]
        rw [range'_append_of_abut abut]
      · intro leaf member
        rcases List.mem_append.mp member with earlier | joined
        · exact maps.each leaf (parts ▸ List.mem_append_left _ earlier)
        · obtain rfl := List.mem_singleton.mp joined
          exact ⟨initialized, fits⟩

/-- Adding a run maps all of it after the others, by induction on the fuel: each turn adds a
leaf's worth from its front.
-/
theorem LeafBuild.addRun_maps {fuel : Nat} {self : LeafBuild} {blocks : List Nat}
    {phys left : Nat} (enough : left < fuel) (maps : Maps self.leaves blocks)
    (logical : self.logical = blocks.length)
    : Maps (addRun fuel self phys left enough).leaves (blocks ++ List.range' phys left)
      ∧ (addRun fuel self phys left enough).logical
        = (blocks ++ List.range' phys left).length := by
  induction fuel generalizing self blocks phys left with
  | zero => exact absurd enough (Nat.not_lt_zero _)
  | succ fuel ih =>
      rw [addRun]
      split
      · next more =>
          have some_ : 0 < min left maxExtentLen := Nat.lt_min.mpr ⟨more, by decide⟩
          obtain ⟨added, reached⟩ :=
            @add_maps self blocks phys _ maps logical some_ (Nat.min_le_right _ _)
          have rest := @ih (self.add phys (min left maxExtentLen)) _
            (phys + min left maxExtentLen) (left - min left maxExtentLen) (by omega) added reached
          rw [List.append_assoc, range'_append_of_abut rfl,
            Nat.add_sub_cancel' (Nat.min_le_left left maxExtentLen)] at rest
          exact rest
      · next none_ =>
          obtain rfl : left = 0 := by omega
          rw [List.range'_zero, List.append_nil]
          exact ⟨maps, logical⟩

/-- The leaves built from ranges map the blocks the ranges denote, by induction on the ranges. -/
theorem buildLeaves_maps {ranges : List BlockRange} {leaves : List ExtentLeaf}
    (built : buildLeaves ranges = .ok leaves) : Maps leaves (blocksOf ranges) := by
  obtain ⟨-, -, built⟩ := bind_eq_ok.mp built
  cases built
  have folded : ∀ (rest : List BlockRange) (build : LeafBuild) (blocks : List Nat),
      Maps build.leaves blocks → build.logical = blocks.length →
      Maps (rest.foldl LeafBuild.addRange build).leaves (blocks ++ blocksOf rest) := by
    intro rest
    induction rest with
    | nil =>
        intro build blocks maps _
        rw [blocksOf, List.flatMap_nil, List.append_nil]
        exact maps
    | cons range rest ih =>
        intro build blocks maps logical
        obtain ⟨added, reached⟩ :=
          @LeafBuild.addRun_maps _ build blocks range.start _ (Nat.lt_succ_self range.len) maps
            logical
        rw [blocksOf, List.flatMap_cons, ← blocksOf, ← List.append_assoc]
        exact ih (build.addRange range) _ added reached
  exact folded ranges ⟨[], 0⟩ [] ⟨rfl, rfl, nofun⟩ rfl

end Ferrosys.Ext

/-! The tree built over a file's leaves: each level cuts the one below it into nodes, so that
what every node covers follows on from the node before it, and every block the tree is given
holds one node.
-/

namespace Ferrosys.Ext

open Arith Chunks Checked Spans

/-- A subtree: the entry that names it, how many logical blocks it covers, its leaves, and the
blocks named below its own node.
-/
structure Subtree where
  idx : ExtentIdx
  len : Nat
  leaves : List ExtentLeaf
  names : List Nat

namespace Subtree

/-- The logical blocks a subtree covers. -/
def span (self : Subtree) : Span := ⟨self.idx.block, self.len⟩

/-- The block of a subtree's own node, and those named below it. -/
def allNames (self : Subtree) : List Nat := self.idx.leaf :: self.names

end Subtree

/-- A node that is `height` levels above the leaves covers the logical blocks from `lo` to `hi`
with `leaves`, naming the blocks `names`; `holds` says which node a block holds.
-/
def Spreads (holds : Nat → ExtentNode → Prop)
    : (height : Nat) → ExtentNode → (lo hi : Nat) → List ExtentLeaf → (names : List Nat) → Prop
  | 0, node, lo, hi, leaves, names =>
      node = .leaves leaves ∧ Tiles lo (leaves.map ExtentLeaf.span) hi ∧ names = []
  | height + 1, node, lo, hi, leaves, names =>
      ∃ (depth : Nat) (subs : List Subtree),
        node = .index depth (subs.map Subtree.idx)
        ∧ leaves = subs.flatMap Subtree.leaves
        ∧ names = subs.flatMap Subtree.allNames
        ∧ Tiles lo (subs.map Subtree.span) hi
        ∧ ∀ sub ∈ subs, ∃ child, holds sub.idx.leaf child
            ∧ Spreads holds height child sub.idx.block sub.span.stop sub.leaves sub.names

/-- The subtrees one level of nodes makes, `height` levels above the leaves. -/
structure Level (holds : Nat → ExtentNode → Prop) (height : Nat) (subs : List Subtree)
    (total : Nat) (leaves : List ExtentLeaf) (used : List Nat) : Prop where
  tiles : Tiles 0 (subs.map Subtree.span) total
  covers : subs.flatMap Subtree.leaves = leaves
  names : (subs.flatMap Subtree.allNames).Perm used
  each : ∀ sub ∈ subs, ∃ child, holds sub.idx.leaf child
    ∧ Spreads holds height child sub.idx.block sub.span.stop sub.leaves sub.names

/-- What the elements of a level are, seen from the level above: what each covers, its leaves,
and the blocks it names.
-/
structure Element (α : Type) where
  span : α → Span
  leaves : α → List ExtentLeaf
  names : α → List Nat

/-- The subtree a node over a piece of the level below makes in block `block`. -/
def Element.subtree {α : Type} (self : Element α) (block : Nat) (first : α) (piece : List α)
    : Subtree where
  idx := ⟨(self.span first).start, block⟩
  len := (piece.map fun a => (self.span a).len).sum
  leaves := piece.flatMap self.leaves
  names := piece.flatMap self.names

/-- Runs that tile an interval are together as long as it, by induction on the runs. -/
theorem tiles_sum {lo hi : Nat} {runs : List Span} (tiles : Tiles lo runs hi)
    : lo + (runs.map Span.len).sum = hi := by
  induction runs generalizing lo with
  | nil => exact tiles
  | cons run rest ih =>
      obtain ⟨rfl, -, later⟩ := tiles
      rw [List.map_cons, List.sum_cons, ← Nat.add_assoc]
      exact ih later

section Building

variable {α : Type} {node : List α → ExtentNode} {first : α → Nat}

/-- A level built over mapped elements is the level built over the elements. -/
theorem buildLevel_map {β : Type} (f : β → α) (pieces : List (List β)) (blocks : List Nat)
    : buildLevel node first (pieces.map (List.map f)) blocks
      = buildLevel (fun piece => node (piece.map f)) (fun b => first (f b)) pieces blocks := by
  induction pieces generalizing blocks with
  | nil => rfl
  | cons piece rest ih =>
      cases piece with
      | nil => rfl
      | cons b piece =>
          cases blocks with
          | nil => rfl
          | cons block blocks =>
              simp only [List.map_cons, buildLevel, ih]

/-- What one level of a tree comes to: its nodes, each over a piece and in one of the blocks
used, and the subtrees that those make.
-/
structure LevelBuilt (element : Element α) (node : List α → ExtentNode) (pieces : List (List α))
    (blocks : List Nat) (nodes : List ExtentNodeBlock) (subs : List Subtree) (used left : List Nat)
    : Prop where
  split : blocks = used ++ left
  count : subs.length = pieces.length
  counted : used.length = pieces.length
  named : ∀ sub ∈ subs, sub.idx.leaf ∈ used
  covers : subs.flatMap Subtree.leaves = pieces.flatten.flatMap element.leaves
  names : (subs.flatMap Subtree.allNames).Perm (used ++ pieces.flatten.flatMap element.names)
  tiles : ∀ lo hi, Tiles lo (pieces.flatten.map element.span) hi →
    Tiles lo (subs.map Subtree.span) hi
  holds : ∀ stored ∈ nodes, stored.block ∈ used ∧ ∃ piece ∈ pieces, stored.node = node piece
  each : ∀ lo hi, Tiles lo (pieces.flatten.map element.span) hi → ∀ sub ∈ subs,
    ∃ piece ∈ pieces, ⟨sub.idx.leaf, node piece⟩ ∈ nodes
      ∧ Tiles sub.idx.block (piece.map element.span) sub.span.stop
      ∧ sub.leaves = piece.flatMap element.leaves ∧ sub.names = piece.flatMap element.names

/-- A level is built where there is a block for each piece, by induction on the pieces. -/
theorem buildLevel_built (element : Element α) (starts : ∀ a, first a = (element.span a).start)
    {pieces : List (List α)} {blocks : List Nat} (some_ : ∀ piece ∈ pieces, piece ≠ [])
    (enough : pieces.length ≤ blocks.length)
    : ∃ nodes subs used left,
        buildLevel node first pieces blocks = (nodes, subs.map Subtree.idx, left)
        ∧ LevelBuilt element node pieces blocks nodes subs used left := by
  induction pieces generalizing blocks with
  | nil =>
      refine ⟨[], [], [], blocks, rfl, ⟨rfl, rfl, rfl, nofun, rfl, .nil, ?_, nofun, ?_⟩⟩
      · exact fun lo hi tiles => tiles
      · exact fun lo hi _ => nofun
  | cons piece rest ih =>
      obtain ⟨a, more, rfl⟩ := List.exists_cons_of_ne_nil (some_ piece List.mem_cons_self)
      obtain ⟨block, blocks, rfl⟩ : ∃ block others, blocks = block :: others :=
        List.exists_cons_of_length_pos (Nat.lt_of_lt_of_le (Nat.succ_pos _) enough)
      obtain ⟨nodes, subs, used, left, built, level⟩ :=
        ih (fun other member => some_ other (List.mem_cons_of_mem _ member))
          (Nat.le_of_succ_le_succ enough)
      refine ⟨⟨block, node (a :: more)⟩ :: nodes,
        element.subtree block a (a :: more) :: subs, block :: used, left, ?_, ?_⟩
      · simp only [buildLevel, built, starts]
        rfl
      · constructor
        case split => rw [level.split, List.cons_append]
        case count => rw [List.length_cons, List.length_cons, level.count]
        case counted => rw [List.length_cons, List.length_cons, level.counted]
        case named =>
          intro sub member
          rcases List.mem_cons.mp member with rfl | later
          · exact List.mem_cons_self
          · exact List.mem_cons_of_mem _ (level.named sub later)
        case covers =>
          rw [List.flatten_cons, List.flatMap_append, List.flatMap_cons, level.covers]
          rfl
        case names =>
          rw [List.flatten_cons, List.flatMap_append, List.flatMap_cons, List.cons_append]
          refine List.Perm.cons block ?_
          refine (List.Perm.append_left _ level.names).trans ?_
          rw [← List.append_assoc, ← List.append_assoc]
          exact List.Perm.append_right _ List.perm_append_comm
        case tiles =>
          intro lo hi tiles
          rw [List.flatten_cons, List.map_append] at tiles
          obtain ⟨mid, here, later⟩ := tiles_append.mp tiles
          have long := tiles_sum here
          rw [List.map_map] at long
          refine ⟨here.1, ?_, ?_⟩
          · exact Nat.add_pos_left here.2.1 _
          · have stop : (element.subtree block a (a :: more)).span.stop = mid := by
              rw [← long]
              exact congrArg (· + _) here.1
            rw [stop]
            exact level.tiles mid hi later
        case holds =>
          intro stored member
          rcases List.mem_cons.mp member with rfl | later
          · exact ⟨List.mem_cons_self, a :: more, List.mem_cons_self, rfl⟩
          · obtain ⟨named, piece, isPiece, is⟩ := level.holds stored later
            exact ⟨List.mem_cons_of_mem _ named, piece, List.mem_cons_of_mem _ isPiece, is⟩
        case each =>
          intro lo hi tiles
          rw [List.flatten_cons, List.map_append] at tiles
          obtain ⟨mid, here, later⟩ := tiles_append.mp tiles
          have long := tiles_sum here
          rw [List.map_map] at long
          intro sub member
          rcases List.mem_cons.mp member with rfl | after
          · refine ⟨a :: more, List.mem_cons_self, List.mem_cons_self, ?_, rfl, rfl⟩
            have begins : (element.span a).start = lo := here.1
            have stop : (element.subtree block a (a :: more)).span.stop = mid := by
              rw [← long]
              exact congrArg (· + _) begins
            rw [stop]
            exact (show (element.subtree block a (a :: more)).idx.block = lo from begins) ▸ here
          · obtain ⟨piece, isPiece, stored, covers, leaves, names⟩ :=
              level.each mid hi later sub after
            exact ⟨piece, List.mem_cons_of_mem _ isPiece, List.mem_cons_of_mem _ stored, covers,
              leaves, names⟩

end Building

/-- The runs of a tiling lie inside it, and none is empty. -/
theorem tiles_mem {lo hi : Nat} {runs : List Span} (tiles : Tiles lo runs hi) {run : Span}
    (member : run ∈ runs) : lo ≤ run.start ∧ 0 < run.len ∧ run.stop ≤ hi := by
  obtain ⟨before, after, rfl⟩ := List.append_of_mem member
  obtain ⟨mid, earlier, begins, some_, later⟩ := tiles_append.mp tiles
  exact ⟨begins ▸ earlier.chain.le, some_, later.chain.le⟩

/-- Leaves, seen from the level above. -/
def leafElement : Element ExtentLeaf := ⟨ExtentLeaf.span, fun leaf => [leaf], fun _ => []⟩

/-- Subtrees, seen from the level above. -/
def subtreeElement : Element Subtree := ⟨Subtree.span, Subtree.leaves, Subtree.allNames⟩

/-- A leaf node spreads its own leaves. -/
theorem spreads_leaves (holds : Nat → ExtentNode → Prop) {piece : List ExtentLeaf} {lo hi : Nat}
    (tiles : Tiles lo (piece.map leafElement.span) hi)
    : Spreads holds 0 (.leaves piece) lo hi (piece.flatMap leafElement.leaves)
        (piece.flatMap leafElement.names) :=
  ⟨by rw [show piece.flatMap leafElement.leaves = piece from List.flatMap_singleton' piece],
    by rw [show piece.flatMap leafElement.leaves = piece from List.flatMap_singleton' piece]
       exact tiles,
    List.flatMap_eq_nil_iff.mpr fun _ _ => rfl⟩

/-- An interior node spreads what the subtrees it names do. -/
theorem spreads_index {holds : Nat → ExtentNode → Prop} {height depth lo hi : Nat}
    {piece : List Subtree} (tiles : Tiles lo (piece.map subtreeElement.span) hi)
    (each : ∀ sub ∈ piece, ∃ child, holds sub.idx.leaf child
      ∧ Spreads holds height child sub.idx.block sub.span.stop sub.leaves sub.names)
    : Spreads holds (height + 1) (.index depth (piece.map Subtree.idx)) lo hi
        (piece.flatMap subtreeElement.leaves) (piece.flatMap subtreeElement.names) :=
  ⟨depth, piece, rfl, rfl, rfl, tiles, each⟩

/-- A level whose nodes are held is a level of subtrees. -/
theorem LevelBuilt.level {α : Type} {element : Element α} {node : List α → ExtentNode}
    {pieces : List (List α)} {blocks used left : List Nat} {nodes : List ExtentNodeBlock}
    {subs : List Subtree} (built : LevelBuilt element node pieces blocks nodes subs used left)
    {holds : Nat → ExtentNode → Prop} {height total : Nat} {leaves : List ExtentLeaf}
    {below : List Nat} (tiles : Tiles 0 (pieces.flatten.map element.span) total)
    (covers : pieces.flatten.flatMap element.leaves = leaves)
    (names : (pieces.flatten.flatMap element.names).Perm below)
    (spreads : ∀ piece ∈ pieces, ∀ lo hi, Tiles lo (piece.map element.span) hi →
      Spreads holds height (node piece) lo hi (piece.flatMap element.leaves)
        (piece.flatMap element.names))
    (held : ∀ stored ∈ nodes, holds stored.block stored.node)
    : Level holds height subs total leaves (used ++ below) where
  tiles := built.tiles 0 total tiles
  covers := built.covers.trans covers
  names := built.names.trans (List.Perm.append_left used names)
  each := by
    intro sub member
    obtain ⟨piece, isPiece, stored, covered, itsLeaves, itsNames⟩ :=
      built.each 0 total tiles sub member
    rw [itsLeaves, itsNames]
    exact ⟨node piece, held _ stored, spreads piece isPiece _ _ covered⟩

/-- The interior levels above subtrees that number `width` leave no more entries than the root
holds, by induction on the levels: each cuts the one below it into nodes of `nodeCapacity`.
-/
theorem buildInterior_level {inlineCapacity cap : Nat} (some_ : 0 < inlineCapacity)
    (fans : 2 ≤ cap) {total : Nat} (bounded : total ≤ 2 ^ 32)
    {fuel width : Nat} (enough : width < fuel) {subs : List Subtree} (count : subs.length = width)
    {depth height : Nat} {blocks : List Nat} (above : 0 < depth)
    (shallow : depth + (levelsAbove inlineCapacity cap fuel width enough some_ fans).length < 2 ^ 16)
    (room : (levelsAbove inlineCapacity cap fuel width enough some_ fans).sum ≤ blocks.length)
    (small : ∀ block ∈ blocks, block < physicalBound)
    (tiles : Tiles 0 (subs.map Subtree.span) total) (fits : ∀ sub ∈ subs, sub.idx.Fits)
    : ∃ nodes root used left,
        buildInterior cap (levelsAbove inlineCapacity cap fuel width enough some_ fans).length depth
          (subs.map Subtree.idx) blocks = (nodes, root.map Subtree.idx)
        ∧ blocks = used ++ left
        ∧ used.length = (levelsAbove inlineCapacity cap fuel width enough some_ fans).sum
        ∧ root.length ≤ inlineCapacity
        ∧ (∀ sub ∈ root, sub.idx.Fits)
        ∧ (∀ stored ∈ nodes, stored.node.Fits ∧ stored.node.len ≤ cap ∧ stored.block ∈ used)
        ∧ ∀ (holds : Nat → ExtentNode → Prop) (leaves : List ExtentLeaf) (names : List Nat),
            Level holds height subs total leaves names →
            (∀ stored ∈ nodes, holds stored.block stored.node) →
            ∃ all, Level holds
                (height + (levelsAbove inlineCapacity cap fuel width enough some_ fans).length) root
                total leaves all
              ∧ all.Perm (used ++ names) := by
  induction fuel generalizing width subs depth height blocks with
  | zero => exact absurd enough (Nat.not_lt_zero _)
  | succ fuel ih =>
      by_cases wide : width > inlineCapacity
      · simp only [levelsAbove, dif_pos wide, List.length_cons, List.sum_cons] at shallow room ⊢
        have pos : 0 < cap := by omega
        have cut := length_chunks pos subs
        rw [count] at cut
        obtain ⟨nodes, parents, used, left, built, level⟩ :=
          @buildLevel_built Subtree (fun piece => .index depth (piece.map Subtree.idx))
            (fun sub => sub.idx.block) subtreeElement (fun _ => rfl) (chunks cap subs) blocks
            (fun piece member => (mem_chunks pos member).1) (by omega)
        have tiled : Tiles 0 ((chunks cap subs).flatten.map subtreeElement.span) total := by
          rw [flatten_chunks pos]
          exact tiles
        have parentTiles := level.tiles 0 total tiled
        have inBlocks : ∀ block ∈ used, block ∈ blocks := fun block member =>
          level.split ▸ List.mem_append_left _ member
        have parentFits : ∀ sub ∈ parents, sub.idx.Fits := by
          intro sub member
          obtain ⟨-, nonempty, inside⟩ := tiles_mem parentTiles (List.mem_map_of_mem member)
          refine ⟨?_, small _ (inBlocks _ (level.named sub member))⟩
          have : sub.idx.block + sub.len ≤ total := inside
          have : 0 < sub.len := nonempty
          omega
        have usedLong := level.counted
        have splitLong := congrArg List.length level.split
        rw [List.length_append] at splitLong
        obtain ⟨more, root, taken, rest, interior, split, takenLong, narrow, rootFits, moreFit,
            raised⟩ :=
          @ih (divCeil width cap) _ parents (level.count.trans cut) (depth + 1) (height + 1) left
            (Nat.succ_pos _) (by omega) (by omega)
            (fun block member => small block (level.split ▸ List.mem_append_right _ member))
            parentTiles parentFits
        refine ⟨nodes ++ more, root, used ++ taken, rest, ?_, ?_, ?_, narrow, rootFits, ?_, ?_⟩
        · simp only [buildInterior, chunks_map, buildLevel_map]
          rw [built]
          dsimp only
          rw [interior]
        · rw [level.split, split, List.append_assoc]
        · rw [List.length_append, usedLong, cut, takenLong]
        · intro stored member
          rcases List.mem_append.mp member with here | later
          · obtain ⟨named, piece, isPiece, is⟩ := level.holds stored here
            have short := (mem_chunks pos isPiece).2
            refine ⟨?_, ?_, List.mem_append_left _ named⟩
            · rw [is]
              refine ⟨above, by omega, ?_⟩
              intro idx isEntry
              obtain ⟨sub, isSub, rfl⟩ := List.mem_map.mp isEntry
              refine fits sub ?_
              rw [← flatten_chunks pos subs]
              exact List.mem_flatten_of_mem isPiece isSub
            · rw [is]
              exact (List.length_map ..).trans_le short
          · obtain ⟨itFits, itsLen, named⟩ := moreFit stored later
            exact ⟨itFits, itsLen, List.mem_append_right _ named⟩
        · intro holds leaves names lower held
          have raisedOnce : Level holds (height + 1) parents total leaves (used ++ names) := by
            refine level.level tiled ?_ ?_ ?_ fun stored member =>
              held stored (List.mem_append_left _ member)
            · rw [flatten_chunks pos]
              exact lower.covers
            · rw [flatten_chunks pos]
              exact lower.names
            · intro piece isPiece lo hi covered
              refine spreads_index covered fun sub isSub => lower.each sub ?_
              rw [← flatten_chunks pos subs]
              exact List.mem_flatten_of_mem isPiece isSub
          obtain ⟨all, top, same⟩ := raised holds leaves _ raisedOnce fun stored member =>
            held stored (List.mem_append_right _ member)
          refine ⟨all, ?_, ?_⟩
          · rw [Nat.add_comm _ 1, ← Nat.add_assoc]
            exact top
          · refine same.trans ?_
            rw [← List.append_assoc]
            exact List.Perm.append_right _ List.perm_append_comm
      · simp only [levelsAbove, dif_neg wide, List.length_nil, List.sum_nil] at shallow room ⊢
        refine ⟨[], subs, [], blocks, rfl, rfl, rfl, by omega, fits, nofun, ?_⟩
        intro holds leaves names level _
        exact ⟨names, level, .rfl⟩

/-- A tree that is planned is built: its nodes and its root all fit, each of the blocks given
names one node, and a reader that holds the nodes finds under the root just the leaves.
-/
structure TreeBuilt (leaves : List ExtentLeaf) (inlineCapacity cap total : Nat)
    (nodeBlocks : List Nat) (tree : ExtentTree) : Prop where
  root : tree.root.Fits ∧ tree.root.len ≤ inlineCapacity
  nodes : ∀ stored ∈ tree.nodes, stored.node.Fits ∧ stored.node.len ≤ cap
    ∧ stored.block ∈ nodeBlocks
  spreads : ∀ holds : Nat → ExtentNode → Prop,
    (∀ stored ∈ tree.nodes, holds stored.block stored.node) →
    ∃ height ≤ maxExtentDepth, ∃ names,
      Spreads holds height tree.root 0 total leaves names ∧ names.Perm nodeBlocks

/-- The tree over leaves that follow on from each other, built in blocks it can name. -/
theorem buildTree_built {leaves : List ExtentLeaf} {inlineCapacity cap total : Nat}
    {shape : TreeShape} {nodeBlocks : List Nat} (bounded : total ≤ 2 ^ 32)
    (tiles : Tiles 0 (leaves.map ExtentLeaf.span) total) (fits : ∀ leaf ∈ leaves, leaf.Fits)
    (planned : planTree leaves.length inlineCapacity cap = .ok shape)
    (given : nodeBlocks.length = shape.nodeBlocks)
    (small : ∀ block ∈ nodeBlocks, block < physicalBound)
    : ∃ tree, buildTree leaves inlineCapacity cap nodeBlocks = .ok tree
      ∧ TreeBuilt leaves inlineCapacity cap total nodeBlocks tree := by
  have exact_ : (nodeBlocks.length != shape.nodeBlocks) = false := bne_eq_false_iff_eq.mpr given
  simp only [buildTree, planned, ok_bind, exact_, refuseIf, Bool.false_eq_true, if_false]
  simp only [planTree] at planned
  split at planned
  case isTrue few =>
    cases planned
    obtain rfl := List.eq_nil_of_length_eq_zero given
    refine ⟨⟨.leaves leaves, []⟩, rfl, ⟨fits, few⟩,
      fun node member => absurd member List.not_mem_nil, ?_⟩
    intro holds _
    exact ⟨0, Nat.zero_le _, [], ⟨rfl, tiles, rfl⟩, .rfl⟩
  case isFalse many =>
    split at planned
    case isTrue => cases planned
    case isFalse wide =>
      have some_ : 0 < inlineCapacity := by omega
      have fans : 2 ≤ cap := by omega
      have pos : 0 < cap := by omega
      split at planned
      case isTrue => cases planned
      case isFalse shallow =>
        cases planned
        simp only [List.length_cons, List.sum_cons] at shallow given ⊢
        have cut := length_chunks pos leaves
        obtain ⟨nodes, subs, used, left, built, level⟩ :=
          @buildLevel_built ExtentLeaf .leaves ExtentLeaf.block leafElement (fun _ => rfl)
            (chunks cap leaves) nodeBlocks (fun piece member => (mem_chunks pos member).1)
            (by omega)
        have tiled : Tiles 0 ((chunks cap leaves).flatten.map leafElement.span) total := by
          rw [flatten_chunks pos]
          exact tiles
        have subTiles := level.tiles 0 total tiled
        have inBlocks : ∀ block ∈ used, block ∈ nodeBlocks := fun block member =>
          level.split ▸ List.mem_append_left _ member
        have subFits : ∀ sub ∈ subs, sub.idx.Fits := by
          intro sub member
          obtain ⟨-, nonempty, inside⟩ := tiles_mem subTiles (List.mem_map_of_mem member)
          refine ⟨?_, small _ (inBlocks _ (level.named sub member))⟩
          have : sub.idx.block + sub.len ≤ total := inside
          have : 0 < sub.len := nonempty
          omega
        have usedLong := level.counted
        have splitLong := congrArg List.length level.split
        rw [List.length_append] at splitLong
        have deepest : maxExtentDepth = 5 := rfl
        obtain ⟨more, root, taken, rest, interior, split, takenLong, narrow, rootFits, moreFit,
            raised⟩ :=
          @buildInterior_level inlineCapacity cap some_ fans total bounded
            (divCeil leaves.length cap + 1) _ (Nat.lt_succ_self _) subs (level.count.trans cut) 1 0 left
            Nat.one_pos (by omega) (by omega)
            (fun block member => small block (level.split ▸ List.mem_append_right _ member))
            subTiles subFits
        let levels := levelsAbove inlineCapacity cap (divCeil leaves.length cap + 1)
          (divCeil leaves.length cap) (Nat.lt_succ_self _) some_ fans
        have deep : levels.length + 1 ≤ maxExtentDepth := Nat.le_of_not_lt shallow
        refine ⟨⟨.index (levels.length + 1) (root.map Subtree.idx), nodes ++ more⟩, ?_, ?_⟩
        · rw [if_neg (Nat.succ_ne_zero _), built]
          dsimp only
          rw [Nat.add_sub_cancel, interior]
          rfl
        have whole : used ++ taken = nodeBlocks := by
          have ends : rest = [] := by
            have restLong := congrArg List.length split
            rw [List.length_append] at restLong
            exact List.eq_nil_of_length_eq_zero (by omega)
          rw [level.split, split, ends, List.append_nil]
        constructor
        case root =>
          refine ⟨⟨Nat.succ_pos _, Nat.lt_of_le_of_lt deep (by decide), ?_⟩,
            (List.length_map ..).trans_le narrow⟩
          intro idx isEntry
          obtain ⟨sub, isSub, rfl⟩ := List.mem_map.mp isEntry
          exact rootFits sub isSub
        case nodes =>
          intro stored member
          rcases List.mem_append.mp member with here | later
          · obtain ⟨named, piece, isPiece, is⟩ := level.holds stored here
            rw [is]
            refine ⟨fun leaf isLeaf => fits leaf ?_, (mem_chunks pos isPiece).2,
              inBlocks _ named⟩
            rw [← flatten_chunks pos leaves]
            exact List.mem_flatten_of_mem isPiece isLeaf
          · obtain ⟨itFits, itsLen, named⟩ := moreFit stored later
            exact ⟨itFits, itsLen, whole ▸ List.mem_append_right _ named⟩
        case spreads =>
          intro holds held
          have bottom : Level holds 0 subs total leaves (used ++ []) := by
            refine level.level tiled ?_ ?_ ?_ fun stored member =>
              held stored (List.mem_append_left _ member)
            · rw [flatten_chunks pos]
              exact List.flatMap_singleton' leaves
            · exact List.Perm.of_eq (List.flatMap_eq_nil_iff.mpr fun _ _ => rfl)
            · exact fun piece _ lo hi covered => spreads_leaves holds covered
          obtain ⟨all, top, same⟩ := raised holds leaves _ bottom fun stored member =>
            held stored (List.mem_append_right _ member)
          refine ⟨_, deep, _, ⟨_, root, rfl, top.covers.symm, rfl, top.tiles,
            ?_⟩, ?_⟩
          · have each := top.each
            rwa [Nat.zero_add] at each
          · refine (top.names.trans same).trans ?_
            rw [List.append_nil, ← whole]
            exact List.perm_append_comm

end Ferrosys.Ext
