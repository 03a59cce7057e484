import Ferrosys.Btrfs.Btree.Search

/-! What every search of a tree answers, held to what a walk of the whole tree meets; and, for any
image, that every walk and search ends and never enters a block it is already below.
-/

namespace Ferrosys.Btrfs.Volume

open Checked Loop SearchTree Splice TreeWalk

/-- The blocks a walk is in are apart, each a level below the next. -/
structure Descending {σ : Type} (state : DriveState σ) : Prop where
  apart : (state.stack.map fun frame => frame.block.header.bytenr).Nodup
  levels : (state.stack.map fun frame => frame.block.header.level).IsChain
    fun child parent => child + 1 = parent
  entered : ∀ frame ∈ state.stack, frame.block.header.bytenr ∈ state.visited

/-- Every turn of a walk leaves it in blocks that are apart: what it enters it has not visited. -/
theorem Descending.step {σ : Type} {self : Volume} {root : TreeRoot} {from_ : DiskKey}
    {onBlock : σ → TreeBlock → σ × Bool} {onItem : σ → DiskKey → Bytes → σ × Bool}
    (state next : DriveState σ) (descending : Descending state)
    (taken : self.driveStep root from_ onBlock onItem state = .go next)
    : Descending next := by
  obtain ⟨apart, levels, entered⟩ := descending
  obtain ⟨top, rest, shape, ⟨-, left, same⟩ | ⟨-, took, same⟩
    | ⟨-, child, below, start, read, went⟩⟩ := driveStep_go taken
  · rw [shape, List.map_cons] at apart levels
    refine ⟨?_, ?_, ?_⟩
    · rw [left]
      exact (List.nodup_cons.mp apart).2
    · rw [left]
      exact levels.tail
    · intro frame member
      rw [same]
      exact entered frame (shape ▸ List.mem_cons_of_mem _ (left ▸ member))
  · rw [shape, List.map_cons] at apart levels
    refine ⟨?_, ?_, ?_⟩
    · rw [took]
      exact apart
    · rw [took]
      exact levels
    · intro frame member
      rw [same]
      rw [took] at member
      rcases List.mem_cons.mp member with rfl | member
      · exact entered top (shape ▸ List.mem_cons_self)
      · exact entered frame (shape ▸ List.mem_cons_of_mem _ member)
  · obtain ⟨level, visited, fresh, -⟩ := childOf_eq_ok read
    have above : ∀ frame ∈ { top with index := top.index + 1 } :: rest,
        frame.block.header.bytenr ∈ state.visited := by
      intro frame member
      rcases List.mem_cons.mp member with rfl | member
      · exact entered top (shape ▸ List.mem_cons_self)
      · exact entered frame (shape ▸ List.mem_cons_of_mem _ member)
    rw [shape] at apart levels
    refine ⟨?_, ?_, ?_⟩
    · rw [went, List.map_cons]
      refine List.nodup_cons.mpr ⟨?_, apart⟩
      intro held
      obtain ⟨frame, member, same⟩ := List.mem_map.mp held
      exact fresh (same ▸ above frame member)
    · rw [went]
      exact List.IsChain.cons_cons level levels
    · intro frame member
      rw [went] at member
      rw [visited]
      rcases List.mem_cons.mp member with rfl | member
      · exact List.mem_cons_self
      · exact List.mem_cons_of_mem _ (above frame member)

/-- The addresses a search has visited are the blocks it has come through, the one it is in first,
each a level below the one it came from.
-/
structure Path (root : TreeRoot) (state : SeekState) : Prop where
  apart : state.visited.Nodup
  here : state.visited.head? = some state.block.header.bytenr
  level : state.block.header.level + state.visited.length = root.level + 1

theorem Path.step {self : Volume} {root : TreeRoot} {key : DiskKey} (state next : SeekState)
    (path : Path root state) (taken : self.seekStep root key state = .go next)
    : Path root next := by
  obtain ⟨index, read⟩ := seekStep_go taken
  obtain ⟨level, visited, fresh, -⟩ := childOf_eq_ok read
  refine ⟨?_, ?_, ?_⟩
  · rw [visited]
    exact List.nodup_cons.mpr ⟨fresh, path.apart⟩
  · rw [visited, List.head?_cons]
  · have := path.level
    rw [visited, List.length_cons]
    omega

/-- Every walk and every search of a tree ends within turns that its root's level bounds, and is
never in one block twice over.
-/
structure Ends (volume : Volume) (root : TreeRoot) : Prop where
  walk : ∀ {σ : Type} (from_ : DiskKey) (onBlock : σ → TreeBlock → σ × Bool)
    (onItem : σ → DiskKey → Bytes → σ × Bool) (acc : σ) (block : TreeBlock) (start : Nat),
    volume.readRoot root = .ok block →
    let first : DriveState σ := ⟨[⟨block, start, none⟩], [root.bytenr], 0, acc⟩
    (run (volume.driveStep root from_ onBlock onItem) (perEntry (root.level + 1)) first).isSome
    ∧ ∀ state,
      Relation.ReflTransGen (Turn (volume.driveStep root from_ onBlock onItem)) first state →
      Descending state
  search : ∀ (key : DiskKey) (block : TreeBlock), volume.readRoot root = .ok block →
    let first : SeekState := ⟨block, none, [root.bytenr]⟩
    (run (volume.seekStep root key) (root.level + 1) first).isSome
    ∧ ∀ state, Relation.ReflTransGen (Turn (volume.seekStep root key)) first state →
      Path root state

theorem readRoot_level {volume : Volume} {root : TreeRoot} {block : TreeBlock}
    (read : volume.readRoot root = .ok block) : block.header.level = root.level := by
  obtain ⟨other, fetched, read⟩ := bind_eq_ok.mp read
  obtain ⟨_, level, read⟩ := bind_eq_ok.mp read
  obtain ⟨_, packed, read⟩ := bind_eq_ok.mp read
  obtain ⟨_, keyed, read⟩ := bind_eq_ok.mp read
  obtain rfl := Except.ok.inj read
  simpa using level

/-- That holds of every image. -/
theorem ends (volume : Volume) (root : TreeRoot) : Ends volume root where
  walk := by
    intro σ from_ onBlock onItem acc block start read first
    have address := (readRoot_sorted read).2
    constructor
    · apply run_isSome (volume.driveStep_lowers root from_ onBlock onItem)
      have := Frame.turns_lt_perEntry ⟨block, start, none⟩
        (congrArg (· + 1) (readRoot_level read))
      simpa [first, DriveState.turns] using this
    · intro state reached
      refine @Loop.invariant _ _ _ Descending _ _ Descending.step ⟨?_, ?_, ?_⟩ reached
      · exact List.nodup_singleton _
      · exact List.isChain_singleton _
      · intro frame member
        obtain rfl := List.mem_singleton.mp member
        exact List.mem_singleton.mpr address
  search := by
    intro key block read first
    have level := readRoot_level read
    constructor
    · apply run_isSome (volume.seekStep_lowers root key)
      simp only [first, level]
      omega
    · intro state reached
      refine @Loop.invariant _ _ _ (Path root) _ _ Path.step ⟨?_, ?_, ?_⟩ reached
      · exact List.nodup_singleton _
      · exact congrArg some (readRoot_sorted read).2.symm
      · simp [first, level]

/-- Every search of a tree answers as its items do. -/
structure Agrees (volume : Volume) (root : TreeRoot) (items : List Located) : Prop where
  increasing : items.Pairwise fun a b => a.key < b.key
  exact_ : ∀ key, volume.findExact root key
    = .ok (items.find? fun item => decide (item.key = key))
  first : ∀ key, volume.findFirst root key
    = .ok (items.find? fun item => decide (key ≤ item.key))
  atOrBefore : ∀ key, volume.findAtOrBefore root key
    = .ok (items.filter fun item => decide (item.key ≤ key)).getLast?
  from_ : ∀ {σ : Type} (key : DiskKey) (visit : σ → DiskKey → Bytes → σ × Bool) (acc : σ),
    volume.forEachItemFrom root key visit acc
      = .ok (visitAll visit (items.filter fun item => decide (key ≤ item.key)) acc)

/-- A node without a child, at the top of its tree. -/
def LeadsNowhere (block : TreeBlock) : Prop :=
  block.header.level ≠ 0 ∧ block.header.nritems = 0

/-- A walk of a node without a child meets nothing. -/
theorem allItems_of_leadsNowhere {volume : Volume} {root : TreeRoot} {block : TreeBlock}
    (read : volume.readRoot root = .ok block) (nowhere : LeadsNowhere block)
    : volume.allItems root = .ok [] := by
  obtain ⟨level, node⟩ := Nat.exists_eq_succ_of_ne_zero nowhere.1
  have walked : volume.walkBelow DiskKey.min block.header.level (block, none) [root.bytenr]
      = ⟨[], .ok [root.bytenr]⟩ := by
    have none : volume.forest.count (block, none) = 0 := nowhere.2
    rw [node, walkBelow, Forest.walk, none, Nat.zero_sub]
    rfl
  exact (drive_eq read (readRoot_sorted read).1 DiskKey.min collect []).trans (by rw [walked]; rfl)

/-- A search for the last item at or before a key fails at a node without a child: it has no first
child to enter.
-/
theorem findAtOrBefore_of_leadsNowhere {volume : Volume} {root : TreeRoot} {block : TreeBlock}
    (read : volume.readRoot root = .ok block) (nowhere : LeadsNowhere block) (key : DiskKey)
    : volume.findAtOrBefore root key
      = .error (.badTreeBlock root.bytenr "a child pointer past the block's own count") := by
  obtain ⟨level, node⟩ := Nat.exists_eq_succ_of_ne_zero nowhere.1
  obtain ⟨sorted, address⟩ := readRoot_sorted read
  have notLeaf : block.header.isLeaf = false := by
    rw [Header.isLeaf, node]
    rfl
  have child (index : Nat) (visited : List Nat)
      : volume.forest.child (block, none) index visited
        = .error (.badTreeBlock root.bytenr "a child pointer past the block's own count") := by
    change volume.childOf block none index visited = _
    rw [childOf, TreeBlock.keyPtr, notLeaf, sorted.counted, nowhere.2, address]
    rfl
  rw [findAtOrBefore, read, ok_bind, seek_eq _ _ _ _ sorted rfl, node, Forest.descend, child]
  rfl

/-- Every walk and search of a tree ends and is never in a block twice; and where a walk of all of
it succeeds, every search agrees with that walk, exactly when the top block is not a node without
a child.
-/
theorem search_agrees_iff (volume : Volume) (root : TreeRoot)
    : (Ends volume root
        ∧ ∀ items, volume.allItems root = .ok items → Agrees volume root items)
      ↔ ∀ block, volume.readRoot root = .ok block → ¬ LeadsNowhere block := by
  constructor
  · rintro ⟨-, agrees⟩ block read nowhere
    have answered := (agrees [] (allItems_of_leadsNowhere read nowhere)).atOrBefore DiskKey.min
    rw [findAtOrBefore_of_leadsNowhere read nowhere] at answered
    cases answered
  · intro somewhere
    refine ⟨ends volume root, fun items walked => ?_⟩
    obtain ⟨tree⟩ := allItems_eq_ok walked
    have leads : tree.block.header.level ≠ 0 → tree.block.header.nritems ≠ 0 :=
      fun node empty => somewhere tree.block tree.read ⟨node, empty⟩
    exact {
      increasing := tree.increasing
      exact_ := tree.exact_
      first := tree.first
      atOrBefore := tree.atOrBefore leads
      from_ := tree.from_
    }

/-- A sealed node of 4096 bytes at logical address 2²⁰, from transaction 1, of level 1 and without a
child.
-/
def emptyNode : Bytes :=
  seal_ (List.replicate 50 0 ++ [16] ++ List.replicate 29 0 ++ [1] ++ List.replicate 19 0 ++ [1]
    ++ List.replicate 3995 0)

/-- A volume whose one chunk maps that node to where it is on the device. -/
def emptyNodeVolume : Volume where
  src := List.replicate (2 ^ 20) 0 ++ emptyNode
  base := 0
  policy := .strict
  maxWalkEntries := 2 ^ 20
  nodesize := 4096
  csumType := ChecksumType.crc32c
  metadataId := List.replicate 16 0
  chunks := ⟨[⟨2 ^ 20, 2 ^ 20, BlockGroupFlags.metadata, [2 ^ 20], by decide⟩],
    List.pairwise_singleton _ _⟩

def emptyNodeRoot : TreeRoot := ⟨5, 2 ^ 20, 1, 1⟩

theorem emptyNode_length : emptyNode.length = 4096 := by
  have length : (List.replicate 50 0 ++ [16] ++ List.replicate 29 0 ++ [1] ++ List.replicate 19 0
      ++ [1] ++ List.replicate 3995 0 : Bytes).length = 4096 := by
    simp [-List.reduceReplicate]
  rw [emptyNode, length_seal (by rw [length]; decide), length]

/-- What the node says about itself. -/
theorem emptyNode_header
    : Header.readFrom emptyNode = .ok {
        csum := slice emptyNode 0 csumFieldLen
        fsid := List.replicate 16 0
        bytenr := 2 ^ 20
        flags := 0
        chunkTreeUuid := List.replicate 16 0
        generation := 1
        owner := 0
        nritems := 0
        level := 1
      } := by
  rw [Header.readFrom, if_neg (by rw [emptyNode_length]; decide)]
  rfl

/-- The tree's top block reads. -/
theorem readRoot_emptyNode
    : ∃ block, emptyNodeVolume.readRoot emptyNodeRoot = .ok block ∧ LeadsNowhere block := by
  refine ⟨⟨_, emptyNode, emptyNode_header⟩, ?_, by decide, rfl⟩
  have stored : readExactAt emptyNodeVolume.src (2 ^ 20) 4096 = .ok emptyNode := by
    have room : 2 ^ 20 + 4096 ≤ emptyNodeVolume.src.length := by
      rw [emptyNodeVolume, List.length_append, List.length_replicate, emptyNode_length]
    rw [readExactAt, if_pos room, slice, emptyNodeVolume,
      List.drop_left' List.length_replicate, List.take_of_length_le (by rw [emptyNode_length])]
  have covered : checksumHolds emptyNode emptyNodeVolume.csumType = true := checksumHolds_seal _
  have parsed : TreeBlock.parse emptyNode = .ok ⟨_, emptyNode, emptyNode_header⟩ :=
    TreeBlock.parse_of_readFrom emptyNode_header
  have copy : emptyNodeVolume.readCopy (2 ^ 20) (2 ^ 20) 4096 (some 1)
      = .ok ⟨_, emptyNode, emptyNode_header⟩ :=
    readCopy_of (by decide : offsetOf emptyNodeVolume.base (2 ^ 20) = some (2 ^ 20)) stored covered
      parsed rfl rfl (by decide) (by rintro _ ⟨⟩; rfl)
  have block : emptyNodeVolume.readTreeBlock (2 ^ 20) 1 = .ok ⟨_, emptyNode, emptyNode_header⟩ := by
    rw [readTreeBlock, readThrough,
      show emptyNodeVolume.chunks.copiesOf (2 ^ 20) emptyNodeVolume.nodesize = .ok [2 ^ 20] from rfl,
      ok_bind, readCopies, show emptyNodeVolume.nodesize = 4096 from rfl, copy]
  rw [readRoot, show emptyNodeRoot.bytenr = 2 ^ 20 from rfl,
    show emptyNodeRoot.generation = 1 from rfl, block, ok_bind,
    TreeBlock.checkLeafPacking_of_node (by decide), TreeBlock.checkKeys_of_empty rfl]
  rfl

/-- A walk of all of that tree meets nothing, and a search of it for the last item at or before a
key fails where there is none.
-/
theorem search_disagrees
    : emptyNodeVolume.allItems emptyNodeRoot = .ok []
      ∧ emptyNodeVolume.findFirst emptyNodeRoot DiskKey.min = .ok none
      ∧ emptyNodeVolume.findAtOrBefore emptyNodeRoot DiskKey.min
        = .error (.badTreeBlock (2 ^ 20) "a child pointer past the block's own count") := by
  obtain ⟨block, read, nowhere⟩ := readRoot_emptyNode
  have walked := allItems_of_leadsNowhere read nowhere
  obtain ⟨tree⟩ := allItems_eq_ok walked
  exact ⟨walked, tree.first _, findAtOrBefore_of_leadsNowhere read nowhere _⟩

end Ferrosys.Btrfs.Volume
