import Ferrosys.Apfs.Btree.Search

/-! What every search of a tree answers, held to what a walk of the whole tree meets; and, for any
image, that every walk and search ends, enters no node from itself or from below it, and reads no
entry outside its node.
-/

namespace Ferrosys.Apfs

open Checked Loop SearchTree TreeWalk

namespace Reading

section Ending

/-- The nodes a walk is in are in blocks apart, each a level below the next, and what a walk takes
next of each is one of its entries or past them all.
-/
structure Descending {σ : Type} (state : WalkState σ) : Prop where
  apart : (state.stack.map Frame.block).Nodup
  levels : (state.stack.map Frame.level).IsChain fun child parent => child + 1 = parent
  entered : ∀ frame ∈ state.stack, frame.block ∈ state.seen
  within : ∀ frame ∈ state.stack, frame.next ≤ frame.node.len

/-- Every turn of a walk leaves it in blocks that are apart: what it enters it has not seen. -/
theorem Descending.step {σ : Type} {self : Reading} {target : Target} {limit : Nat}
    {visit : σ → Bytes → Bytes → Except ReadError (σ × Bool)}
    {reached : σ → Frame → Except ReadError σ} (state next : WalkState σ)
    (descending : Descending state)
    (taken : self.walkStep target limit visit reached state = .go next)
    : Descending next := by
  obtain ⟨apart, levels, entered, within⟩ := descending
  obtain ⟨top, rest, shape, ⟨left, same, -⟩
    | ⟨index, child, node, more, -, read, went, -⟩⟩ := walkStep_go taken
  · rw [shape, List.map_cons] at apart levels
    refine ⟨?_, ?_, ?_, ?_⟩
    · rw [left]
      exact (List.nodup_cons.mp apart).2
    · rw [left]
      exact levels.tail
    · intro frame member
      rw [same]
      exact entered frame (shape ▸ List.mem_cons_of_mem _ (left ▸ member))
    · intro frame member
      exact within frame (shape ▸ List.mem_cons_of_mem _ (left ▸ member))
  · obtain ⟨fresh, visited, below⟩ := descend_eq_ok read
    have above : ∀ frame ∈ { top with next := index + 1 } :: rest, frame.block ∈ state.seen := by
      intro frame member
      rcases List.mem_cons.mp member with rfl | member
      · exact entered top (shape ▸ List.mem_cons_self)
      · exact entered frame (shape ▸ List.mem_cons_of_mem _ member)
    rw [shape, List.map_cons] at apart levels
    refine ⟨?_, ?_, ?_, ?_⟩
    · rw [went, List.map_cons]
      refine List.nodup_cons.mpr ⟨fun held => ?_, apart⟩
      obtain ⟨frame, member, same⟩ := List.mem_map.mp held
      exact fresh (same ▸ above frame member)
    · have lower : child.level + 1 = top.level := by
        have := below.level
        omega
      rw [went]
      exact List.IsChain.cons_cons lower levels
    · intro frame member
      rw [went] at member
      rw [visited]
      rcases List.mem_cons.mp member with rfl | member
      · exact List.mem_cons_self
      · exact List.mem_cons_of_mem _ (above frame member)
    · intro frame member
      rw [went] at member
      rcases List.mem_cons.mp member with rfl | member
      · rw [below.next]
        exact Nat.zero_le _
      · rcases List.mem_cons.mp member with rfl | member
        · exact more
        · exact within frame (shape ▸ List.mem_cons_of_mem _ member)

/-- The blocks a search has seen are those it has come through, the one it is in first, each a level
below the one it came from.
-/
structure Path (root : Frame) (state : FindState) : Prop where
  apart : state.seen.Nodup
  here : state.seen.head? = some state.frame.block
  level : state.frame.level + state.seen.length = root.level + 1

theorem Path.step {self : Reading} {target : Target} {root : Frame} (state next : FindState)
    (path : Path root state) (taken : self.findStep target state = .go next)
    : Path root next := by
  obtain ⟨node, index, -, read⟩ := findStep_go taken
  obtain ⟨fresh, visited, below⟩ := descend_eq_ok read
  refine ⟨?_, ?_, ?_⟩
  · rw [visited]
    exact List.nodup_cons.mpr ⟨fresh, path.apart⟩
  · rw [visited, List.head?_cons]
  · have := path.level
    have := below.level
    rw [visited, List.length_cons]
    omega

/-- Every walk and every search of a tree ends within turns that its root's level bounds, is never
in one block twice over, and reads no entry outside its node.
-/
structure Ends (reading : Reading) : Prop where
  walk : ∀ {σ : Type} (target : Target) (limit : Nat)
    (visit : σ → Bytes → Bytes → Except ReadError (σ × Bool))
    (reached : σ → Frame → Except ReadError σ) (acc : σ) (root : Frame),
    reading.readRoot = .ok root →
    let first : WalkState σ := ⟨[root], [root.block], 0, true, acc⟩
    (run (reading.walkStep target limit visit reached) (worth (2 ^ 32) (root.level + 1))
      first).isSome
    ∧ ∀ state,
      Relation.ReflTransGen (Turn (reading.walkStep target limit visit reached)) first state →
      Descending state
  find : ∀ (target : Target) (root : Frame), reading.readRoot = .ok root →
    let first : FindState := ⟨root, [root.block]⟩
    (run (reading.findStep target) (root.level + 1) first).isSome
    ∧ ∀ state, Relation.ReflTransGen (Turn (reading.findStep target)) first state →
      Path root state
  bounded : ∀ node : Node, node.Bounded

/-- That holds however a tree is read. -/
theorem ends (reading : Reading) : Ends reading where
  walk := by
    intro σ target limit visit reached acc root read first
    have fresh := (readRoot_eq_ok read).1
    constructor
    · apply run_isSome (reading.walkStep_lowers target limit visit reached)
      have := @Frame.turns_lt { root with next := 0 } (root.level + 1) rfl
      simpa [first, WalkState.turns] using this
    · intro state reached
      refine @Loop.invariant _ _ _ Descending _ _ Descending.step ⟨?_, ?_, ?_, ?_⟩ reached
      · exact List.nodup_singleton _
      · exact List.isChain_singleton _
      · intro frame member
        obtain rfl := List.mem_singleton.mp member
        exact List.mem_singleton_self _
      · intro frame member
        obtain rfl := List.mem_singleton.mp member
        rw [fresh]
        exact Nat.zero_le _
  find := by
    intro target root read first
    constructor
    · exact run_isSome (reading.findStep_lowers target) _ _ (Nat.lt_succ_self _)
    · intro state reached
      refine @Loop.invariant _ _ _ (Path root) _ _ Path.step ⟨?_, rfl, rfl⟩ reached
      exact List.nodup_singleton _
  bounded := Node.bounded

end Ending

/-- A target that stands for a key among these records: the tree's order compares each of them with
the key, and the target answers the same.
-/
def Seeks (order : Order) (key : Bytes) (target : Target) (records : List Record) : Prop :=
  ∀ record ∈ records, ∃ found,
    order.compare record.1 key = .ok (some found) ∧ target record.1 = .ok found

/-- A target that stands for a key has its place among records in order. -/
theorem Seeks.locates {order : Order} {key : Bytes} {target : Target} {records : List Record}
    (seeks : Seeks order key target records)
    (chain : (records.map Prod.fst).IsChain order.Before) : Locates target records := by
  refine ⟨fun record member => ?_, List.pairwise_map.mp (target.cuts.pairwise ?_)⟩
  · obtain ⟨found, -, answered⟩ := seeks record member
    exact ⟨found, answered⟩
  · refine List.IsChain.imp_of_mem_imp (fun a b left right before => ?_) chain
    obtain ⟨first, member, rfl⟩ := List.mem_map.mp left
    obtain ⟨second, later, rfl⟩ := List.mem_map.mp right
    obtain ⟨below, compared, answered⟩ := seeks first member
    obtain ⟨above, compared_, answered_⟩ := seeks second later
    intro notAfter
    have upper : above ≠ .gt := by
      rintro rfl
      rw [Target.notAfter, answered_] at notAfter
      cases notAfter
    rw [Target.before, answered, Order.cut before compared_ compared upper]

/-- Every search of a tree answers as its records do. -/
structure Agrees (reading : Reading) (maxWalkEntries : Nat) (records : List Record) : Prop where
  few : records.length ≤ maxWalkEntries
  increasing : records.Pairwise fun a b =>
    reading.tree.order.compare a.1 b.1 = .ok (some .lt)
    ∨ reading.tree.order = .fileSystem ∧ ∃ header, KeyHeader.readFrom a.1 = .ok header
      ∧ KeyHeader.readFrom b.1 = .ok header ∧ holdsOrder header.kind = false
  neighbours : (records.map Prod.fst).IsChain reading.tree.order.Before
  compares : ∀ key, reading.tree.order.Reads key → ∀ record ∈ records,
    ¬ reading.tree.order.Shares record.1 key →
    ∃ found, reading.tree.order.compare record.1 key = .ok (some found)
  atOrBefore : ∀ key target, Seeks reading.tree.order key target records →
    reading.findAtOrBefore target
      = .ok (records.filter fun record => target.notAfter record.1).getLast?
  from_ : ∀ {σ : Type} (key : Bytes) (target : Target), Seeks reading.tree.order key target records →
    ∀ (limit : Nat) (visit : σ → Bytes → Bytes → Except ReadError (σ × Bool)) (acc : σ),
    (reading.forEachFrom target limit visit acc).map Prod.snd
      = visitAll limit visit 0 (records.filter fun record => !target.before record.1) acc
  within : ∀ {σ : Type} (key : Bytes) (target : Target), Seeks reading.tree.order key target records →
    ∀ limit, records.length ≤ limit →
    ∀ (visit : σ → Bytes → Bytes → Except ReadError (σ × Bool)) (acc : σ),
    (reading.forEachFrom target limit visit acc).map Prod.snd
      = visitEach visit (records.filter fun record => !target.before record.1) acc

/-- Records in the order of a tree, one of them before another, compare so, but those of one
identifier and a kind no order is held for.
-/
theorem Order.Precedes.compare {order : Order} {a b : Bytes} (precedes : order.Precedes a b)
    : order.compare a b = .ok (some .lt)
      ∨ order = .fileSystem ∧ ∃ header, KeyHeader.readFrom a = .ok header
        ∧ KeyHeader.readFrom b = .ok header ∧ holdsOrder header.kind = false := by
  cases order with
  | fileSystem => exact (RecordPrecedes.compareRecords precedes).imp id fun shared => ⟨rfl, shared⟩
  | objectMap => exact .inl precedes
  | freeQueue => exact .inl precedes
  | transaction => exact .inl precedes

/-- Where a walk of all of a tree succeeds, every search agrees with it. -/
theorem agrees {self : Reading} {maxWalkEntries : Nat} {records : List Record}
    (walked : self.allRecords maxWalkEntries = .ok records)
    : Agrees self maxWalkEntries records := by
  obtain ⟨tree⟩ := allRecords_eq_ok walked
  obtain ⟨chain, precedes⟩ := tree.ascending
  have few := tree.few walked
  have visits {σ : Type} (key : Bytes) (target : Target)
      (seeks : Seeks self.tree.order key target records) (limit : Nat)
      (visit : σ → Bytes → Bytes → Except ReadError (σ × Bool)) (acc : σ)
      : (self.forEachFrom target limit visit acc).map Prod.snd
        = visitAll limit visit 0 (records.filter fun record => !target.before record.1) acc := by
    have locates := seeks.locates chain
    rw [tree.from_ locates, dropWhile_eq_filter]
    exact locates.before.imp fun before below => before (target.cuts.weaken _ below)
  refine ⟨few, precedes.imp Order.Precedes.compare, chain, ?_, ?_, visits, ?_⟩
  · intro key reads record member apart
    exact Order.compare_of_reads (tree.keysRead record member) reads apart
  · intro key target seeks
    have locates := seeks.locates chain
    rw [tree.atOrBefore locates, takeWhile_eq_filter]
    exact locates.before.imp fun before upper => target.cuts.weaken _ (before upper)
  · intro σ key target seeks limit many visit acc
    rw [visits key target seeks, visitAll_of_few]
    rw [Nat.zero_add]
    exact Nat.le_trans (List.length_filter_le _ _) many

end Reading

/-- However the children of a tree are found, every walk and search of it ends, and where a walk of
all of it succeeds every search agrees with that walk.
-/
theorem Container.search_agrees (self : Container) (tree : TreeRoot)
    : (self.reading tree).Ends
      ∧ ∀ records, (self.reading tree).allRecords self.maxWalkEntries = .ok records →
        (self.reading tree).Agrees self.maxWalkEntries records :=
  ⟨Reading.ends _, fun _ => Reading.agrees⟩

section Unordered

open Splice Reading

/-- The records of a leaf at block 1, from transaction 1, alone in its tree: three of identifier 1 and
of a kind no order is held for, the first and the last under one key.
-/
def unorderedEntries : Bytes :=
  List.replicate 8 0
    ++ [1, 0, 0, 0, 0, 0, 0, 0, 1, 0, 0, 0, 0, 0, 0, 0, 2, 0, 0, 0x40, 16, 0, 0, 0]
    ++ [3, 0, 0, 0, 3, 0, 0, 0, 0, 0, 24, 0, 27, 0, 0x6A, 0x0F, 0, 0, 0, 0, 0, 0, 0, 0]
    ++ [0, 0, 9, 0, 1, 0, 1, 0, 9, 0, 9, 0, 2, 0, 1, 0, 18, 0, 9, 0, 3, 0, 1, 0]
    ++ [1, 0, 0, 0, 0, 0, 0, 0xB0, 1, 1, 0, 0, 0, 0, 0, 0, 0xB0, 2, 1, 0, 0, 0, 0, 0, 0, 0xB0, 1]
    ++ List.replicate 3949 0

/-- The tree information at the leaf's end. -/
def unorderedInfo : Bytes := [0x50, 0, 0, 0, 0, 16, 0, 0] ++ List.replicate 32 0

def unorderedBytes : Bytes := unorderedEntries ++ unorderedInfo

/-- That leaf, sealed. -/
def unorderedLeaf : Bytes := seal_ unorderedBytes

theorem unorderedBytes_length : unorderedBytes.length = 4096 := by
  simp [unorderedBytes, unorderedEntries, unorderedInfo, -List.reduceReplicate]

theorem unorderedLeaf_length : unorderedLeaf.length = 4096 := by
  rw [unorderedLeaf, length_seal (by rw [unorderedBytes_length]; decide), unorderedBytes_length]

/-- What the leaf says about itself. -/
theorem unorderedLeaf_header
    : NodeHeader.readFrom unorderedLeaf = .ok {
        header := ⟨getU64 unorderedLeaf 0, 1, 1, 0x40000002, 16⟩
        flags := 3
        level := 0
        keyCount := 3
        table := (0, 24)
        freeSpace := (27, 3946)
      } := by
  have enough : NodeHeader.size ≤ unorderedLeaf.length := by
    rw [unorderedLeaf_length]
    decide
  rw [NodeHeader.readFrom, (ParseError.need_eq_ok (u := ())).mpr enough, ok_bind,
    ObjectHeader.readFrom, (ParseError.need_eq_ok (u := ())).mpr (Nat.le_trans (by decide) enough)]
  rfl

/-- That leaf, framed. -/
def unorderedNode : Node where
  bytes := unorderedLeaf
  header := _
  tableStart := 56
  keyArea := 80
  freeStart := 107
  valueStart := 4053
  valueEnd := 4056
  fixed := none
  parsed := unorderedLeaf_header
  table_fits := by decide
  keys_fit := by decide
  free_fits := by decide
  values_fit := by decide
  fits := by rw [unorderedLeaf_length]; decide

theorem unorderedNode_framed : Node.frame unorderedLeaf ⟨0, 0⟩ = .ok unorderedNode := by
  refine @Node.frame_of ⟨0, 0⟩ unorderedNode ?_ rfl rfl rfl rfl rfl
  rw [show unorderedNode.bytes = unorderedLeaf from rfl, unorderedLeaf_length]
  rfl

/-- Its keys are told apart, so it is held to be in order. -/
theorem unorderedNode_checked : checkNode unorderedNode 1 .fileSystem true = .ok ⟨0, 0⟩ := rfl

/-- A container that holds that leaf. -/
def unorderedContainer : Container where
  src := List.replicate 4096 0 ++ unorderedLeaf
  base := 0
  superblock := {
    header := ⟨0, 1, 1, 0x80000001, 0⟩
    blockSize := 4096
    blockCount := 2
    uuid := List.replicate 16 0
    checkpoint := ⟨1, 1, 0, 0, 1⟩
    spaceManagerOid := 1024
  }
  maxWalkEntries := 2 ^ 20

def unorderedTree : TreeRoot := ⟨1, .physical, 16, .fileSystem, 1⟩

/-- The root of the tree. -/
def unorderedRoot : Frame :=
  ⟨unorderedNode, 1, ⟨0, 0⟩, 0, none, ⟨0, 0⟩, checkNode_leads unorderedNode_checked⟩

/-- The root of the tree reads. -/
theorem readRoot_unordered
    : (unorderedContainer.reading unorderedTree).readRoot = .ok unorderedRoot := by
  have stored : readExactAt unorderedContainer.src 4096 4096 = .ok unorderedLeaf := by
    have room : 4096 + 4096 ≤ unorderedContainer.src.length := by
      rw [unorderedContainer, List.length_append, List.length_replicate, unorderedLeaf_length]
    rw [readExactAt, if_pos room, slice, unorderedContainer,
      List.drop_left' List.length_replicate, List.take_of_length_le (by rw [unorderedLeaf_length])]
  have block : unorderedContainer.readBlocks 1 4096 = .ok unorderedLeaf :=
    Container.readBlocks_of (by decide) (by decide) (by decide)
      (by decide : offsetOf unorderedContainer.base 1 unorderedContainer.blockSize = some 4096)
      stored
  have covered : verify unorderedLeaf = true :=
    verify_seal (by rw [unorderedBytes_length]; decide)
  have headed : ObjectHeader.readFrom unorderedLeaf
      = .ok ⟨getU64 unorderedLeaf 0, 1, 1, 0x40000002, 16⟩ := by
    obtain ⟨_, -, parsed⟩ := bind_eq_ok.mp unorderedLeaf_header
    obtain ⟨header, parsed, same⟩ := bind_eq_ok.mp parsed
    rw [parsed, (NodeHeader.mk.inj (Except.ok.inj same)).1]
  have read : (unorderedContainer.reading unorderedTree).read 1 true 1 = .ok (1, unorderedLeaf) := by
    have object := @Container.readObject_of unorderedContainer 1
      ⟨[Kind.btreeRoot], some 16, .physical, 1, .atMost 1⟩ _ _ block covered headed rfl
    rw [show (unorderedContainer.reading unorderedTree).read
      = unorderedContainer.readNode unorderedTree from rfl, Container.readNode,
      show unorderedTree.children = .physical from rfl]
    simp only [Container.readNodeAt, show unorderedTree.subtype = 16 from rfl,
      show Container.nodeKinds true = [Kind.btreeRoot] from rfl, object, ok_bind]
    rfl
  have info : TreeInfo.readFrom (unorderedLeaf.drop (unorderedLeaf.length - treeInfoSize))
      = .ok ⟨0x50, 4096, 0, 0⟩ := by
    have records : unorderedEntries.length = 4056 := by
      simp [unorderedEntries, -List.reduceReplicate]
    have last : unorderedLeaf.drop (8 + 4048) = unorderedInfo := by
      rw [← List.drop_drop, unorderedLeaf, drop_seal, List.drop_drop, unorderedBytes,
        List.drop_left' records]
    rw [unorderedLeaf_length, show 4096 - treeInfoSize = 8 + 4048 from rfl, last]
    rfl
  have held := @Frame.hold_of unorderedNode .fileSystem true _ _ unorderedNode_checked ⟨0, 0⟩ none
  rw [readRoot, show (unorderedContainer.reading unorderedTree).tree = unorderedTree from rfl,
    show unorderedTree.oid = 1 from rfl, show unorderedTree.maxXid = 1 from rfl, read, ok_bind]
  dsimp only
  rw [unorderedLeaf_header, info]
  refine bind_eq_ok.mpr ⟨_, rfl, bind_eq_ok.mpr ⟨(), rfl, bind_eq_ok.mpr ⟨_, rfl, ?_⟩⟩⟩
  refine bind_eq_ok.mpr ⟨(), rfl, bind_eq_ok.mpr ⟨(), rfl, ?_⟩⟩
  rw [unorderedNode_framed]
  exact held

/-- The two keys of its records, of which no order is held. -/
def unorderedKeys : Bytes × Bytes := ([1, 0, 0, 0, 0, 0, 0, 0xB0, 1], [1, 0, 0, 0, 0, 0, 0, 0xB0, 2])

def unorderedValue (start : Nat) : Bytes := unorderedNode.read ⟨start, start + 1⟩

def unorderedRecords : List Record :=
  [(unorderedKeys.1, unorderedValue 4055), (unorderedKeys.2, unorderedValue 4054),
    (unorderedKeys.1, unorderedValue 4053)]

/-- A record is its key's bytes and its value's. -/
theorem unorderedRoot_located {index start : Nat} {key : Bytes} {at_ : Range}
    (found : unorderedNode.locate index = .ok (at_, some ⟨start, start + 1⟩))
    (same : unorderedNode.read at_ = key)
    : unorderedRoot.located index = .ok ⟨1, key, unorderedValue start⟩ := by
  rw [Frame.located, Node.entryAt, show unorderedRoot.node = unorderedNode from rfl, Node.entry,
    found, ← same]
  rfl

/-- A walk of all of the tree collects the three. -/
theorem allRecords_unordered
    : (unorderedContainer.reading unorderedTree).allRecords unorderedContainer.maxWalkEntries
      = .ok unorderedRecords := by
  have first := @unorderedRoot_located 0 4055 unorderedKeys.1 ⟨80, 89⟩ rfl rfl
  have second := @unorderedRoot_located 1 4054 unorderedKeys.2 ⟨89, 98⟩ rfl rfl
  have third := @unorderedRoot_located 2 4053 unorderedKeys.1 ⟨98, 107⟩ rfl rfl
  have start : unorderedRoot.entryFrom true (fun _ => .ok .gt) = .ok 0 := rfl
  have step : (unorderedContainer.reading unorderedTree).walkStep (fun _ => .ok .gt)
      unorderedContainer.maxWalkEntries collect (fun acc _ => .ok acc)
      ⟨[unorderedRoot], [1], 0, true, []⟩ = .go ⟨[], [1], 3, false, unorderedRecords⟩ := by
    rw [walkStep]
    dsimp only
    rw [if_pos (show unorderedRoot.level = 0 from rfl), walkLeaf, start, ok_bind,
      show unorderedRoot.node.len - 0 = 3 from rfl]
    simp only [takeEntries, takeEntry, first, second, third, ok_bind, collect]
    rfl
  have done : (unorderedContainer.reading unorderedTree).walkStep (fun _ => .ok .gt)
      unorderedContainer.maxWalkEntries collect (fun acc _ => .ok acc)
      ⟨[], [1], 3, false, unorderedRecords⟩ = .stop (.ok (none, unorderedRecords)) := rfl
  rw [allRecords, forEach, forEachFrom, walk, readRoot_unordered]
  simp only [ok_bind]
  rw [show unorderedRoot.block = 1 from rfl, Loop.total_of_go _ step, Loop.total_of_stop _ done]
  rfl

/-- A walk of all of that tree meets a key again after another, of which no order is held. -/
theorem search_unordered
    : ∃ records,
        (unorderedContainer.reading unorderedTree).allRecords unorderedContainer.maxWalkEntries
          = .ok records
        ∧ records.map Prod.fst = [unorderedKeys.1, unorderedKeys.2, unorderedKeys.1]
        ∧ unorderedTree.order.compare unorderedKeys.1 unorderedKeys.2 = .ok none
        ∧ ¬ records.Pairwise fun a b => unorderedTree.order.compare a.1 b.1 = .ok (some .lt) := by
  have apart : unorderedTree.order.compare unorderedKeys.1 unorderedKeys.2 = .ok none := by decide
  refine ⟨unorderedRecords, allRecords_unordered, rfl, apart, fun increasing => ?_⟩
  have first := (List.pairwise_cons.mp increasing).1 (unorderedKeys.2, unorderedValue 4054) (by simp)
  cases apart.symm.trans first

end Unordered

end Ferrosys.Apfs
