import Ferrosys.Btrfs.Btree.Walk
import Mathlib.Data.List.Nodup

/-! Searches of a tree agree with a walk of all of it: one that meets every block has read a search
tree, and every search steers through that same tree.
-/

namespace Ferrosys.Btrfs.Volume

open Checked Loop SearchTree TreeWalk

section Visit

variable {σ : Type} {self : Volume} {root : TreeRoot}

/-- Hand items to a visitor until it has had enough. -/
def visitAll (visit : σ → DiskKey → Bytes → σ × Bool) : (items : List Located) → (acc : σ) → σ
  | [], acc => acc
  | item :: rest, acc =>
      let taken := visit acc item.key item.data
      if taken.2 then visitAll visit rest taken.1 else taken.1

/-- A walk that stays within the limit hands over the items it meets, by induction on what it
meets.
-/
theorem feed_items (visit : σ → DiskKey → Bytes → σ × Bool)
    (events : List ((TreeBlock × Option DiskKey) ⊕ Located)) (visits : Nat) (acc : σ)
    (few : visits + (Forest.found events).length ≤ self.maxWalkEntries)
    : (match feed (self.handle root (fun acc _ => (acc, true)) visit) events (visits, acc) with
        | .stop result => result
        | .go state => .ok state.2) = .ok (visitAll visit (Forest.found events) acc) := by
  induction events generalizing visits acc with
  | nil => rfl
  | cons event rest ih =>
      cases event with
      | inl node => exact ih visits acc few
      | inr item =>
          have more : visits + 1 + (Forest.found rest).length ≤ self.maxWalkEntries := by
            rw [Forest.found_inr, List.length_cons] at few
            omega
          have within : ¬ self.maxWalkEntries < visits + 1 := by omega
          simp only [feed, handle, Forest.found_inr, visitAll]
          cases enough : (visit acc item.key item.data).2 with
          | false => rfl
          | true => simpa [within, Next.bind] using ih (visits + 1) _ more

/-- Collect every item. -/
def collect (acc : List Located) (key : DiskKey) (data : Bytes) : List Located × Bool :=
  (acc ++ [⟨key, data⟩], true)

/-- A walk that collects every item it meets ends early only past the limit, by induction on what
it meets.
-/
theorem feed_collect (events : List ((TreeBlock × Option DiskKey) ⊕ Located)) (visits : Nat)
    (acc items : List Located) (taken : Nat)
    (fed : feed (self.handle root (fun acc _ => (acc, true)) collect) events (visits, acc)
      = .go (taken, items))
    : items = acc ++ Forest.found events
      ∧ (Forest.found events = [] ∨ visits + (Forest.found events).length ≤ self.maxWalkEntries) := by
  induction events generalizing visits acc with
  | nil =>
      cases fed
      exact ⟨(List.append_nil _).symm, .inl rfl⟩
  | cons event rest ih =>
      cases event with
      | inl node => exact ih visits acc fed
      | inr item =>
          simp only [feed, handle, collect, Bool.not_true, Bool.false_eq_true, if_false] at fed
          split at fed
          next => cases fed
          next within =>
            obtain ⟨same, few⟩ := ih (visits + 1) _ fed
            refine ⟨by simp [same], .inr ?_⟩
            rw [Forest.found_inr, List.length_cons]
            rcases few with none | few
            · rw [none]
              simp only [List.length_nil]
              omega
            · omega

/-- A visit of every item that collects them fails where it does not collect them all. -/
theorem feed_collect_stop (events : List ((TreeBlock × Option DiskKey) ⊕ Located))
    (state : Nat × List Located) (items : List Located)
    : feed (self.handle root (fun acc _ => (acc, true)) collect) events state
      ≠ .stop (.ok items) := by
  induction events generalizing state with
  | nil =>
      intro same
      cases same
  | cons event rest ih =>
      cases event with
      | inl node => exact ih state
      | inr item =>
          simp only [feed, handle, collect, Bool.not_true, Bool.false_eq_true, if_false]
          split
          next =>
            intro same
            cases same
          next => exact ih _

end Visit

section Agreement

variable {self : Volume} {root : TreeRoot}

/-- Every item of a tree, as a walk of all of it collects them. -/
def allItems (self : Volume) (root : TreeRoot) : Except ReadError (List Located) :=
  self.forEachItem root collect []

/-- The tree below a block that a walk of every block has read, and its items. -/
structure ReadTree (volume : Volume) (root : TreeRoot) (items : List Located) where
  block : TreeBlock
  read : volume.readRoot root = .ok block
  sorted : Sorted block none
  tree : Tree DiskKey Nat Located block.header.level
  represents : volume.forest.Represents (· < ·) _ (block, none) tree
  ordered : Ordered (· < ·) Located.key _ tree none
  same : SearchTree.items _ tree = items
  distinct : (root.bytenr :: addresses _ tree).Nodup
  few : items = [] ∨ items.length ≤ volume.maxWalkEntries

/-- Every block of a tree starts a walk from the lowest key at its first entry. -/
theorem startOf_min (n : Nat) (node : TreeBlock × Option DiskKey)
    (sound : self.forest.Sound (· < ·) node)
    : startOf (fun key => decide (key < DiskKey.min)) (fun key => decide (key ≤ DiskKey.min)) n
        (self.forest.keysOf node) = 0 := by
  cases n with
  | zero =>
      have none : (fun key => decide (key < DiskKey.min)) = fun _ => false :=
        funext fun key => decide_eq_false (not_lt_of_ge (DiskKey.min_le key))
      rw [none]
      exact Forest.startOf_never 0 _
  | succ n => exact Nat.sub_eq_zero_of_le (takeWhile_min (List.IsChain.left_of_append sound))

theorem readRoot_sorted {block : TreeBlock} (read : self.readRoot root = .ok block)
    : Sorted block none ∧ block.header.bytenr = root.bytenr := by
  obtain ⟨other, fetched, read⟩ := bind_eq_ok.mp read
  obtain ⟨_, level, read⟩ := bind_eq_ok.mp read
  obtain ⟨_, packed, read⟩ := bind_eq_ok.mp read
  obtain ⟨_, keyed, read⟩ := bind_eq_ok.mp read
  obtain rfl := Except.ok.inj read
  exact ⟨Sorted.of_checkKeys keyed, (readThrough_eq_ok fetched).1⟩

/-- A key cuts the keys in two. -/
theorem cuts (from_ : DiskKey)
    : Cuts (· < ·) (fun key => decide (key < from_)) (fun key => decide (key ≤ from_)) where
  before := fun _ _ before upper => decide_eq_true (lt_of_lt_of_le before (of_decide_eq_true upper))
  weaken := fun _ before => decide_eq_true (le_of_lt (of_decide_eq_true before))

/-- A walk of all of a tree that succeeds has read it. -/
theorem allItems_eq_ok {items : List Located} (walked : self.allItems root = .ok items)
    : Nonempty (ReadTree self root items) := by
  have opened : ∃ block, self.readRoot root = .ok block := by
    obtain ⟨block, read, -⟩ := bind_eq_ok.mp walked
    exact ⟨block, read⟩
  obtain ⟨block, read⟩ := opened
  have sorted := (readRoot_sorted read).1
  have answered := (drive_eq read sorted DiskKey.min collect []).symm.trans walked
  cases fed : feed (self.handle root (fun acc _ => (acc, true)) collect)
      (self.walkBelow DiskKey.min block.header.level (block, none) [root.bytenr]).events (0, []) with
  | stop result =>
      rw [fed] at answered
      exact absurd (fed.trans (congrArg _ answered)) (feed_collect_stop _ _ _)
  | go state =>
      rw [fed] at answered
      obtain ⟨seen, ended, same⟩ : ∃ seen,
          (self.walkBelow DiskKey.min block.header.level (block, none) [root.bytenr]).ending = .ok seen
          ∧ state.2 = items := by
        cases ended : (self.walkBelow DiskKey.min block.header.level (block, none)
            [root.bytenr]).ending with
        | error error =>
            rw [ended] at answered
            cases answered
        | ok seen =>
            rw [ended] at answered
            exact ⟨seen, rfl, Except.ok.inj answered⟩
      obtain ⟨met, few⟩ := feed_collect _ _ _ _ _ fed
      obtain ⟨tree, represents, ordered, -, found, entered, apart⟩ :=
        self.forest_lawful.reads startOf_min _ (block, none) [root.bytenr] seen sorted.chain ended
          (List.nodup_singleton _)
      have all : items = SearchTree.items _ tree := by
        rw [← same, met, List.nil_append, found]
        rfl
      refine ⟨⟨block, read, sorted, tree, represents, ordered, all.symm, ?_, ?_⟩⟩
      · rw [entered] at apart
        have := List.nodup_reverse.mpr apart
        simpa using this
      · rw [all, found]
        rw [Nat.zero_add] at few
        exact few

/-- A walk from a key hands over the items of the tree from that key on. -/
theorem forEachItemFrom_eq {σ : Type} {items : List Located} (tree : ReadTree self root items)
    (from_ : DiskKey) (visit : σ → DiskKey → Bytes → σ × Bool) (acc : σ)
    : self.forEachItemFrom root from_ visit acc
      = .ok (visitAll visit (items.dropWhile fun item => decide (item.key < from_)) acc) := by
  have fresh := (List.nodup_cons.mp tree.distinct)
  obtain ⟨entered, ended, met, -⟩ := tree.represents.walk self.forest_lawful
    (fun key => decide (key < from_)) (fun key => decide (key ≤ from_)) _ _ _ [root.bytenr]
    fresh.2 fun a member held => by
      obtain rfl := List.mem_singleton.mp held
      exact fresh.1 member
  have from_items : Forest.found (self.walkBelow from_ tree.block.header.level (tree.block, none)
      [root.bytenr]).events = items.dropWhile fun item => decide (item.key < from_) := by
    rw [walkBelow, met, tree.ordered.itemsFrom_eq (cuts from_), tree.same]
  have few : 0 + (Forest.found (self.walkBelow from_ tree.block.header.level (tree.block, none)
      [root.bytenr]).events).length ≤ self.maxWalkEntries := by
    rw [from_items, Nat.zero_add]
    rcases tree.few with none | few
    · rw [none]
      exact Nat.zero_le _
    · exact (List.dropWhile_suffix _).length_le.trans few
  have handed := @feed_items _ _ root visit _ 0 acc few
  rw [drive_eq tree.read tree.sorted, ← from_items, ← handed]
  cases feed (self.handle root (fun acc _ => (acc, true)) visit)
      (self.walkBelow from_ tree.block.header.level (tree.block, none) [root.bytenr]).events
      (0, acc) with
  | stop result => rfl
  | go state =>
      rw [show (self.walkBelow from_ tree.block.header.level (tree.block, none)
        [root.bytenr]).ending = _ from ended]
      rfl

/-- A tree's items ascend. -/
theorem ReadTree.increasing {items : List Located} (tree : ReadTree self root items)
    : items.Pairwise fun a b => a.key < b.key := by
  have chain := (tree.ordered.items_chain _ _ _).1
  rw [tree.same, Option.toList_none, List.append_nil] at chain
  exact List.pairwise_map.mp chain.pairwise

/-- Along ascending items what is below a key has everything earlier below it. -/
theorem leading_lt {items : List Located} (increasing : items.Pairwise fun a b => a.key < b.key)
    (key : DiskKey)
    : items.Pairwise fun a b => decide (b.key < key) → decide (a.key < key) :=
  increasing.imp fun before below =>
    decide_eq_true (lt_trans before (of_decide_eq_true below))

/-- Along ascending items what is at or below a key has everything earlier at or below it. -/
theorem leading_le {items : List Located} (increasing : items.Pairwise fun a b => a.key < b.key)
    (key : DiskKey)
    : items.Pairwise fun a b => decide (b.key ≤ key) → decide (a.key ≤ key) :=
  increasing.imp fun before upper =>
    decide_eq_true (le_of_lt (lt_of_lt_of_le before (of_decide_eq_true upper)))

/-- A walk from a key hands over the items at or above it. -/
theorem ReadTree.from_ {σ : Type} {items : List Located} (tree : ReadTree self root items)
    (key : DiskKey) (visit : σ → DiskKey → Bytes → σ × Bool) (acc : σ)
    : self.forEachItemFrom root key visit acc
      = .ok (visitAll visit (items.filter fun item => decide (key ≤ item.key)) acc) := by
  rw [forEachItemFrom_eq tree, dropWhile_eq_filter (leading_lt tree.increasing key)]
  simp only [← decide_not, not_lt]

/-- The first item a search finds is the first at or above its key. -/
theorem ReadTree.first {items : List Located} (tree : ReadTree self root items) (key : DiskKey)
    : self.findFirst root key = .ok (items.find? fun item => decide (key ≤ item.key)) := by
  rw [findFirst, tree.from_, ← List.head?_filter]
  cases items.filter fun item => decide (key ≤ item.key) <;> rfl

/-- The first of ascending items at or above a key is the one under it, if one is. By induction on
the items.
-/
theorem find_exact {items : List Located} (increasing : items.Pairwise fun a b => a.key < b.key)
    (key : DiskKey)
    : (items.find? fun item => decide (key ≤ item.key)).filter (·.key == key)
      = items.find? fun item => decide (item.key = key) := by
  induction items with
  | nil => rfl
  | cons item rest ih =>
      obtain ⟨above, later⟩ := List.pairwise_cons.mp increasing
      rcases lt_trichotomy item.key key with low | same | high
      · simp [not_le_of_gt low, ne_of_lt low, ih later]
      · simp [same]
      · have none : rest.find? (fun item => decide (item.key = key)) = none := by
          rw [List.find?_eq_none]
          intro other member same
          exact absurd (of_decide_eq_true same) (ne_of_gt (lt_trans high (above other member)))
        simp [le_of_lt high, ne_of_gt high, none]

theorem ReadTree.exact_ {items : List Located} (tree : ReadTree self root items) (key : DiskKey)
    : self.findExact root key = .ok (items.find? fun item => decide (item.key = key)) := by
  rw [findExact, tree.first, ok_bind, find_exact tree.increasing]
  rfl

/-- The last of ascending items is the highest. -/
theorem le_of_getLast? {items : List Located}
    (increasing : items.Pairwise fun a b => a.key < b.key) {answer : Located}
    (last : items.getLast? = some answer) : ∀ item ∈ items, item.key ≤ answer.key := by
  obtain ⟨before, rfl⟩ := List.getLast?_eq_some_iff.mp last
  intro item member
  rcases List.mem_append.mp member with earlier | same
  · exact le_of_lt ((List.pairwise_append.mp increasing).2.2 item earlier answer (by simp))
  · rw [List.mem_singleton.mp same]

/-- The step past an answer stops at an item above the key, by induction on the items visited. -/
theorem visitAll_confirm {key answer : DiskKey} (items : List Located)
    (above : ∀ item ∈ items, item.key ≠ answer → ¬ item.key ≤ key)
    : (visitAll (fun (next : Option DiskKey) item _ =>
        if item = answer then (next, true) else (some item, false)) items none).any
          (· ≤ key) = false := by
  induction items with
  | nil => rfl
  | cons item rest ih =>
      by_cases same : item.key = answer
      · simpa [visitAll, same] using ih fun other member => above other (by simp [member])
      · simpa [visitAll, same] using above item List.mem_cons_self same

/-- The item after the last at or below a key is above it. -/
theorem ReadTree.confirms {items : List Located} (tree : ReadTree self root items)
    {key : DiskKey} {answer : Located}
    (last : (items.filter fun item => decide (item.key ≤ key)).getLast? = some answer)
    : self.confirmLast root answer.key key = .ok () := by
  rw [confirmLast, tree.from_, ok_bind, visitAll_confirm]
  · rfl
  · intro item member other upper
    rw [List.mem_filter, decide_eq_true_iff] at member
    have below := le_of_getLast? (tree.increasing.filter _) last item
      (List.mem_filter.mpr ⟨member.1, decide_eq_true upper⟩)
    exact other (le_antisymm below member.2)

end Agreement

section Seek

variable {self : Volume} {root : TreeRoot} {key : DiskKey}

/-- A search for the last item at or before a key is a descent to one leaf, by induction on the
level.
-/
theorem seek_eq (level : Nat) (block : TreeBlock) (below : Option DiskKey) (visited : List Nat)
    (sorted : Sorted block below) (here : block.header.level = level)
    : Loop.total (self.seekStep root key) (fun state => state.block.header.level)
        (self.seekStep_lowers root key) ⟨block, below, visited⟩
      = (self.forest.descend (fun k => decide (k < key)) (fun k => decide (k ≤ key)) level
          (block, below) visited).bind fun leaf => self.lastOfLeaf root key leaf.1 leaf.2 := by
  induction level generalizing block below visited with
  | zero =>
      apply Loop.total_of_stop
      have leaf : block.header.isLeaf = true := by
        rw [Header.isLeaf, here]
        rfl
      simp only [seekStep, leaf, if_true]
      rfl
  | succ level ih =>
      have notLeaf : block.header.isLeaf = false := by
        rw [Header.isLeaf, here]
        rfl
      have start := startIndex_eq sorted key
      rw [here] at start
      have step : self.seekStep root key ⟨block, below, visited⟩
          = orStop do
              let entered ← self.childOf block below
                (startOf (fun k => decide (k < key)) (fun k => decide (k ≤ key)) (level + 1)
                  block.keys) visited
              return .go ⟨entered.1.1, entered.1.2, entered.2⟩ := by
        simp only [seekStep, notLeaf, Bool.false_eq_true, if_false, start, ok_bind]
      rw [Forest.descend]
      change _ = (Except.bind (self.childOf block below (startOf _ _ (level + 1) block.keys) visited) _).bind _
      cases entered : self.childOf block below (startOf (fun k => decide (k < key))
          (fun k => decide (k ≤ key)) (level + 1) block.keys) visited with
      | error error =>
          rw [entered] at step
          exact Loop.total_of_stop _ step
      | ok reached =>
          obtain ⟨⟨child, bound⟩, visited⟩ := reached
          rw [entered] at step
          obtain ⟨above, -, -, pointer, -, -, keyed, -⟩ := childOf_eq_ok entered
          rw [Loop.total_of_go _ step]
          exact ih child bound visited (Sorted.of_checkKeys keyed) (by omega)

/-- A descent reaches a sorted leaf, by induction on the level. -/
theorem descend_sorted (level : Nat) (block : TreeBlock) (below : Option DiskKey)
    (visited : List Nat) (sorted : Sorted block below) {leaf : TreeBlock × Option DiskKey}
    (reached : self.forest.descend (fun k => decide (k < key)) (fun k => decide (k ≤ key)) level
      (block, below) visited = .ok leaf)
    : Sorted leaf.1 leaf.2 := by
  induction level generalizing block below visited with
  | zero =>
      obtain rfl := Except.ok.inj reached
      exact sorted
  | succ level ih =>
      obtain ⟨⟨⟨child, bound⟩, visited⟩, entered, reached⟩ := bind_eq_ok.mp reached
      obtain ⟨-, -, -, pointer, -, -, keyed, -⟩ := childOf_eq_ok entered
      exact ih child bound visited (Sorted.of_checkKeys keyed) reached

end Seek

section Floor

variable {self : Volume} {root : TreeRoot} {key : DiskKey}

/-- A leaf answers with the last of its items at or below the key, where the item after it is
above the key.
-/
theorem lastOfLeaf_eq {block : TreeBlock} {below : Option DiskKey} (sorted : Sorted block below)
    {entries : List Located} (length : entries.length = block.header.nritems)
    (reads : ∀ (index : Nat) (entry : Located), entries[index]? = some entry →
      block.located index = .ok entry)
    (confirms : ∀ answer ∈ (entries.takeWhile fun item => decide (item.key ≤ key)).getLast?,
      self.confirmLast root answer.key key = .ok ())
    : self.lastOfLeaf root key block below
      = .ok (entries.takeWhile fun item => decide (item.key ≤ key)).getLast? := by
  have keys : block.keys = entries.map Located.key := by
    apply List.ext_getElem (by simp [TreeBlock.keys, length])
    intro index inside _
    rw [TreeBlock.keys, List.length_map, List.length_range] at inside
    have read := keyOf_of_located (reads index _ (List.getElem?_eq_getElem (by omega)))
    simp [TreeBlock.keys, ← read]
  have counted : (block.keys.takeWhile fun key_ => decide (key_ ≤ key)).length
      = (entries.takeWhile fun item => decide (item.key ≤ key)).length := by
    rw [keys, List.takeWhile_map, List.length_map]
    rfl
  simp only [lastOfLeaf, partition_eq sorted, if_true, ok_bind, counted]
  cases split : entries.takeWhile fun item => decide (item.key ≤ key) with
  | nil => rfl
  | cons first rest =>
      rw [split] at confirms
      have some : (first :: rest).length ≠ 0 := Nat.succ_ne_zero _
      have at_ : entries[(first :: rest).length - 1]?
          = Option.some ((first :: rest).getLast (List.cons_ne_nil _ _)) := by
        have inside : (first :: rest).length - 1 < (first :: rest).length := by omega
        have leading := List.takeWhile_prefix (fun item => decide (item.key ≤ key)) (l := entries)
        rw [split] at leading
        obtain ⟨tail, joined⟩ := leading
        rw [← joined, List.getElem?_append_left inside, List.getLast_eq_getElem]
        exact List.getElem?_eq_getElem inside
      have confirmed := confirms _ (List.getLast?_eq_some_getLast (List.cons_ne_nil _ _))
      rw [if_neg some, reads _ _ at_, ok_bind, sorted.counted, ok_bind, confirmed,
        List.getLast?_eq_some_getLast (List.cons_ne_nil _ _)]
      split <;> rfl

/-- The last item at or before a key is found by a descent, unless the tree is a node that leads
nowhere.
-/
theorem ReadTree.atOrBefore {items : List Located} (tree : ReadTree self root items)
    (leads : tree.block.header.level ≠ 0 → tree.block.header.nritems ≠ 0) (key : DiskKey)
    : self.findAtOrBefore root key
      = .ok (items.filter fun item => decide (item.key ≤ key)).getLast? := by
  have fresh := List.nodup_cons.mp tree.distinct
  obtain ⟨leaf, entries, reached, ⟨length, reads⟩, chain, found⟩ :=
    tree.represents.descend self.forest_lawful (cuts key) _ _ _ [root.bytenr] tree.ordered fresh.2
      (fun a member held => by
        obtain rfl := List.mem_singleton.mp held
        exact fresh.1 member)
      (fun above => leads (Nat.pos_iff_ne_zero.mp above))
  have sorted := descend_sorted _ _ _ _ tree.sorted reached
  have last : (List.takeWhile (fun item => decide (item.key ≤ key)) entries).getLast?
      = (items.filter fun item => decide (item.key ≤ key)).getLast? := by
    rw [← takeWhile_eq_filter (leading_le tree.increasing key), ← tree.same,
      ← tree.ordered.floor_eq (cuts key), found]
    rfl
  have answered : self.lastOfLeaf root key leaf.1 leaf.2 = _ := lastOfLeaf_eq sorted length reads
    fun answer isLast => tree.confirms (last.symm.trans isLast)
  rw [findAtOrBefore, tree.read, ok_bind, seek_eq _ _ _ _ tree.sorted rfl, reached]
  exact answered.trans (congrArg _ last)

end Floor

end Ferrosys.Btrfs.Volume
