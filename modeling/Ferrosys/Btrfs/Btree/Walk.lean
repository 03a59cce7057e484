import Ferrosys.Btrfs.Btree
import Ferrosys.Library.TreeWalk

/-! A walk with a stack is a walk by the levels of the tree: it meets the same blocks and items in
the same order and ends the same way.
-/

namespace Ferrosys.Btrfs.Volume

open Checked Loop SearchTree TreeWalk

/-- Blocks as the nodes of a tree to be read, each with the bound its keys sit below. -/
def forest (self : Volume) : Forest (TreeBlock × Option DiskKey) Located Nat ReadError DiskKey where
  count node := node.1.header.nritems
  keyAt node := node.1.keyOf
  bound node := node.2
  item node := node.1.located
  child node := self.childOf node.1 node.2

/-- A block whose keys were held to each other and to what bounds them. -/
structure Sorted (block : TreeBlock) (below : Option DiskKey) : Prop where
  counted : block.count = .ok block.header.nritems
  reads : ∀ index < block.header.nritems, block.keyAt index = .ok (block.keyOf index)
  chain : (block.keys ++ below.toList).IsChain (· < ·)

theorem Sorted.of_checkKeys {block : TreeBlock} {first below : Option DiskKey} {u : Unit}
    (checked : block.checkKeys first below = .ok u) : Sorted block below := by
  obtain ⟨counted, reads, chain, -⟩ := TreeBlock.checkKeys_eq_ok checked
  exact ⟨counted, reads, chain⟩

theorem keyOf_of_keyPtr {block : TreeBlock} {index : Nat} {pointer : KeyPtr}
    (read : block.keyPtr index = .ok pointer) : block.keyOf index = pointer.key := by
  apply TreeBlock.keyOf_eq
  obtain ⟨_, node, -⟩ := bind_eq_ok.mp read
  rw [refuseIf_eq_ok] at node
  rw [TreeBlock.keyAt, if_neg (by simp [node]), read]
  rfl

theorem keyOf_of_located {block : TreeBlock} {index : Nat} {located : Located}
    (read : block.located index = .ok located) : located.key = block.keyOf index := by
  obtain ⟨item, found, read⟩ := bind_eq_ok.mp read
  obtain ⟨data, -, read⟩ := bind_eq_ok.mp read
  obtain rfl := Except.ok.inj read
  obtain ⟨_, leaf, -⟩ := bind_eq_ok.mp found
  symm
  apply TreeBlock.keyOf_eq
  rw [TreeBlock.keyAt, if_pos (by simpa using leaf), found]
  rfl

/-- A child enters a tree in its place: below a fresh address, its keys in order from its parent's
key for it to below its parent's next.
-/
theorem forest_lawful (self : Volume) : self.forest.Lawful (· < ·) Located.key where
  child := by
    rintro ⟨parent, below⟩ index seen ⟨child, bound⟩ entered inside read
    obtain ⟨-, rfl, fresh, pointer, pointed, bounded, keyed, again⟩ := childOf_eq_ok read
    obtain ⟨-, -, chain, first⟩ := TreeBlock.checkKeys_eq_ok keyed
    refine ⟨child.header.bytenr, fresh, rfl, again, chain, ?_, ?_⟩
    · exact (first _ rfl).trans (congrArg some (keyOf_of_keyPtr pointed).symm)
    · obtain ⟨count, counted, bounded⟩ := bind_eq_ok.mp bounded
      obtain rfl := TreeBlock.count_eq_ok counted
      change bound = if index + 1 < parent.header.nritems then some (parent.keyOf (index + 1))
        else below
      split at bounded
      next more =>
        obtain ⟨next, after, bounded⟩ := bind_eq_ok.mp bounded
        obtain rfl := Except.ok.inj bounded
        rw [if_pos more, keyOf_of_keyPtr after]
      next =>
        obtain rfl := Except.ok.inj bounded
        rw [if_neg ‹_›]
  item := fun _ _ _ _ read => keyOf_of_located read

/-- A search by halves over sorted keys counts the leading ones. -/
theorem partition_eq {block : TreeBlock} {below : Option DiskKey} (sorted : Sorted block below)
    (from_ : DiskKey) (inclusive : Bool)
    : partition block from_ inclusive
      = .ok (block.keys.takeWhile fun key =>
          if inclusive then decide (key ≤ from_) else decide (key < from_)).length := by
  have chain := (List.IsChain.left_of_append sorted.chain).pairwise
  have length : block.keys.length = block.header.nritems := by
    rw [TreeBlock.keys, List.length_map, List.length_range]
  rw [partition, sorted.counted, ok_bind, ← length]
  apply Bisect.bisect_takeWhile
  · intro index inside
    rw [sorted.reads index (by omega)]
    simp [TreeBlock.keys, bind, Except.bind, pure, Except.pure]
  · refine chain.imp fun {a b} before => ?_
    cases inclusive with
    | true => simpa using fun upper => le_trans (le_of_lt before) upper
    | false => simpa using fun upper => lt_trans before upper

/-- No more than one key of a sorted block is the lowest. -/
theorem takeWhile_min {keys : List DiskKey} (chain : keys.IsChain (· < ·))
    : (keys.takeWhile fun key => decide (key ≤ DiskKey.min)).length ≤ 1 := by
  cases keys with
  | nil => exact Nat.zero_le _
  | cons first rest =>
      cases rest with
      | nil => exact (List.takeWhile_prefix _).length_le
      | cons second rest =>
          have : ¬ second ≤ DiskKey.min := fun low =>
            absurd (lt_of_lt_of_le (List.isChain_cons_cons.mp chain).1 low)
              (not_lt_of_ge (DiskKey.min_le first))
          cases decide (first ≤ DiskKey.min) <;> simp [List.takeWhile_cons, this] <;> split <;> simp

/-- A walk starts each block where a search of its keys does; from the lowest key that is at its
first entry.
-/
theorem startIndex_eq {block : TreeBlock} {below : Option DiskKey} (sorted : Sorted block below)
    (from_ : DiskKey)
    : startIndex block from_
      = .ok (startOf (fun key => decide (key < from_)) (fun key => decide (key ≤ from_))
          block.header.level block.keys) := by
  have chain := List.IsChain.left_of_append sorted.chain
  unfold startIndex
  split
  next lowest =>
    subst lowest
    cases block.header.level with
    | zero =>
        have none : (fun key => decide (key < DiskKey.min)) = fun _ => false :=
          funext fun key => decide_eq_false (not_lt_of_ge (DiskKey.min_le key))
        rw [none]
        exact congrArg _ (Forest.startOf_never 0 block.keys).symm
    | succ level =>
        have := takeWhile_min chain
        rw [startOf, Nat.sub_eq_zero_of_le this]
  next =>
    cases leaf : block.header.isLeaf with
    | true =>
        have bottom : block.header.level = 0 := by simpa [Header.isLeaf, leafLevel] using leaf
        dsimp only
        rw [partition_eq sorted, ok_bind, bottom]
        rfl
    | false =>
        have above : block.header.level ≠ 0 := by simpa [Header.isLeaf, leafLevel] using leaf
        obtain ⟨level, same⟩ := Nat.exists_eq_succ_of_ne_zero above
        dsimp only
        rw [partition_eq sorted, ok_bind, same]
        rfl

section Walk

variable {σ : Type} {self : Volume} {root : TreeRoot} {from_ : DiskKey}
  {onBlock : σ → TreeBlock → σ × Bool} {onItem : σ → DiskKey → Bytes → σ × Bool}

/-- What the visitors make of one event of a walk. -/
def handle (self : Volume) (root : TreeRoot) (onBlock : σ → TreeBlock → σ × Bool)
    (onItem : σ → DiskKey → Bytes → σ × Bool) (state : Nat × σ)
    : ((TreeBlock × Option DiskKey) ⊕ Located) → Next (Nat × σ) (Except ReadError σ)
  | .inl node =>
      let taken := onBlock state.2 node.1
      if !taken.2 then .stop (.ok taken.1) else .go (state.1, taken.1)
  | .inr located =>
      let taken := onItem state.2 located.key located.data
      if !taken.2 then .stop (.ok taken.1)
      else if self.maxWalkEntries < state.1 + 1 then
        .stop (.error (.tooManyEntries root.objectid self.maxWalkEntries))
      else .go (state.1 + 1, taken.1)

/-- The walk of a block by the levels below it. -/
def walkBelow (self : Volume) (from_ : DiskKey) (level : Nat)
    : (TreeBlock × Option DiskKey) → List Nat
      → Trace ReadError ((TreeBlock × Option DiskKey) ⊕ Located) (List Nat) :=
  self.forest.walk (fun key => decide (key < from_)) (fun key => decide (key ≤ from_)) level

/-- The state a walk with a stack is in once the entries of its top block are done with. -/
def leave (rest : List Frame) (reached : List Nat × Nat × σ) : DriveState σ :=
  ⟨rest, reached.1, reached.2.1, reached.2.2⟩

/-- A block that is done with is left in one turn. -/
theorem drive_done {block : TreeBlock} {below : Option DiskKey} (sorted : Sorted block below)
    {index : Nat} (done : block.header.nritems ≤ index) (rest : List Frame)
    (reached : List Nat × Nat × σ)
    : Leads (self.driveStep root from_ onBlock onItem)
        (leave (⟨block, index, below⟩ :: rest) reached) (.go (leave rest reached)) := by
  have step : self.driveStep root from_ onBlock onItem
      (leave (⟨block, index, below⟩ :: rest) reached) = .go (leave rest reached) := by
    simp only [driveStep, leave, sorted.counted, ok_bind, if_pos done]
    rfl
  exact step ▸ Leads.turn _

/-- One turn takes an item as a walk by levels meets it. -/
theorem drive_item {block : TreeBlock} {below : Option DiskKey} (sorted : Sorted block below)
    (leaf : block.header.level = 0) {index : Nat} (more : index < block.header.nritems)
    (rest : List Frame) (seen : List Nat) (state : Nat × σ)
    : Leads (self.driveStep root from_ onBlock onItem)
        (leave (⟨block, index, below⟩ :: rest) (seen, state))
        (((self.forest.visitItem (block, below) index seen).replay .error
          (self.handle root onBlock onItem) state).bind fun reached =>
            .go (leave (⟨block, index + 1, below⟩ :: rest) reached)) := by
  have step : self.driveStep root from_ onBlock onItem
      (leave (⟨block, index, below⟩ :: rest) (seen, state))
      = ((self.forest.visitItem (block, below) index seen).replay .error
          (self.handle root onBlock onItem) state).bind fun reached =>
            .go (leave (⟨block, index + 1, below⟩ :: rest) reached) := by
    have isLeaf : block.header.isLeaf = true := by
      rw [Header.isLeaf, leaf]
      rfl
    simp only [driveStep, leave, sorted.counted, ok_bind, if_neg (Nat.not_le.mpr more), isLeaf,
      if_true, takeItem, Forest.visitItem, Trace.replay_bind, Trace.replay_emit, forest]
    cases block.located index with
    | error error => rfl
    | ok located =>
        simp only [ok_bind, Trace.replay, Trace.lift, feed, Next.bind, handle]
        by_cases enough : (onItem state.2 located.key located.data).2 = false
        · simp [enough, orStop, pure, Except.pure]
        · by_cases crowded : self.maxWalkEntries < state.1 + 1
          · simp [enough, refuseIf, crowded, orStop, bind, Except.bind]
          · simp [enough, refuseIf, crowded, orStop, bind, Except.bind, pure, Except.pure]
  exact step ▸ Leads.turn _

/-- The entries of a leaf are taken as a walk by levels meets them, by induction on how many are
left.
-/
theorem drive_items {block : TreeBlock} {below : Option DiskKey} (sorted : Sorted block below)
    (leaf : block.header.level = 0) (rest : List Frame) (remaining index : Nat)
    (left : block.header.nritems - index = remaining) (seen : List Nat) (state : Nat × σ)
    : Leads (self.driveStep root from_ onBlock onItem)
        (leave (⟨block, index, below⟩ :: rest) (seen, state))
        (((entries (self.forest.visitItem (block, below)) remaining index seen).replay .error
          (self.handle root onBlock onItem) state).bind fun reached =>
            .go (leave rest reached)) := by
  induction remaining generalizing index seen state with
  | zero => exact drive_done sorted (Nat.sub_eq_zero_iff_le.mp left) rest _
  | succ remaining ih =>
      rw [entries, Trace.replay_bind, Next.bind_assoc]
      apply Leads.bind (drive_item sorted leaf (by omega) rest seen state)
      intro reached
      exact ih (index + 1) (by omega) reached.1 reached.2

/-- What a walk with a stack does with a child it has just entered, where what is below it is
walked as a walk by levels walks it.
-/
def WalksBelow (self : Volume) (root : TreeRoot) (from_ : DiskKey)
    (onBlock : σ → TreeBlock → σ × Bool) (onItem : σ → DiskKey → Bytes → σ × Bool)
    (level : Nat) : Prop :=
  ∀ block below, Sorted block below → block.header.level = level →
    ∀ rest seen state,
      Leads (self.driveStep root from_ onBlock onItem)
        (leave (⟨block, startOf (fun key => decide (key < from_)) (fun key => decide (key ≤ from_))
          level block.keys, below⟩ :: rest) (seen, state))
        (((self.walkBelow from_ level (block, below) seen).replay .error
          (self.handle root onBlock onItem) state).bind fun reached => .go (leave rest reached))

/-- A child is entered, and what is below it walked, as a walk by levels does. -/
theorem drive_child {level : Nat} (walks : self.WalksBelow root from_ onBlock onItem level)
    {block : TreeBlock} {below : Option DiskKey} (sorted : Sorted block below)
    (node : block.header.level = level + 1) {index : Nat} (more : index < block.header.nritems)
    (rest : List Frame) (seen : List Nat) (state : Nat × σ)
    : Leads (self.driveStep root from_ onBlock onItem)
        (leave (⟨block, index, below⟩ :: rest) (seen, state))
        (((self.forest.visitChild (self.walkBelow from_ level) (block, below) index seen).replay
          .error (self.handle root onBlock onItem) state).bind fun reached =>
            .go (leave (⟨block, index + 1, below⟩ :: rest) reached)) := by
  have notLeaf : block.header.isLeaf = false := by
    rw [Header.isLeaf, node]
    rfl
  have turn : Leads (self.driveStep root from_ onBlock onItem) _ _ := Leads.turn
    (leave (⟨block, index, below⟩ :: rest) (seen, state))
  simp only [driveStep, leave, sorted.counted, ok_bind, notLeaf, if_neg (Nat.not_le.mpr more),
    Bool.false_eq_true, if_false, enterChild] at turn
  simp only [Forest.visitChild, forest, leave, Trace.replay_bind]
  cases entered : self.childOf block below index seen with
  | error error =>
      rw [entered] at turn
      exact turn
  | ok reached =>
      obtain ⟨⟨child, bound⟩, visited⟩ := reached
      obtain ⟨above, -, -, pointer, -, -, keyed, -⟩ := childOf_eq_ok entered
      have inner := Sorted.of_checkKeys keyed
      have here : child.header.level = level := by omega
      rw [entered] at turn
      simp only [ok_bind, startIndex_eq inner, here] at turn
      simp only [Trace.replay_lift_ok, Trace.replay_emit, Next.bind, handle]
      by_cases enough : (onBlock state.2 child).2 = false
      · simpa [enough, orStop, pure, Except.pure] using turn
      · have went := walks child bound inner here (⟨block, index + 1, below⟩ :: rest) visited
          (state.1, (onBlock state.2 child).1)
        simp only [enough] at turn ⊢
        exact Leads.trans turn went

/-- The entries of a node are entered as a walk by levels enters them, by induction on how many
are left.
-/
theorem drive_children {level : Nat} (walks : self.WalksBelow root from_ onBlock onItem level)
    {block : TreeBlock} {below : Option DiskKey} (sorted : Sorted block below)
    (node : block.header.level = level + 1) (rest : List Frame) (remaining index : Nat)
    (left : block.header.nritems - index = remaining) (seen : List Nat) (state : Nat × σ)
    : Leads (self.driveStep root from_ onBlock onItem)
        (leave (⟨block, index, below⟩ :: rest) (seen, state))
        (((entries (self.forest.visitChild (self.walkBelow from_ level) (block, below)) remaining
          index seen).replay .error (self.handle root onBlock onItem) state).bind fun reached =>
            .go (leave rest reached)) := by
  induction remaining generalizing index seen state with
  | zero => exact drive_done sorted (Nat.sub_eq_zero_iff_le.mp left) rest _
  | succ remaining ih =>
      rw [entries, Trace.replay_bind, Next.bind_assoc]
      apply Leads.bind (drive_child walks sorted node (by omega) rest seen state)
      intro reached
      exact ih (index + 1) (by omega) reached.1 reached.2

/-- A walk with a stack is a walk by levels, by induction on the level. -/
theorem walksBelow (level : Nat) : self.WalksBelow root from_ onBlock onItem level := by
  induction level with
  | zero =>
      intro block below sorted leaf rest seen state
      exact drive_items sorted leaf rest _ _ rfl seen state
  | succ level ih =>
      intro block below sorted node rest seen state
      exact drive_children ih sorted node rest _ _ rfl seen state

/-- What a walk with a stack answers, read off a walk by levels of the same tree. -/
theorem drive_eq {block : TreeBlock} (read : self.readRoot root = .ok block)
    (sorted : Sorted block none) (from_ : DiskKey) (onItem : σ → DiskKey → Bytes → σ × Bool)
    (acc : σ)
    : self.forEachItemFrom root from_ onItem acc
      = match feed (self.handle root (fun acc _ => (acc, true)) onItem)
          (self.walkBelow from_ block.header.level (block, none) [root.bytenr]).events (0, acc) with
        | .stop result => result
        | .go state =>
            (self.walkBelow from_ block.header.level (block, none) [root.bytenr]).ending.map
              fun _ => state.2 := by
  have start : self.forEachItemFrom root from_ onItem acc
      = Loop.total (self.driveStep root from_ (fun acc _ => (acc, true)) onItem) DriveState.turns
          (self.driveStep_lowers root from_ _ onItem)
          (leave [⟨block, startOf (fun key => decide (key < from_)) (fun key => decide (key ≤ from_))
            block.header.level block.keys, none⟩] ([root.bytenr], (0, acc))) := by
    rw [forEachItemFrom, drive, read, ok_bind]
    simp only [Bool.not_true, Bool.false_eq_true, if_false, startIndex_eq sorted, ok_bind, leave]
  have leads := @walksBelow σ self root from_ (fun acc _ => (acc, true)) onItem block.header.level
    block none sorted rfl [] [root.bytenr] (0, acc)
  rw [start]
  apply Loop.total_of_leads
  simp only [Trace.replay] at leads
  cases fed : feed (self.handle root (fun acc _ => (acc, true)) onItem)
      (self.walkBelow from_ block.header.level (block, none) [root.bytenr]).events (0, acc) with
  | stop result =>
      rw [fed] at leads
      exact leads
  | go state =>
      rw [fed] at leads
      cases ended : (self.walkBelow from_ block.header.level (block, none) [root.bytenr]).ending with
      | error error =>
          rw [ended] at leads
          exact leads
      | ok seen =>
          rw [ended] at leads
          exact Leads.trans leads (Leads.turn _)

end Walk

end Ferrosys.Btrfs.Volume
