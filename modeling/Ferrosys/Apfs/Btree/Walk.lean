import Ferrosys.Apfs.Btree
import Ferrosys.Library.TreeWalk

/-! A walk with a stack is a walk by the levels of the tree: it meets the same nodes and records in
the same order and ends the same way.
-/

namespace Ferrosys.Apfs

open Checked Loop SearchTree TreeWalk

/-- The key of entry `index`, where it reads. -/
def Node.keyOf (self : Node) (index : Nat) : Bytes :=
  match self.entry index with
  | .ok entry => entry.1
  | .error _ => []

/-- The keys of a node. -/
def Node.keys (self : Node) : List Bytes := (List.range self.len).map self.keyOf

theorem Node.keyOf_of_entryAt {node : Node} {block index : Nat} {entry : Bytes × Option Bytes}
    (read : node.entryAt block index = .ok entry) : node.keyOf index = entry.1 := by
  rw [keyOf, mapError_eq_ok.mp read]

/-- A node whose every entry reads and whose keys may each stand before the next, the last before
what bounds them. A lone key is one of the tree's too.
-/
structure Sorted (order : Order) (node : Node) (bound : Option Bytes) : Prop where
  reads : ∀ block index, index < node.len →
    ∃ value, node.entryAt block index = .ok (node.keyOf index, value)
  chain : (node.keys ++ bound.toList).IsChain order.Before
  lone : node.len = 1 → ∀ key ∈ node.keys, order.Reads key

theorem compare_of_inOrder {order : Order} {a b : Bytes} {block : Nat} {ordered : Bool}
    (read : inOrder order a b block = .ok ordered)
    : ∃ found, order.compare a b = .ok found ∧ mayPrecede found = ordered := by
  have compared := mapError_eq_ok.mp read
  cases read : order.compare a b with
  | error error =>
      rw [read] at compared
      cases compared
  | ok found =>
      rw [read] at compared
      exact ⟨found, rfl, Except.ok.inj compared⟩

theorem before_of_inOrder {order : Order} {a b : Bytes} {block : Nat}
    (ordered : inOrder order a b block = .ok true) : order.Before a b :=
  compare_of_inOrder ordered

/-- What one turn of the check of a node's keys found. -/
theorem checkEntry_eq_ok {node : Node} {block : Nat} {order : Order} {previous next : Option Bytes}
    {i : Nat} (checked : checkEntry node block order previous i = .ok next)
    : (∃ value, node.entry i = .ok (node.keyOf i, value)) ∧ next = some (node.keyOf i)
      ∧ (node.len = 1 → order.Reads (node.keyOf i))
      ∧ ∀ key ∈ previous, order.Before key (node.keyOf i) := by
  obtain ⟨⟨key, value⟩, read, checked⟩ := bind_eq_ok.mp checked
  obtain ⟨_, -, checked⟩ := bind_eq_ok.mp checked
  obtain ⟨_, after, checked⟩ := bind_eq_ok.mp checked
  have same := Node.keyOf_of_entryAt read
  have answered : next = some key ∧ (node.len = 1 → order.Reads key) := by
    split at checked
    next =>
      obtain ⟨ordered, compared, checked⟩ := bind_eq_ok.mp checked
      refine ⟨(Except.ok.inj checked).symm, fun _ => ?_⟩
      obtain ⟨found, compared, -⟩ := compare_of_inOrder compared
      exact (Order.reads_of_compare compared).1
    next more => exact ⟨(Except.ok.inj checked).symm, fun lone => absurd lone more⟩
  refine ⟨⟨value, by rw [same]; exact mapError_eq_ok.mp read⟩, by rw [answered.1, same],
    by rw [same]; exact answered.2, ?_⟩
  rintro last ⟨⟩
  obtain ⟨ordered, compared, after⟩ := bind_eq_ok.mp after
  rw [refuseIf_eq_ok] at after
  obtain rfl : ordered = true := by simpa using after
  rw [same]
  exact before_of_inOrder compared

/-- The keys of a node that was held to its place stand in order, by induction on them. -/
theorem keys_of_checkNode {node : Node} {block : Nat} {order : Order} {isRoot : Bool}
    {unused : Unused} (checked : checkNode node block order isRoot = .ok unused)
    : (∀ index < node.len, ∃ value, node.entry index = .ok (node.keyOf index, value))
      ∧ node.keys.IsChain order.Before ∧ (node.len = 1 → ∀ key ∈ node.keys, order.Reads key) := by
  obtain ⟨_, -, checked⟩ := bind_eq_ok.mp checked
  obtain ⟨_, -, checked⟩ := bind_eq_ok.mp checked
  obtain ⟨_, -, checked⟩ := bind_eq_ok.mp checked
  obtain ⟨_, -, checked⟩ := bind_eq_ok.mp checked
  obtain ⟨_, -, checked⟩ := bind_eq_ok.mp checked
  obtain ⟨_, -, checked⟩ := bind_eq_ok.mp checked
  obtain ⟨last, ran, -⟩ := bind_eq_ok.mp checked
  let seen (count : Nat) : List Bytes := (List.range count).map node.keyOf
  let inv (count : Nat) (previous : Option Bytes) : Prop :=
    (∀ index < count, ∃ value, node.entry index = .ok (node.keyOf index, value))
    ∧ (seen count).IsChain order.Before ∧ (node.len = 1 → ∀ key ∈ seen count, order.Reads key)
    ∧ previous = (seen count).getLast?
  have kept : inv node.len last := by
    refine foldlM_range_invariant ?_ ⟨nofun, List.isChain_nil, fun _ => nofun, rfl⟩ ran
    rintro i - previous next ⟨reads, chain, parse, rfl⟩ step
    obtain ⟨read, rfl, lone, after⟩ := checkEntry_eq_ok step
    have grown : seen (i + 1) = seen i ++ [node.keyOf i] := by
      simp only [seen, List.range_succ, List.map_append, List.map_cons, List.map_nil]
    refine ⟨fun index below => ?_, ?_, fun one key member => ?_, ?_⟩
    · rcases Nat.lt_succ_iff_lt_or_eq.mp below with earlier | rfl
      · exact reads index earlier
      · exact read
    · rw [grown]
      apply List.IsChain.append chain (List.isChain_singleton _)
      rintro top isTop _ ⟨⟩
      exact after top isTop
    · rw [grown] at member
      rcases List.mem_append.mp member with earlier | last
      · exact parse one key earlier
      · exact List.mem_singleton.mp last ▸ lone one
    · rw [grown, List.getLast?_concat]
  exact ⟨kept.1, kept.2.1, kept.2.2.1⟩

/-- A node that was held to its place, and its last key to what bounds it, is sorted. -/
theorem Sorted.of_checkNode {node : Node} {block : Nat} {order : Order} {isRoot : Bool}
    {unused : Unused} {bound : Option Bytes}
    (checked : checkNode node block order isRoot = .ok unused)
    (within : checkBound node block order bound = .ok ()) (holds : 0 < node.len ∨ bound = none)
    : Sorted order node bound := by
  obtain ⟨reads, chain, lone⟩ := keys_of_checkNode checked
  refine ⟨fun other index counted => ?_, ?_, lone⟩
  · obtain ⟨value, read⟩ := reads index counted
    exact ⟨value, by rw [Node.entryAt, read]; rfl⟩
  · cases bound with
    | none => simpa using chain
    | some bound =>
        have more : 0 < node.len := holds.resolve_right nofun
        obtain ⟨⟨key, value⟩, last, within⟩ := bind_eq_ok.mp within
        obtain ⟨ordered, compared, within⟩ := bind_eq_ok.mp within
        rw [refuseIf_eq_ok] at within
        obtain ⟨rfl, -⟩ : ordered = true ∧ (key == bound) = false := by simpa using within
        apply List.IsChain.append chain (List.isChain_singleton _)
        rintro top isTop _ ⟨⟩
        obtain ⟨count, counted⟩ := Nat.exists_eq_succ_of_ne_zero (Nat.pos_iff_ne_zero.mp more)
        have isTop : some (node.keyOf (node.len - 1)) = some top := by
          rw [← isTop, Node.keys, counted, List.range_succ, List.map_append, List.map_cons,
            List.map_nil, List.getLast?_concat]
          rfl
        obtain rfl := Option.some.inj isTop
        rw [Node.keyOf_of_entryAt last]
        exact before_of_inOrder compared

/-- Two keys or more of which each may stand before the next all read. -/
theorem reads_of_chain {order : Order} {keys : List Bytes} (chain : keys.IsChain order.Before)
    (more : keys.length ≠ 1) : ∀ key ∈ keys, order.Reads key := by
  cases keys with
  | nil => nofun
  | cons first rest =>
      cases rest with
      | nil => exact absurd rfl more
      | cons second rest =>
          obtain ⟨compared, read, -⟩ := (List.isChain_cons_cons.mp chain).1
          have later : ∀ key ∈ second :: rest, order.Reads key := by
            let second_ : Bytes → Bytes → Prop := fun _ key => order.Reads key
            have : Trans second_ second_ second_ := ⟨fun _ read => read⟩
            have read : (first :: second :: rest).IsChain second_ :=
              List.IsChain.imp (fun _ _ before =>
                (Order.reads_of_compare before.choose_spec.1).2) chain
            exact (List.pairwise_cons.mp read.pairwise).1
          intro key member
          rcases List.mem_cons.mp member with rfl | member
          · exact (Order.reads_of_compare read).1
          · exact later key member

/-- Every key of a sorted node reads. -/
theorem Sorted.keysRead {order : Order} {node : Node} {bound : Option Bytes}
    (sorted : Sorted order node bound) : ∀ key ∈ node.keys, order.Reads key := by
  by_cases lone : node.len = 1
  · exact sorted.lone lone
  · apply reads_of_chain (List.IsChain.left_of_append sorted.chain)
    rwa [Node.keys, List.length_map, List.length_range]

namespace Reading

/-- Nodes as those of a tree to be read, each with the bound its keys sit below. -/
def forest (self : Reading) : Forest Frame Located Nat ReadError Bytes where
  count frame := frame.node.len
  keyAt frame := frame.node.keyOf
  bound frame := frame.bound
  item := Frame.located
  child := self.descend

/-- A node other than the root holds something. -/
theorem checkNode_pos {node : Node} {block : Nat} {order : Order} {unused : Unused}
    (checked : checkNode node block order false = .ok unused) : 0 < node.len := by
  obtain ⟨_, -, checked⟩ := bind_eq_ok.mp checked
  obtain ⟨_, -, checked⟩ := bind_eq_ok.mp checked
  obtain ⟨_, -, checked⟩ := bind_eq_ok.mp checked
  obtain ⟨_, some, -⟩ := bind_eq_ok.mp checked
  rw [refuseIf_eq_ok] at some
  apply Nat.pos_of_ne_zero
  intro empty
  simp [Node.isEmpty, show node.header.keyCount = 0 from empty] at some

theorem Child.sorted {self : Reading} {parent child : Frame} {index : Nat}
    (below : Child self parent index child) : Sorted self.tree.order child.node child.bound :=
  .of_checkNode below.checked below.within (.inl (checkNode_pos below.checked))

theorem keyOf_of_located {frame : Frame} {index : Nat} {located : Located}
    (read : frame.located index = .ok located) : located.key = frame.node.keyOf index := by
  obtain ⟨entry, found, read⟩ := bind_eq_ok.mp read
  obtain rfl := Except.ok.inj read
  exact (Node.keyOf_of_entryAt found).symm

/-- A child enters a tree in its place: in a block not seen before, its keys in order from its
parent's key for it to before its parent's next.
-/
theorem forest_lawful (self : Reading) : self.forest.Lawful self.tree.order.Before Located.key where
  child := by
    intro parent index seen child entered inside read
    obtain ⟨fresh, rfl, below⟩ := descend_eq_ok read
    refine ⟨child.block, fresh, rfl, below.again, below.sorted.chain, ?_, ?_⟩
    · obtain ⟨separator, first, pointed, front, same⟩ := below.first
      obtain ⟨count, counted⟩ := Nat.exists_eq_succ_of_ne_zero
        (Nat.pos_iff_ne_zero.mp (checkNode_pos below.checked))
      change (child.node.keys).head? = some (parent.node.keyOf index)
      rw [Node.keys, counted, List.range_succ_eq_map, List.map_cons, List.head?_cons,
        Node.keyOf_of_entryAt front, Node.keyOf_of_entryAt pointed, same]
    · have bounded := below.bound
      change child.bound = if index + 1 < parent.node.len then some (parent.node.keyOf (index + 1))
        else parent.bound
      unfold Frame.childBound at bounded
      split at bounded
      next more =>
        obtain ⟨next, after, bounded⟩ := bind_eq_ok.mp bounded
        rw [← Except.ok.inj bounded, if_pos more, Node.keyOf_of_entryAt after]
      next last => rw [← Except.ok.inj bounded, if_neg last]
  item := fun _ _ _ _ read => keyOf_of_located read

/-- A target that answers for each of these keys, as `lt` and `le` read it. -/
def Answers (target : Target) (lt le : Bytes → Bool) (keys : List Bytes) : Prop :=
  ∀ key ∈ keys, ∃ found, target key = .ok found ∧ lt key = (found == .lt)
    ∧ le key = (found != .gt)

/-- A search by halves over sorted keys counts the leading ones that are not past. -/
theorem firstWhere_eq {order : Order} {node : Node} {bound : Option Bytes}
    (sorted : Sorted order node bound) (block : Nat) {past : Bytes → Except ParseError Bool}
    {before : Bytes → Bool} (answers : ∀ key ∈ node.keys, past key = .ok (!before key))
    (leading : node.keys.Pairwise fun a b => before b → before a)
    : firstWhere node block past = .ok (node.keys.takeWhile before).length := by
  have length : node.keys.length = node.len := by
    rw [Node.keys, List.length_map, List.length_range]
  rw [firstWhere, ← length]
  apply Bisect.bisect_takeWhile _ leading
  intro index inside
  obtain ⟨value, read⟩ := sorted.reads block index (length ▸ inside)
  have at_ : node.keys[index] = node.keyOf index := by simp [Node.keys]
  rw [read, ok_bind, ← at_, answers _ (List.getElem_mem inside)]
  simp [Except.mapError, bind, Except.bind, pure, Except.pure]

/-- A target along keys in order: what it says of a key it says of every earlier one. -/
structure Leading (lt le : Bytes → Bool) (keys : List Bytes) : Prop where
  lt : keys.Pairwise fun a b => lt b → lt a
  le : keys.Pairwise fun a b => le b → le a

/-- The first entry of a leaf a walk takes is where a search of its keys ends. -/
theorem firstNotBefore_eq {order : Order} {node : Node} {bound : Option Bytes}
    (sorted : Sorted order node bound) (block : Nat) {target : Target} {lt le : Bytes → Bool}
    (answers : Answers target lt le node.keys) (leading : Leading lt le node.keys)
    : firstNotBefore node block target = .ok (startOf lt le 0 node.keys) := by
  apply firstWhere_eq sorted block _ leading.lt
  intro key member
  obtain ⟨found, answered, below, -⟩ := answers key member
  rw [answered, ok_bind, below]
  rfl

/-- The last entry not after a target is where a search of the keys ends. -/
theorem lastNotAfter_eq {order : Order} {node : Node} {bound : Option Bytes}
    (sorted : Sorted order node bound) (block : Nat) {target : Target} {lt le : Bytes → Bool}
    (answers : Answers target lt le node.keys) (leading : Leading lt le node.keys)
    : lastNotAfter node block target
      = .ok (if (node.keys.takeWhile le).length = 0 then none
          else some ((node.keys.takeWhile le).length - 1)) := by
  have counted : firstWhere node block (fun key => do return (← target key) == .gt)
      = .ok (node.keys.takeWhile le).length := by
    apply firstWhere_eq sorted block _ leading.le
    intro key member
    obtain ⟨found, answered, -, upper⟩ := answers key member
    rw [answered, ok_bind, upper]
    cases found <;> rfl
  rw [lastNotAfter, counted, ok_bind]
  rfl

/-- The child of an index node a search enters is the one a search by levels does. -/
theorem childFor_eq {order : Order} {node : Node} {bound : Option Bytes}
    (sorted : Sorted order node bound) (block : Nat) {target : Target} {lt le : Bytes → Bool}
    (answers : Answers target lt le node.keys) (leading : Leading lt le node.keys) (level : Nat)
    : childFor node block target = .ok (startOf lt le (level + 1) node.keys) := by
  rw [childFor, lastNotAfter_eq sorted block answers leading, ok_bind, startOf]
  split
  next none => rw [none]; rfl
  next => rfl

section Walk

variable {σ : Type} {self : Reading} {target : Target} {limit : Nat}
  {visit : σ → Bytes → Bytes → Except ReadError (σ × Bool)}
  {reached : σ → Frame → Except ReadError σ}

/-- What the visitors make of one event of a walk. -/
def handle (limit : Nat) (visit : σ → Bytes → Bytes → Except ReadError (σ × Bool))
    (reached : σ → Frame → Except ReadError σ) (state : Nat × σ)
    : (Frame ⊕ Located) → Next (Nat × σ) (Except ReadError (Option Nat × σ))
  | .inl frame => orStop do
      let acc ← reached state.2 frame
      return .go (state.1, acc)
  | .inr located => orStop do
      let taken ← visit state.2 located.key located.value
      if !taken.2 then return .stop (.ok (some located.block, taken.1))
      refuseIf (limit < state.1 + 1) (.tooManyEntries limit)
      return .go (state.1 + 1, taken.1)

/-- The state of a walk that steers no more, once the entries of its top node are done with. -/
def leave (rest : List Frame) (walked : List Nat × Nat × σ) : WalkState σ :=
  ⟨rest, walked.1, walked.2.1, false, walked.2.2⟩

/-- The records of a leaf are taken as a walk by levels meets them, by induction on how many are
left.
-/
theorem takeEntries_eq (top : Frame) (remaining i : Nat) (seen : List Nat) (state : Nat × σ)
    : (takeEntries limit visit top remaining i state).bind (fun taken => .go (seen, taken))
      = ((entries (self.forest.visitItem top) remaining i seen).replay Except.error
          (handle limit visit reached) state) := by
  induction remaining generalizing i state with
  | zero => rfl
  | succ remaining ih =>
      have one : (takeEntry limit visit top i state).bind (fun taken => .go (seen, taken))
          = (self.forest.visitItem top i seen).replay Except.error (handle limit visit reached)
              state := by
        simp only [Forest.visitItem, forest, Trace.replay_bind, Trace.replay_emit, takeEntry]
        cases top.located i with
        | error error => rfl
        | ok located => rfl
      rw [takeEntries, Next.bind_assoc, entries, Trace.replay_bind, ← one, Next.bind_assoc]
      exact congrArg _ (funext fun taken => ih (i + 1) taken)

/-- A leaf is done with in one turn. -/
theorem walk_leaf {frame : Frame} (leaf : frame.level = 0) {steering : Bool} {first : Nat}
    (found : frame.entryFrom steering target = .ok first) (rest : List Frame) (seen : List Nat)
    (state : Nat × σ)
    : Leads (self.walkStep target limit visit reached)
        ⟨frame :: rest, seen, state.1, steering, state.2⟩
        (((entries (self.forest.visitItem frame) (frame.node.len - first) first seen).replay
          Except.error (handle limit visit reached) state).bind fun walked =>
            .go (leave rest walked)) := by
  have step : self.walkStep target limit visit reached
      ⟨frame :: rest, seen, state.1, steering, state.2⟩
      = ((entries (self.forest.visitItem frame) (frame.node.len - first) first seen).replay
          Except.error (handle limit visit reached) state).bind fun walked =>
            .go (leave rest walked) := by
    rw [← takeEntries_eq, Next.bind_assoc]
    simp only [walkStep, if_pos leaf, walkLeaf, found, ok_bind]
    rfl
  exact step ▸ Leads.turn _

/-- What a walk that steers no more does with a node it has just entered: it walks what is below as
a walk by levels walks it.
-/
def WalksBelow (self : Reading) (target : Target) (limit : Nat)
    (visit : σ → Bytes → Bytes → Except ReadError (σ × Bool))
    (reached : σ → Frame → Except ReadError σ) (level : Nat) : Prop :=
  ∀ frame, frame.level = level → frame.next = 0 → ∀ rest seen state,
    Leads (self.walkStep target limit visit reached) (leave (frame :: rest) (seen, state))
      (((self.forest.sweep level frame seen).replay Except.error (handle limit visit reached)
        state).bind fun walked => .go (leave rest walked))

/-- A child is entered, and what is below it walked, as a walk by levels does, whether the walk steers
by its target from there on or not.
-/
theorem walk_child {level : Nat} {below : Frame → List Nat → Trace ReadError _ (List Nat)}
    {frame : Frame} {steering : Bool} (node : frame.level = level + 1) {index : Nat}
    (found : frame.childFrom steering target = .ok index) (more : index < frame.node.len)
    (rest : List Frame) (seen : List Nat) (state : Nat × σ)
    (walks : ∀ child entered, self.descend frame index seen = .ok (child, entered) → ∀ state,
      Leads (self.walkStep target limit visit reached)
        ⟨child :: { frame with next := index + 1 } :: rest, entered, state.1, steering, state.2⟩
        (((below child entered).replay Except.error (handle limit visit reached) state).bind
          fun walked => .go (leave ({ frame with next := index + 1 } :: rest) walked)))
    : Leads (self.walkStep target limit visit reached)
        ⟨frame :: rest, seen, state.1, steering, state.2⟩
        (((self.forest.visitChild below frame index seen).replay Except.error
          (handle limit visit reached) state).bind fun walked =>
            .go (leave ({ frame with next := index + 1 } :: rest) walked)) := by
  have above : frame.level ≠ 0 := by omega
  have turn : Leads (self.walkStep target limit visit reached) _ _ := Leads.turn
    (⟨frame :: rest, seen, state.1, steering, state.2⟩ : WalkState σ)
  simp only [walkStep, if_neg above, walkNode, found, ok_bind, if_neg (Nat.not_le_of_lt more)]
    at turn
  simp only [Forest.visitChild, forest, Trace.replay_bind]
  cases read : self.descend frame index seen with
  | error error =>
      rw [read] at turn
      exact turn
  | ok entered =>
      rw [read] at turn
      simp only [ok_bind] at turn
      simp only [Trace.replay_lift_ok, Trace.replay_emit, Next.bind, handle]
      cases made : reached state.2 entered.1 with
      | error error =>
          rw [made] at turn
          exact turn
      | ok acc =>
          rw [made] at turn
          exact Leads.trans turn (walks entered.1 entered.2 read (state.1, acc))

/-- The entries of a node are entered as a walk by levels enters them, by induction on how many are
left.
-/
theorem walk_children {level : Nat} (walks : self.WalksBelow target limit visit reached level)
    {frame : Frame} (node : frame.level = level + 1) (rest : List Frame) (remaining index : Nat)
    (left : frame.node.len - index = remaining) (seen : List Nat) (state : Nat × σ)
    : Leads (self.walkStep target limit visit reached)
        (leave ({ frame with next := index } :: rest) (seen, state))
        (((entries (self.forest.visitChild (self.forest.sweep level) frame) remaining index
          seen).replay Except.error (handle limit visit reached) state).bind fun walked =>
            .go (leave rest walked)) := by
  induction remaining generalizing index seen state with
  | zero =>
      have above : frame.level ≠ 0 := by omega
      have step : self.walkStep target limit visit reached
          (leave ({ frame with next := index } :: rest) (seen, state))
          = .go (leave rest (seen, state)) := by
        have done : frame.node.len ≤ index := Nat.sub_eq_zero_iff_le.mp left
        have above : ({ frame with next := index } : Frame).level ≠ 0 := above
        simp only [walkStep, leave, if_neg above, walkNode, Frame.childFrom, Bool.false_eq_true,
          if_false, ok_bind, if_pos done]
        rfl
      change Leads _ _ (.go (leave rest (seen, state)))
      exact step ▸ Leads.turn _
  | succ remaining ih =>
      rw [entries, Trace.replay_bind, Next.bind_assoc]
      apply Leads.bind
      · refine @walk_child σ self target limit visit reached level _ { frame with next := index }
          false node index rfl (by dsimp only; omega) rest seen state ?_
        intro child entered read state
        obtain ⟨-, -, below⟩ := descend_eq_ok read
        have level : child.level = level := by
          have := below.level
          have : ({ frame with next := index } : Frame).level = level + 1 := node
          omega
        exact walks child level below.next _ entered state
      · intro walked
        exact ih (index + 1) (by omega) walked.1 walked.2

/-- A walk with a stack that steers no more is a walk by levels, by induction on the level. -/
theorem walksBelow (level : Nat) : self.WalksBelow target limit visit reached level := by
  induction level with
  | zero =>
      intro frame leaf fresh rest seen state
      have walked := @walk_leaf σ self target limit visit reached frame leaf false _ rfl rest seen
        state
      rw [fresh] at walked
      simp only [Forest.sweep, Forest.walk, Forest.startOf_never]
      exact walked
  | succ level ih =>
      intro frame node fresh rest seen state
      have walked := walk_children ih node rest _ 0 rfl seen state
      simp only [Forest.sweep, Forest.walk, Forest.startOf_never]
      have same : ({ frame with next := 0 } : Frame) = frame := by
        rw [← fresh]
      rw [same] at walked
      exact walked

/-- A node a target steers through: it answers for each of its keys, and along them. -/
structure Steers (order : Order) (target : Target) (lt le : Bytes → Bool) (frame : Frame) : Prop where
  sorted : Sorted order frame.node frame.bound
  answers : Answers target lt le frame.node.keys
  leading : Leading lt le frame.node.keys

/-- A target steers through the node and through every node a search for it enters. -/
def Steered (self : Reading) (target : Target) (lt le : Bytes → Bool)
    : (level : Nat) → Frame → List Nat → Prop
  | 0, frame, _ => Steers self.tree.order target lt le frame
  | level + 1, frame, seen =>
      Steers self.tree.order target lt le frame
      ∧ ∀ child entered,
        self.descend frame (startOf lt le (level + 1) frame.node.keys) seen = .ok (child, entered) →
        self.Steered target lt le level child entered

/-- A walk with a stack that steers by its target is a walk by levels that starts where a search
does, by induction on the level.
-/
theorem walk_steered {lt le : Bytes → Bool} (level : Nat) (frame : Frame) (seen : List Nat)
    (steered : self.Steered target lt le level frame seen) (here : frame.level = level)
    (fresh : frame.next = 0) (rest : List Frame) (state : Nat × σ)
    : Leads (self.walkStep target limit visit reached)
        ⟨frame :: rest, seen, state.1, true, state.2⟩
        (((self.forest.steer lt le level frame seen).replay Except.error
          (handle limit visit reached) state).bind fun walked => .go (leave rest walked)) := by
  induction level generalizing frame seen rest state with
  | zero =>
      have found : frame.entryFrom true target = .ok (startOf lt le 0 frame.node.keys) :=
        firstNotBefore_eq steered.sorted _ steered.answers steered.leading
      exact walk_leaf here found rest seen state
  | succ level ih =>
      obtain ⟨steers, below⟩ := steered
      have found : frame.childFrom true target = .ok (startOf lt le (level + 1) frame.node.keys) :=
        childFor_eq steers.sorted _ steers.answers steers.leading level
      have more := childFor_lt found (frame.leads (by unfold Frame.level at here; omega))
      obtain ⟨remaining, left⟩ := Nat.exists_eq_add_of_lt more
      have left : frame.node.len - startOf lt le (level + 1) frame.node.keys = remaining + 1 := by
        omega
      have split : self.forest.steer lt le (level + 1) frame seen
          = (self.forest.visitChild (self.forest.steer lt le level) frame
              (startOf lt le (level + 1) frame.node.keys) seen).bind
            (entries (self.forest.visitChild (self.forest.sweep level) frame) remaining
              (startOf lt le (level + 1) frame.node.keys + 1)) := by
        have left : self.forest.count frame
            - startOf lt le (level + 1) (self.forest.keysOf frame) = remaining + 1 := left
        rw [Forest.steer, left]
        rfl
      rw [split, Trace.replay_bind, Next.bind_assoc]
      apply Leads.bind
      · apply walk_child here found more
        intro child entered read state
        obtain ⟨-, -, child_⟩ := descend_eq_ok read
        have level : child.level = level := by
          have := child_.level
          omega
        exact ih child entered (below child entered read) level child_.next _ state
      · intro walked
        exact walk_children (walksBelow level) here rest remaining _ (by omega) walked.1 walked.2

/-- What the root of a tree was held to. -/
theorem readRoot_eq_ok {root : Frame} (read : self.readRoot = .ok root)
    : root.next = 0 ∧ root.bound = none ∧ Sorted self.tree.order root.node root.bound
      ∧ root.level ≤ maxLevel := by
  obtain ⟨found, -, read⟩ := bind_eq_ok.mp read
  obtain ⟨header, headed, read⟩ := bind_eq_ok.mp read
  obtain ⟨_, -, read⟩ := bind_eq_ok.mp read
  obtain ⟨info, -, read⟩ := bind_eq_ok.mp read
  obtain ⟨_, -, read⟩ := bind_eq_ok.mp read
  obtain ⟨_, level, read⟩ := bind_eq_ok.mp read
  obtain ⟨node, framed, held⟩ := bind_eq_ok.mp read
  rw [refuseIf_eq_ok, decide_eq_false_iff_not] at level
  obtain ⟨checked, same, -, next, bound⟩ := Frame.hold_eq_ok held
  have parsed := node.parsed
  rw [Node.frame_eq_ok (mapError_eq_ok.mp framed), mapError_eq_ok.mp headed] at parsed
  obtain rfl := Except.ok.inj parsed
  subst same
  refine ⟨next, bound, ?_, Nat.le_of_not_lt level⟩
  rw [bound]
  exact Sorted.of_checkNode checked rfl (.inr rfl)

/-- How a walk ends once its events were handed over. -/
def answer (fed : Next (Nat × σ) (Except ReadError (Option Nat × σ)))
    (ending : Except ReadError (List Nat)) : Except ReadError (Option Nat × σ) :=
  match fed with
  | .stop result => result
  | .go state => ending.map fun _ => (none, state.2)

/-- What a walk with a stack answers, read off a walk by levels of the same tree. -/
theorem walk_eq {root : Frame} (read : self.readRoot = .ok root) {lt le : Bytes → Bool}
    (steered : self.Steered target lt le root.level root [root.block]) (acc : σ)
    : self.walk target limit visit reached acc
      = (reached acc root).bind fun acc =>
          answer (feed (handle limit visit reached)
            (self.forest.steer lt le root.level root [root.block]).events (0, acc))
            (self.forest.steer lt le root.level root [root.block]).ending := by
  rw [walk, read, ok_bind]
  cases reached acc root with
  | error error => rfl
  | ok acc =>
      have leads := @walk_steered σ self target limit visit reached lt le root.level root
        [root.block] steered rfl (readRoot_eq_ok read).1 [] (0, acc)
      refine Loop.total_of_leads (self.walkStep_lowers target limit visit reached) ?_
      simp only [Except.bind]
      simp only [Trace.replay] at leads
      cases fed : feed (handle limit visit reached)
          (self.forest.steer lt le root.level root [root.block]).events (0, acc) with
      | stop result =>
          rw [fed] at leads
          exact leads
      | go state =>
          rw [fed] at leads
          cases ended : (self.forest.steer lt le root.level root [root.block]).ending with
          | error error =>
              rw [ended] at leads
              exact leads
          | ok seen =>
              rw [ended] at leads
              exact Leads.trans leads (Leads.turn _)

end Walk

end Reading

end Ferrosys.Apfs
