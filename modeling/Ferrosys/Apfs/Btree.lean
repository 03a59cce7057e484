import Ferrosys.Apfs.Container
import Ferrosys.Apfs.Record
import Ferrosys.Library.Bisect
import Ferrosys.Library.Loop

/-! The B-tree engine: one descent, one ordered iteration, and why both end whatever is read. -/

namespace Ferrosys.Apfs

open Splice Checked Loop

/-- The highest level a root may have. -/
def maxLevel : Nat := 63

/-- How a tree's index nodes reach their children: by block address, through the live checkpoint's
mappings, or at a transaction through the object map whose mapping tree is at `mapTree`.
-/
inductive Children where
  | physical
  | ephemeral
  | virtual (mapTree mapXid xid : Nat)
deriving DecidableEq

/-- Where a tree begins, and how to read it. -/
structure TreeRoot where
  oid : Nat
  children : Children
  subtype : Nat
  order : Order
  maxXid : Nat
deriving DecidableEq

/-- An object map's mapping tree, rooted at `oid` and written no later than `maxXid`. -/
def TreeRoot.objectMap (oid maxXid : Nat) : TreeRoot :=
  ⟨oid, .physical, Kind.objectMap, .objectMap, maxXid⟩

/-- A comparison of a key against a target: `lt` where the key sorts before it. -/
abbrev Target := Bytes → Except ParseError Ordering

/-- One record taken out of a tree: its key and its value. -/
abbrev Record := Bytes × Bytes

/-- One record, and the leaf that holds it. -/
structure Located where
  block : Nat
  key : Bytes
  value : Bytes
deriving DecidableEq

def Located.record (self : Located) : Record := (self.key, self.value)

namespace TreeFlags

def sequentialInsert : Nat := 0x2
def allowGhosts : Nat := 0x4
def ephemeral : Nat := 0x8
def physical : Nat := 0x10
def kvNonaligned : Nat := 0x40
def hashed : Nat := 0x80
def noHeader : Nat := 0x100

/-- The tree flags a tree may carry and be read. -/
def read : Nat := sequentialInsert ||| allowGhosts ||| kvNonaligned ||| physical ||| ephemeral

end TreeFlags

/-- Refuse a tree whose information says its nodes are read some other way. -/
def checkInfo (block : Nat) (info : TreeInfo) (blockSize : Nat) (tree : TreeRoot)
    : Except ReadError Unit := do
  refuseIf (info.flags &&& (TreeFlags.hashed ||| TreeFlags.noHeader) != 0)
    (.badTree block "a tree whose nodes are hashed or headerless")
  refuseIf (info.flags &&& (2 ^ 32 - 1 - TreeFlags.read) != 0)
    (.badTree block ("a tree flagged as keyed by 64-bit integers, as not persisted, or with a bit "
      ++ "the format does not define"))
  refuseIf ((info.flags &&& TreeFlags.physical != 0) != (tree.children == .physical)
      || (info.flags &&& TreeFlags.ephemeral != 0) != (tree.children == .ephemeral))
    (.badTree block "a tree whose root says its children are found otherwise than they are")
  refuseIf (info.nodeSize != blockSize) (.badTree block "a tree whose nodes are not one block")

/-- Whether `a` may come before `b` in a tree of this order: a key that does not parse is a fault of
the node at `block` that holds it.
-/
def inOrder (order : Order) (a b : Bytes) (block : Nat) : Except ReadError Bool :=
  ((order.compare a b).map mayPrecede).mapError fun _ =>
    .badTree block "a key that does not parse"

/-- Entry `index` of the node at `block`. -/
def Node.entryAt (self : Node) (block index : Nat) : Except ReadError (Bytes × Option Bytes) :=
  (self.entry index).mapError (.badNode block)

/-- Hold a key to the one before it in its node. -/
def follows (order : Order) (block : Nat) (previous : Option Bytes) (key : Bytes)
    : Except ReadError Unit :=
  match previous with
  | none => .ok ()
  | some previous => do
      let ordered ← inOrder order previous key block
      refuseIf (!ordered) (.badTree block "keys out of order")

/-- Hold entry `i` of a node to what the tree may hold and to the key before it, and answer its own
key. A lone key is parsed against itself.
-/
def checkEntry (node : Node) (block : Nat) (order : Order) (previous : Option Bytes) (i : Nat)
    : Except ReadError (Option Bytes) := do
  let entry ← node.entryAt block i
  refuseIf (entry.2.isNone && !(order == .freeQueue && node.header.isLeaf))
    (.badTree block "a key without a value")
  follows order block previous entry.1
  if node.len = 1 then
    let _ ← inOrder order entry.1 entry.1 block
    return some entry.1
  else return some entry.1

/-- Hold a node's flags, layout and keys to what its place in the tree says, and say how many bytes
of its two areas no entry holds.
-/
def checkNode (node : Node) (block : Nat) (order : Order) (isRoot : Bool)
    : Except ReadError Unused := do
  let header := node.header
  refuseIf (header.flags &&& (2 ^ 16 - 1 - NodeFlags.understood) != 0)
    (.badTree block "a node carrying flags this crate does not read")
  refuseIf (header.isRoot != isRoot)
    (.badTree block "a node whose root flag disagrees with its place")
  refuseIf (header.isLeaf != (header.level == 0))
    (.badTree block "a node whose leaf flag disagrees with its level")
  refuseIf (node.isEmpty && !isRoot) (.badTree block "a node other than the root holding nothing")
  refuseIf (node.isEmpty && 0 < header.level) (.badTree block "an index node holding nothing")
  let unused ← node.checkLayout.mapError (.badNode block)
  let _ ← (List.range node.len).foldlM (checkEntry node block order) none
  return unused

/-- A node that was held to its place has a child to lead to, unless it is a leaf. -/
theorem checkNode_leads {node : Node} {block : Nat} {order : Order} {isRoot : Bool}
    {unused : Unused} (checked : checkNode node block order isRoot = .ok unused)
    : node.header.level ≠ 0 → 0 < node.len := by
  obtain ⟨_, -, checked⟩ := bind_eq_ok.mp checked
  obtain ⟨_, -, checked⟩ := bind_eq_ok.mp checked
  obtain ⟨_, -, checked⟩ := bind_eq_ok.mp checked
  obtain ⟨_, -, checked⟩ := bind_eq_ok.mp checked
  obtain ⟨_, leads, -⟩ := bind_eq_ok.mp checked
  rw [refuseIf_eq_ok] at leads
  intro above
  apply Nat.pos_of_ne_zero
  intro empty
  simp [Node.isEmpty, show node.header.keyCount = 0 from empty, Nat.pos_of_ne_zero above] at leads

/-- One node, read and held, with where it sits. Its bytes frame the same way each time they are
looked at, and its level is the one its place in the tree says.
-/
structure Frame where
  node : Node
  block : Nat
  sizes : EntrySizes
  next : Nat
  bound : Option Bytes
  unused : Unused
  leads : node.header.level ≠ 0 → 0 < node.len

def Frame.level (self : Frame) : Nat := self.node.header.level

/-- Hold a node to its place in the tree. -/
def Frame.hold (node : Node) (block : Nat) (sizes : EntrySizes) (bound : Option Bytes)
    (order : Order) (isRoot : Bool) : Except ReadError Frame :=
  match checked : checkNode node block order isRoot with
  | .error error => .error error
  | .ok unused => .ok ⟨node, block, sizes, 0, bound, unused, checkNode_leads checked⟩

/-- Hold the last key of a node to what bounds it. -/
def checkBound (node : Node) (block : Nat) (order : Order) (bound : Option Bytes)
    : Except ReadError Unit :=
  match bound with
  | none => .ok ()
  | some bound => do
      let last ← node.entryAt block (node.len - 1)
      let ordered ← inOrder order last.1 bound block
      refuseIf (!ordered || last.1 == bound)
        (.badTree block "a node whose keys reach past its parent's key for the next node")

/-- The index of the first entry of `node` for which `past` holds, or the node's length. -/
def firstWhere (node : Node) (block : Nat) (past : Bytes → Except ParseError Bool)
    : Except ReadError Nat :=
  Bisect.bisect (fun mid => do
    let entry ← node.entryAt block mid
    let past ← (past entry.1).mapError ReadError.parse
    return !past) node.len 0 node.len

/-- The index of the last entry of `node` not after `target`, where there is one. -/
def lastNotAfter (node : Node) (block : Nat) (target : Target) : Except ReadError (Option Nat) := do
  let after ← firstWhere node block fun key => do return (← target key) == .gt
  return if after = 0 then none else some (after - 1)

/-- The index of the first entry of a leaf not before `target`. -/
def firstNotBefore (node : Node) (block : Nat) (target : Target) : Except ReadError Nat :=
  firstWhere node block fun key => do return (← target key) != .lt

/-- The child of an index node a search for `target` enters: the first where every entry is after
it.
-/
def childFor (node : Node) (block : Nat) (target : Target) : Except ReadError Nat := do
  return (← lastNotAfter node block target).getD 0

/-- The key that bounds the child at `index`: of the entry after it, or for the last what bounds the
node itself.
-/
def Frame.childBound (self : Frame) (index : Nat) : Except ReadError (Option Bytes) :=
  if index + 1 < self.node.len then do return some (← self.node.entryAt self.block (index + 1)).1
  else .ok self.bound

/-- The record at `index` of a leaf. -/
def Frame.located (self : Frame) (index : Nat) : Except ReadError Located := do
  let entry ← self.node.entryAt self.block index
  return ⟨self.block, entry.1, entry.2.getD []⟩

/-- Where a walk takes a leaf from: the first descent steers by the target. -/
def Frame.entryFrom (self : Frame) (steering : Bool) (target : Target) : Except ReadError Nat :=
  if steering then firstNotBefore self.node self.block target else .ok self.next

/-- The child of an index node a walk takes. -/
def Frame.childFrom (self : Frame) (steering : Bool) (target : Target) : Except ReadError Nat :=
  if steering then childFor self.node self.block target else .ok self.next

/-- A tree, and how its nodes are read: node `oid`, root or not, from a transaction no later than
what led to it.
-/
structure Reading where
  tree : TreeRoot
  blockSize : Nat
  read : (oid : Nat) → (isRoot : Bool) → (maxXid : Nat) → Except ReadError (Nat × Bytes)

/-- Where a walk has got to: the nodes from the deepest up, the blocks seen, the records visited,
whether it still steers by its target, and what the visitors have made of it.
-/
structure WalkState (σ : Type) where
  stack : List Frame
  seen : List Nat
  visited : Nat
  steering : Bool
  acc : σ

/-- The most turns a node can still take, with all that is below it. -/
def Frame.turns (frame : Frame) : Nat :=
  (frame.node.len - frame.next) * worth (2 ^ 32) frame.level + 1

/-- The most turns a walk can still take: a node it steers in it takes from the start at the most. -/
def WalkState.turns {σ : Type} (state : WalkState σ) : Nat :=
  match state.stack with
  | [] => 0
  | top :: rest =>
      (if state.steering then { top with next := 0 } else top).turns
        + (rest.map Frame.turns).sum

namespace Reading

/-- Read the tree's root node and frame it. -/
def readRoot (self : Reading) : Except ReadError Frame := do
  let found ← self.read self.tree.oid true self.tree.maxXid
  let block := found.1
  let object := found.2
  let header ← (NodeHeader.readFrom object).mapError .parse
  refuseIf (!header.isRoot) (.badTree block "a root without its tree information")
  let info ← (TreeInfo.readFrom (object.drop (object.length - treeInfoSize))).mapError .parse
  checkInfo block info self.blockSize self.tree
  refuseIf (maxLevel < header.level)
    (.badTree block "a root higher than any tree the container could hold")
  let sizes : EntrySizes := ⟨info.keySize, info.valueSize⟩
  let node ← (Node.frame object sizes).mapError (.badNode block)
  Frame.hold node block sizes none self.tree.order true

/-- Read the child entry `index` of `parent` leads to, and check it against the parent. -/
def descend (self : Reading) (parent : Frame) (index : Nat) (seen : List Nat)
    : Except ReadError (Frame × List Nat) := do
  let separator ← parent.node.entryAt parent.block index
  let value ← okOr separator.2 (.badTree parent.block "an index entry without a child")
  let child ← (childOid value).mapError .parse
  let bound ← parent.childBound index
  let header ← (ObjectHeader.readFrom parent.node.bytes).mapError .parse
  let found ← self.read child false header.xid
  let block := found.1
  refuseIf (seen.contains block) (.badTree block "a node reached twice")
  let node ← (Node.frame found.2 parent.sizes).mapError (.badNode block)
  refuseIf (node.header.level != parent.level - 1)
    (.badTree block "a node not one level below its parent")
  let frame ← Frame.hold node block parent.sizes bound self.tree.order false
  let first ← node.entryAt block 0
  refuseIf (first.1 != separator.1)
    (.badTree block "a node whose first key is not its parent's key for it")
  checkBound node block self.tree.order bound
  return (frame, block :: seen)

section Walk

variable {σ : Type}

/-- Hand record `i` of a leaf to `visit`. A record is counted once taken, so one that ends a range
is not one the range holds.
-/
def takeEntry (limit : Nat) (visit : σ → Bytes → Bytes → Except ReadError (σ × Bool)) (top : Frame)
    (i : Nat) (state : Nat × σ)
    : Next (Nat × σ) (Except ReadError (Option Nat × σ)) :=
  orStop do
    let located ← top.located i
    let taken ← visit state.2 located.key located.value
    if !taken.2 then return .stop (.ok (some located.block, taken.1))
    refuseIf (limit < state.1 + 1) (.tooManyEntries limit)
    return .go (state.1 + 1, taken.1)

/-- Hand over the records of a leaf from `i` on. -/
def takeEntries (limit : Nat) (visit : σ → Bytes → Bytes → Except ReadError (σ × Bool))
    (top : Frame)
    : (remaining i : Nat) → Nat × σ → Next (Nat × σ) (Except ReadError (Option Nat × σ))
  | 0, _, state => .go state
  | remaining + 1, i, state =>
      (takeEntry limit visit top i state).bind (takeEntries limit visit top remaining (i + 1))

/-- A turn at a leaf: every record of it from where the walk begins in it, and then it is left. -/
def walkLeaf (target : Target) (limit : Nat)
    (visit : σ → Bytes → Bytes → Except ReadError (σ × Bool)) (state : WalkState σ) (top : Frame)
    (rest : List Frame) : Next (WalkState σ) (Except ReadError (Option Nat × σ)) :=
  orStop do
    let first ← top.entryFrom state.steering target
    return (takeEntries limit visit top (top.node.len - first) first
      (state.visited, state.acc)).bind fun taken =>
        .go { state with stack := rest, visited := taken.1, steering := false, acc := taken.2 }

/-- A turn at an index node: one of its children, where it has one left. -/
def walkNode (self : Reading) (target : Target) (reached : σ → Frame → Except ReadError σ)
    (state : WalkState σ) (top : Frame) (rest : List Frame)
    : Next (WalkState σ) (Except ReadError (Option Nat × σ)) :=
  orStop do
    let index ← top.childFrom state.steering target
    if top.node.len ≤ index then return .go { state with stack := rest }
    let entered ← self.descend top index state.seen
    let acc ← reached state.acc entered.1
    return .go {
      state with
      stack := entered.1 :: { top with next := index + 1 } :: rest
      seen := entered.2
      acc := acc
    }

/-- One turn of a walk. -/
def walkStep (self : Reading) (target : Target) (limit : Nat)
    (visit : σ → Bytes → Bytes → Except ReadError (σ × Bool))
    (reached : σ → Frame → Except ReadError σ) (state : WalkState σ)
    : Next (WalkState σ) (Except ReadError (Option Nat × σ)) :=
  match state.stack with
  | [] => .stop (.ok (none, state.acc))
  | top :: rest =>
      if top.level = 0 then walkLeaf target limit visit state top rest
      else self.walkNode target reached state top rest

end Walk

section Ends

variable {σ : Type} {self : Reading} {target : Target} {limit : Nat}
  {visit : σ → Bytes → Bytes → Except ReadError (σ × Bool)}
  {reached : σ → Frame → Except ReadError σ}

/-- What a frame was held to. -/
theorem Frame.hold_eq_ok {node : Node} {block : Nat} {sizes : EntrySizes} {bound : Option Bytes}
    {order : Order} {isRoot : Bool} {frame : Frame}
    (held : Frame.hold node block sizes bound order isRoot = .ok frame)
    : checkNode node block order isRoot = .ok frame.unused ∧ frame.node = node
      ∧ frame.block = block ∧ frame.next = 0 ∧ frame.bound = bound := by
  unfold Frame.hold at held
  split at held
  next => cases held
  next unused checked =>
    obtain rfl := Except.ok.inj held
    exact ⟨checked, rfl, rfl, rfl, rfl⟩

/-- A node that is held to its place is framed. -/
theorem Frame.hold_of {node : Node} {order : Order} {isRoot : Bool} {unused : Unused} {block : Nat}
    (checked : checkNode node block order isRoot = .ok unused) (sizes : EntrySizes)
    (bound : Option Bytes)
    : Frame.hold node block sizes bound order isRoot
      = .ok ⟨node, block, sizes, 0, bound, unused, checkNode_leads checked⟩ := by
  unfold Frame.hold
  split
  next error failed =>
    rw [failed] at checked
    cases checked
  next other held =>
    obtain rfl := Except.ok.inj (held.symm.trans checked)
    rfl

/-- What the child of a node was held to: it is a level below its parent, in a block not seen
before, its keys stand in order and in their place among its parent's.
-/
structure Child (reading : Reading) (parent : Frame) (index : Nat) (child : Frame) : Prop where
  again : ∀ seen, child.block ∉ seen →
    reading.descend parent index seen = .ok (child, child.block :: seen)
  level : child.level = parent.level - 1
  next : child.next = 0
  checked : checkNode child.node child.block reading.tree.order false = .ok child.unused
  bound : parent.childBound index = .ok child.bound
  within : checkBound child.node child.block reading.tree.order child.bound = .ok ()
  first : ∃ separator first, parent.node.entryAt parent.block index = .ok separator
    ∧ child.node.entryAt child.block 0 = .ok first ∧ first.1 = separator.1

/-- A descent enters a child. -/
theorem descend_eq_ok {parent child : Frame} {index : Nat} {seen entered : List Nat}
    (read : self.descend parent index seen = .ok (child, entered))
    : child.block ∉ seen ∧ entered = child.block :: seen ∧ Child self parent index child := by
  obtain ⟨separator, pointed, read⟩ := bind_eq_ok.mp read
  obtain ⟨value, valued, read⟩ := bind_eq_ok.mp read
  obtain ⟨oid, named, read⟩ := bind_eq_ok.mp read
  obtain ⟨bound, bounded, read⟩ := bind_eq_ok.mp read
  obtain ⟨header, headed, read⟩ := bind_eq_ok.mp read
  obtain ⟨⟨block, object⟩, fetched, read⟩ := bind_eq_ok.mp read
  obtain ⟨_, fresh, read⟩ := bind_eq_ok.mp read
  obtain ⟨node, framed, read⟩ := bind_eq_ok.mp read
  obtain ⟨_, level, read⟩ := bind_eq_ok.mp read
  obtain ⟨frame, held, read⟩ := bind_eq_ok.mp read
  obtain ⟨first, front, read⟩ := bind_eq_ok.mp read
  obtain ⟨_, same, read⟩ := bind_eq_ok.mp read
  obtain ⟨_, within, read⟩ := bind_eq_ok.mp read
  obtain ⟨rfl, rfl⟩ := Prod.mk.inj (Except.ok.inj read)
  obtain ⟨checked, rfl, rfl, next, rfl⟩ := Frame.hold_eq_ok held
  refine ⟨by simpa using fresh, rfl, ?_, by simpa [Frame.level] using level, next, checked, bounded, within,
    separator, first, pointed, front, by simpa using same⟩
  intro others outside
  have fresh : refuseIf (others.contains frame.block)
      (ReadError.badTree frame.block "a node reached twice") = .ok () := by
    simpa using outside
  simp only [descend, pointed, ok_bind, valued, named, bounded, headed, fetched, fresh, framed,
    level, held, front, same, within]
  rfl

/-- A search enters a child a node has. -/
theorem childFor_lt {node : Node} {block index : Nat} (found : childFor node block target = .ok index)
    (leads : 0 < node.len) : index < node.len := by
  obtain ⟨last, found, picked⟩ := bind_eq_ok.mp found
  obtain ⟨after, found, chosen⟩ := bind_eq_ok.mp found
  have := Bisect.bisect_le found (Nat.zero_le _)
  obtain rfl := Except.ok.inj picked
  obtain rfl := Except.ok.inj chosen
  split
  · exact leads
  · simp only [Option.getD_some]
    omega

/-- What one turn that goes on did: it left a node, which it steers in no more, or entered a
child.
-/
theorem walkStep_go {state next : WalkState σ}
    (taken : self.walkStep target limit visit reached state = .go next)
    : ∃ top rest, state.stack = top :: rest ∧
        ((next.stack = rest ∧ next.seen = state.seen ∧ next.steering = false)
          ∨ ∃ index child, top.level ≠ 0 ∧ index < top.node.len
            ∧ (state.steering = false → index = top.next)
            ∧ self.descend top index state.seen = .ok (child, next.seen)
            ∧ next.stack = child :: { top with next := index + 1 } :: rest
            ∧ next.steering = state.steering) := by
  unfold walkStep at taken
  split at taken
  next => cases taken
  next top rest shape =>
    refine ⟨top, rest, shape, ?_⟩
    split at taken
    next leaf =>
      unfold walkLeaf at taken
      obtain ⟨first, -, taken⟩ := bind_eq_ok.mp (orStop_eq_go taken)
      cases done : takeEntries limit visit top (top.node.len - first) first
          (state.visited, state.acc) with
      | stop result =>
          rw [done] at taken
          cases taken
      | go after =>
          rw [done] at taken
          cases taken
          exact .inl ⟨rfl, rfl, rfl⟩
    next node =>
      unfold walkNode at taken
      obtain ⟨index, indexed, taken⟩ := bind_eq_ok.mp (orStop_eq_go taken)
      split at taken
      next past =>
        cases taken
        refine .inl ⟨rfl, rfl, ?_⟩
        cases steering : state.steering with
        | false => rfl
        | true =>
            rw [steering] at indexed
            exact absurd (childFor_lt indexed (top.leads node)) (Nat.not_lt_of_le past)
      next more =>
        obtain ⟨entered, read, taken⟩ := bind_eq_ok.mp taken
        obtain ⟨acc, -, taken⟩ := bind_eq_ok.mp taken
        cases taken
        refine .inr ⟨index, entered.1, node, Nat.lt_of_not_le more, ?_, read, rfl, rfl⟩
        intro straight
        rw [straight] at indexed
        exact (Except.ok.inj indexed).symm

/-- A node takes fewer turns than the one entry above it that leads to it. -/
theorem Frame.turns_lt (frame : Frame) {level : Nat} (above : frame.level + 1 = level)
    : frame.turns < worth (2 ^ 32) level := by
  subst above
  exact lt_worth (Nat.le_trans (Nat.sub_le _ _) (Nat.le_of_lt frame.node.len_lt)) _

/-- Taking an entry further on takes at least what one entry is worth. -/
theorem Frame.turns_le {frame : Frame} {index : Nat} (more : index < frame.node.len)
    (later : frame.next ≤ index)
    : ({ frame with next := index + 1 } : Frame).turns + worth (2 ^ 32) frame.level
      ≤ frame.turns := by
  have left : frame.node.len - (index + 1) + 1 ≤ frame.node.len - frame.next := by omega
  calc (frame.node.len - (index + 1)) * worth (2 ^ 32) frame.level + 1 + worth (2 ^ 32) frame.level
      = (frame.node.len - (index + 1) + 1) * worth (2 ^ 32) frame.level + 1 := by
        rw [Nat.succ_mul, Nat.add_right_comm]
    _ ≤ frame.turns := Nat.succ_le_succ (Nat.mul_le_mul_right _ left)

/-- Every turn of a walk leaves fewer to take: a child is worth less than the entry that led to it. -/
theorem walkStep_lowers (self : Reading) (target : Target) (limit : Nat)
    (visit : σ → Bytes → Bytes → Except ReadError (σ × Bool))
    (reached : σ → Frame → Except ReadError σ)
    : Lowers (self.walkStep target limit visit reached) WalkState.turns := by
  intro state next taken
  obtain ⟨top, rest, shape, ⟨left, -, straight⟩
    | ⟨index, child, node, more, straight, read, entered, same⟩⟩ := walkStep_go taken
  · have fewer : next.turns = (rest.map Frame.turns).sum := by
      simp only [WalkState.turns, left, straight]
      cases rest <;> simp
    have : 0 < (if state.steering then { top with next := 0 } else top : Frame).turns :=
      Nat.succ_pos _
    rw [fewer, WalkState.turns, shape]
    dsimp only
    omega
  · obtain ⟨-, -, below⟩ := descend_eq_ok read
    have above : child.level + 1 = top.level := by
      have := below.level
      omega
    have inner := Frame.turns_lt { child with next := 0 } above
    have outer : ({ top with next := index + 1 } : Frame).turns + worth (2 ^ 32) top.level
        ≤ (if state.steering then { top with next := 0 } else top : Frame).turns := by
      cases steering : state.steering with
      | true => exact @Frame.turns_le { top with next := 0 } index more (Nat.zero_le _)
      | false => exact Frame.turns_le more (Nat.le_of_eq (straight steering).symm)
    have first : (if next.steering then { child with next := 0 } else child : Frame).turns
        = ({ child with next := 0 } : Frame).turns := by
      have := below.next
      split
      · rfl
      · rw [Frame.turns, this]
        rfl
    simp only [WalkState.turns, shape, entered, List.map_cons, List.sum_cons, first]
    omega

end Ends

section Iteration

variable {σ : Type}

/-- [`forEachFrom`], handing each node to `reached` as it is reached, the root first. -/
def walk (self : Reading) (target : Target) (limit : Nat)
    (visit : σ → Bytes → Bytes → Except ReadError (σ × Bool))
    (reached : σ → Frame → Except ReadError σ) (acc : σ) : Except ReadError (Option Nat × σ) := do
  let root ← self.readRoot
  let acc ← reached acc root
  Loop.total (self.walkStep target limit visit reached) WalkState.turns
    (self.walkStep_lowers target limit visit reached) ⟨[root], [root.block], 0, true, acc⟩

/-- Visit every record at or after `target`, in key order, until `visit` answers `false`: then the
leaf holding the record it answered so to.
-/
def forEachFrom (self : Reading) (target : Target) (limit : Nat)
    (visit : σ → Bytes → Bytes → Except ReadError (σ × Bool)) (acc : σ)
    : Except ReadError (Option Nat × σ) :=
  self.walk target limit visit (fun acc _ => .ok acc) acc

/-- Visit every record of the tree, in key order, under the walk limit. -/
def forEach (self : Reading) (maxWalkEntries : Nat)
    (visit : σ → Bytes → Bytes → Except ReadError (σ × Bool)) (acc : σ) : Except ReadError σ := do
  let ended ← self.forEachFrom (fun _ => .ok .gt) maxWalkEntries visit acc
  return ended.2

end Iteration

/-- Read every node of the tree and visit no record. -/
def checkWhole (self : Reading) : Except ReadError Unit := do
  let _ ← self.walk (fun _ => .ok .gt) (2 ^ 64 - 1) (fun _ _ _ => .ok ((), true))
    (fun _ _ => .ok ()) ()
  return ()

/-- Hold an answer to `target` that is the last record of its node, where the tree goes on past that
node, to the record after it.
-/
def confirmLast (self : Reading) (target : Target) : Except ReadError Unit := do
  let _ ← self.forEachFrom target (2 ^ 64 - 1) (fun _ key _ => do
    let found ← (target key).mapError ReadError.parse
    return ((), found != .gt)) ()
  return ()

/-- Where a search for the last record not after a target has got to. -/
structure FindState where
  frame : Frame
  seen : List Nat

/-- What a leaf answers a search with. -/
def answerFrom (self : Reading) (target : Target) (frame : Frame)
    : Except ReadError (Option Record) := do
  match ← lastNotAfter frame.node frame.block target with
  | none => return none
  | some index =>
      let answer ← frame.located index
      if index + 1 = frame.node.len ∧ frame.bound.isSome then
        self.confirmLast target
        return some answer.record
      else return some answer.record

/-- One turn of that search: answer from a leaf, or enter the child a search for the target
enters.
-/
def findStep (self : Reading) (target : Target) (state : FindState)
    : Next FindState (Except ReadError (Option Record)) :=
  if state.frame.level = 0 then .stop (self.answerFrom target state.frame)
  else orStop do
    let index ← childFor state.frame.node state.frame.block target
    let entered ← self.descend state.frame index state.seen
    return .go ⟨entered.1, entered.2⟩

/-- A turn that goes on is a level down. -/
theorem findStep_go {self : Reading} {target : Target} {state next : FindState}
    (taken : self.findStep target state = .go next)
    : state.frame.level ≠ 0 ∧ ∃ index, index < state.frame.node.len
      ∧ self.descend state.frame index state.seen = .ok (next.frame, next.seen) := by
  unfold findStep at taken
  split at taken
  next => cases taken
  next node =>
    obtain ⟨index, picked, taken⟩ := bind_eq_ok.mp (orStop_eq_go taken)
    obtain ⟨entered, read, taken⟩ := bind_eq_ok.mp taken
    cases taken
    exact ⟨node, index, childFor_lt picked (state.frame.leads node), read⟩

theorem findStep_lowers (self : Reading) (target : Target)
    : Lowers (self.findStep target) fun state => state.frame.level := by
  intro state next taken
  obtain ⟨node, index, -, read⟩ := findStep_go taken
  have := (descend_eq_ok read).2.2.level
  dsimp only
  omega

/-- The record with the greatest key not after `target`. -/
def findAtOrBefore (self : Reading) (target : Target) : Except ReadError (Option Record) := do
  let frame ← self.readRoot
  Loop.total (self.findStep target) (fun state => state.frame.level) (self.findStep_lowers target)
    ⟨frame, [frame.block]⟩

end Reading

namespace Container

/-- The types of a tree's nodes. -/
def nodeKinds (isRoot : Bool) : List Nat := if isRoot then [Kind.btreeRoot] else [Kind.btreeNode]

/-- The node of `tree` at `address`, which is no newer than what led to it. -/
def readNodeAt (self : Container) (tree : TreeRoot) (address : Nat) (storage : Storage) (oid : Nat)
    (isRoot : Bool) (maxXid : Nat) : Except ReadError (Nat × Bytes) := do
  let object ← self.readObject address {
    kinds := nodeKinds isRoot
    subtype := some tree.subtype
    storage := storage
    oid := oid
    xid := .atMost maxXid
  }
  return (address, object)

/-- How the nodes of a tree are read whose children are found by address. -/
def physical (self : Container) (tree : TreeRoot) : Reading where
  tree := tree
  blockSize := self.blockSize
  read oid isRoot maxXid := self.readNodeAt tree oid .physical oid isRoot maxXid

/-- The newest version of virtual object `oid` no later than transaction `xid`, in the object map
whose mapping tree is `map`.
-/
def resolve (self : Container) (map : TreeRoot) (oid xid : Nat)
    : Except ReadError (MapKey × MapValue) := do
  let target : MapKey := ⟨oid, xid⟩
  let found ← (self.physical map).findAtOrBefore fun key => do
    return (← MapKey.readFrom key).cmp target
  let record ← okOr found (.missingObject oid xid)
  let key ← (MapKey.readFrom record.1).mapError .parse
  refuseIf (key.oid != oid) (.missingObject oid xid)
  let value ← (MapValue.readFrom record.2).mapError .parse
  refuseIf (value.flags &&& (2 ^ 32 - 1 - cryptoGeneration) != 0) (.badMapValue oid value.flags)
  refuseIf (value.size != self.blockSize) (.badGeometry "a mapped object's size" value.size
    "an object of more than a block, which this crate does not read")
  return (key, value)

/-- The virtual object `oid` at the newest version no later than `xid`, read and verified. -/
def readVirtual (self : Container) (map : TreeRoot) (oid xid : Nat) (kinds : List Nat)
    (subtype : Option Nat) : Except ReadError (Nat × Bytes) := do
  let (key, value) ← self.resolve map oid xid
  let object ← self.readObject value.address {
    kinds := kinds
    subtype := subtype
    storage := .virtual
    oid := oid
    xid := .exactly key.xid
  }
  return (value.address, object)

/-- The node `oid` of `tree`: at its address for a physical tree, through the checkpoint's mappings
for an ephemeral one, through the map for a virtual one.
-/
def readNode (self : Container) (tree : TreeRoot) (oid : Nat) (isRoot : Bool) (maxXid : Nat)
    : Except ReadError (Nat × Bytes) :=
  match tree.children with
  | .physical => self.readNodeAt tree oid .physical oid isRoot maxXid
  | .ephemeral => do
      let address ← self.ephemeralAddress oid
      self.readNodeAt tree address .ephemeral oid isRoot maxXid
  | .virtual mapTree mapXid xid =>
      self.readVirtual (.objectMap mapTree mapXid) oid xid (nodeKinds isRoot) (some tree.subtype)

/-- How the nodes of a tree are read. -/
def reading (self : Container) (tree : TreeRoot) : Reading where
  tree := tree
  blockSize := self.blockSize
  read := self.readNode tree

end Container

end Ferrosys.Apfs
