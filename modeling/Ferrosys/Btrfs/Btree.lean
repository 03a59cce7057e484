import Ferrosys.Btrfs.TreeBlock
import Ferrosys.Library.Bisect
import Ferrosys.Library.Loop

/-! The B-tree engine: every descent and every walk of a tree, and why each of them ends. -/

namespace Ferrosys.Btrfs

open Checked

/-- One item, taken out of the tree that held it. -/
structure Located where
  key : DiskKey
  data : Bytes
deriving DecidableEq

/-- A loop's next turn, which a failure ends. -/
def orStop {σ α : Type} (next : Except ReadError (Loop.Next σ (Except ReadError α)))
    : Loop.Next σ (Except ReadError α) :=
  match next with
  | .ok next => next
  | .error error => .stop (.error error)

theorem orStop_eq_go {σ α : Type} {next : Except ReadError (Loop.Next σ (Except ReadError α))}
    {state : σ} (went : orStop next = .go state) : next = .ok (.go state) := by
  cases next with
  | ok next => exact congrArg _ went
  | error error => cases went

/-- How many of a block's entries sort below `from_`, counting one equal to it where `inclusive`. -/
def partition (block : TreeBlock) (from_ : DiskKey) (inclusive : Bool) : Except ReadError Nat := do
  let count ← block.count
  Bisect.bisect (fun mid => do
    let key ← block.keyAt mid
    return if inclusive then decide (key ≤ from_) else decide (key < from_)) count 0 count

/-- Where in `block` a walk from `from_` begins. -/
def startIndex (block : TreeBlock) (from_ : DiskKey) : Except ReadError Nat :=
  if from_ = DiskKey.min then .ok 0
  else do
    let leaf := block.header.isLeaf
    let at_ ← partition block from_ (!leaf)
    return if leaf then at_ else at_ - 1

/-- The item at `index` of a leaf, and its data. -/
def TreeBlock.located (block : TreeBlock) (index : Nat) : Except ReadError Located := do
  let key := (← block.item index).key
  let data ← block.itemData index
  return ⟨key, data⟩

/-- A block of a walk, how far through it the walk has got, and the bound its keys sit below. -/
structure Frame where
  block : TreeBlock
  index : Nat
  below : Option DiskKey

/-- The bound the child at `index` sits below: the key of the child after it, or for the last what
bounds the block itself.
-/
def TreeBlock.childBelow (parent : TreeBlock) (below : Option DiskKey) (index : Nat)
    : Except ReadError (Option DiskKey) := do
  if index + 1 < (← parent.count) then return some (← parent.keyPtr (index + 1)).key
  else return below

/-- The most turns one entry of a block at this level can take, with all that is below it. -/
def perEntry : (level : Nat) → Nat
  | 0 => 1
  | level + 1 => 1 + (2 ^ 32 * perEntry level + 1)

/-- The most turns a frame can still take, with all that is below it. -/
def Frame.turns (frame : Frame) : Nat :=
  (frame.block.header.nritems - frame.index) * perEntry frame.block.header.level + 1

/-- A fresh frame takes fewer turns than one entry of its parent. -/
theorem Frame.turns_lt_perEntry (frame : Frame) {level : Nat}
    (above : frame.block.header.level + 1 = level) : frame.turns < perEntry level := by
  subst above
  have few := (Header.of_readFrom frame.block.parsed).2
  have := Nat.mul_le_mul_right (perEntry frame.block.header.level)
    (Nat.le_of_lt (Nat.lt_of_le_of_lt (Nat.sub_le _ frame.index) few))
  rw [perEntry, Frame.turns]
  omega

/-- Taking an entry takes what one entry is worth. -/
theorem Frame.turns_eq {frame : Frame} (more : frame.index < frame.block.header.nritems)
    : frame.turns
      = ({ frame with index := frame.index + 1 } : Frame).turns
        + perEntry frame.block.header.level := by
  have left : frame.block.header.nritems - frame.index
      = frame.block.header.nritems - (frame.index + 1) + 1 := by omega
  simp only [turns, left, Nat.succ_mul]
  omega

theorem perEntry_pos (level : Nat) : 0 < perEntry level := by
  cases level <;> simp [perEntry]

namespace Volume

/-- The child at `index` of `parent`, with every guard a descent applies to one, the bound its own
keys sit below, and the addresses visited by then.
-/
def childOf (self : Volume) (parent : TreeBlock) (below : Option DiskKey) (index : Nat)
    (visited : List Nat) : Except ReadError ((TreeBlock × Option DiskKey) × List Nat) := do
  let level := parent.header.level
  let pointer ← parent.keyPtr index
  let childAt := pointer.blockptr
  refuseIf (visited.contains childAt) (.treeCycle childAt)
  let childBelow ← parent.childBelow below index
  let child ← self.readTreeBlock childAt pointer.generation
  refuseIf (child.header.level + 1 != level) (.badTreeLevel childAt child.header.level level)
  child.checkLeafPacking
  child.checkKeys (some pointer.key) childBelow
  return ((child, childBelow), childAt :: visited)

/-- The tree's top block, checked against what its root item says it is. -/
def readRoot (self : Volume) (root : TreeRoot) : Except ReadError TreeBlock := do
  let block ← self.readTreeBlock root.bytenr root.generation
  refuseIf (block.header.level != root.level)
    (.badTreeLevel root.bytenr block.header.level root.level)
  block.checkLeafPacking
  block.checkKeys none none
  return block

/-- Where a walk has got to: the frames from the deepest up, the addresses visited, the items
taken, and what the visitors have made of it.
-/
structure DriveState (σ : Type) where
  stack : List Frame
  visited : List Nat
  visits : Nat
  acc : σ

section Drive

variable {σ : Type}

/-- Take the item `top` has got to. An item is counted once taken, so one that ends a range is not
one the range holds.
-/
def takeItem (self : Volume) (root : TreeRoot) (onItem : σ → DiskKey → Bytes → σ × Bool)
    (state : DriveState σ) (top : Frame) (stack : List Frame)
    : Except ReadError (Loop.Next (DriveState σ) (Except ReadError σ)) := do
  let located ← top.block.located top.index
  let taken := onItem state.acc located.key located.data
  if !taken.2 then return .stop (.ok taken.1)
  let visits := state.visits + 1
  refuseIf (self.maxWalkEntries < visits) (.tooManyEntries root.objectid self.maxWalkEntries)
  return .go { state with stack, visits, acc := taken.1 }

/-- Enter the child `top` has got to, where a search for `from_` begins in it. -/
def enterChild (self : Volume) (from_ : DiskKey) (onBlock : σ → TreeBlock → σ × Bool)
    (state : DriveState σ) (top : Frame) (stack : List Frame)
    : Except ReadError (Loop.Next (DriveState σ) (Except ReadError σ)) := do
  let ((child, below), visited) ← self.childOf top.block top.below top.index state.visited
  let taken := onBlock state.acc child
  if !taken.2 then return .stop (.ok taken.1)
  let start ← startIndex child from_
  return .go { state with stack := ⟨child, start, below⟩ :: stack, visited, acc := taken.1 }

/-- One turn of a walk: leave a block that is done with, take an item, or enter a child. -/
def driveStep (self : Volume) (root : TreeRoot) (from_ : DiskKey)
    (onBlock : σ → TreeBlock → σ × Bool) (onItem : σ → DiskKey → Bytes → σ × Bool)
    (state : DriveState σ) : Loop.Next (DriveState σ) (Except ReadError σ) :=
  match state.stack with
  | [] => .stop (.ok state.acc)
  | top :: rest => orStop do
      let count ← top.block.count
      if count ≤ top.index then return .go { state with stack := rest }
      let stack := { top with index := top.index + 1 } :: rest
      if top.block.header.isLeaf then self.takeItem root onItem state top stack
      else self.enterChild from_ onBlock state top stack

/-- The most turns a walk can still take. -/
def DriveState.turns (state : DriveState σ) : Nat := (state.stack.map Frame.turns).sum

variable {self : Volume} {root : TreeRoot} {from_ : DiskKey} {onBlock : σ → TreeBlock → σ × Bool}
  {onItem : σ → DiskKey → Bytes → σ × Bool}

/-- What one turn that goes on did: it left the top block, took one of its items, or entered one
of its children.
-/
theorem driveStep_go {state next : DriveState σ}
    (taken : self.driveStep root from_ onBlock onItem state = .go next)
    : ∃ top rest, state.stack = top :: rest ∧
        ((top.block.header.nritems ≤ top.index ∧ next.stack = rest
            ∧ next.visited = state.visited)
          ∨ (top.index < top.block.header.nritems
            ∧ next.stack = { top with index := top.index + 1 } :: rest
            ∧ next.visited = state.visited)
          ∨ (top.index < top.block.header.nritems
            ∧ ∃ child below start,
              self.childOf top.block top.below top.index state.visited
                = .ok ((child, below), next.visited)
              ∧ next.stack
                = ⟨child, start, below⟩ :: { top with index := top.index + 1 } :: rest)) := by
  unfold driveStep at taken
  split at taken
  next => cases taken
  next top rest shape =>
    refine ⟨top, rest, shape, ?_⟩
    obtain ⟨count, counted, taken⟩ := bind_eq_ok.mp (orStop_eq_go taken)
    obtain rfl := TreeBlock.count_eq_ok counted
    split at taken
    next done =>
      cases taken
      exact .inl ⟨done, rfl, rfl⟩
    next more =>
      refine .inr ?_
      split at taken
      next leaf =>
        obtain ⟨located, -, taken⟩ := bind_eq_ok.mp taken
        dsimp only at taken
        split at taken
        next => cases taken
        next =>
          obtain ⟨_, limited, taken⟩ := bind_eq_ok.mp taken
          cases taken
          exact .inl ⟨by omega, rfl, rfl⟩
      next node =>
        obtain ⟨⟨⟨child, below⟩, visited⟩, entered, taken⟩ := bind_eq_ok.mp taken
        dsimp only at taken
        split at taken
        next => cases taken
        next =>
          obtain ⟨start, -, taken⟩ := bind_eq_ok.mp taken
          cases taken
          exact .inr ⟨by omega, child, below, start, entered, rfl⟩

/-- A child is a level below its parent, at an address not visited before. -/
theorem childOf_eq_ok {parent child : TreeBlock} {below bound : Option DiskKey} {index : Nat}
    {visited entered : List Nat}
    (read : self.childOf parent below index visited = .ok ((child, bound), entered))
    : child.header.level + 1 = parent.header.level ∧ entered = child.header.bytenr :: visited
      ∧ child.header.bytenr ∉ visited
      ∧ ∃ pointer, parent.keyPtr index = .ok pointer
        ∧ parent.childBelow below index = .ok bound
        ∧ child.checkKeys (some pointer.key) bound = .ok ()
        ∧ ∀ others, child.header.bytenr ∉ others →
          self.childOf parent below index others
            = .ok ((child, bound), child.header.bytenr :: others) := by
  obtain ⟨pointer, pointed, read⟩ := bind_eq_ok.mp read
  obtain ⟨_, fresh, read⟩ := bind_eq_ok.mp read
  obtain ⟨bound_, bounded, read⟩ := bind_eq_ok.mp read
  obtain ⟨child_, fetched, read⟩ := bind_eq_ok.mp read
  obtain ⟨_, level, read⟩ := bind_eq_ok.mp read
  obtain ⟨_, packed, read⟩ := bind_eq_ok.mp read
  obtain ⟨_, keyed, read⟩ := bind_eq_ok.mp read
  obtain ⟨⟨rfl, rfl⟩, rfl⟩ : (child_ = child ∧ bound_ = bound)
      ∧ pointer.blockptr :: visited = entered := by
    simpa [pure, Except.pure] using read
  obtain ⟨address, -, -, -⟩ := readThrough_eq_ok fetched
  refine ⟨by simpa using level, by rw [address], ?_, pointer, pointed, bounded, keyed, ?_⟩
  · rw [address]
    simpa using fresh
  · intro others outside
    rw [address] at outside ⊢
    have fresh : refuseIf (others.contains pointer.blockptr)
        (ReadError.treeCycle pointer.blockptr) = .ok () := by
      simpa using outside
    simp only [childOf, pointed, ok_bind, fresh, bounded, fetched, level, packed, keyed]
    rfl

/-- Every turn of a walk leaves fewer to take: a child a level down is worth less than the entry
that led to it.
-/
theorem driveStep_lowers (self : Volume) (root : TreeRoot) (from_ : DiskKey)
    (onBlock : σ → TreeBlock → σ × Bool) (onItem : σ → DiskKey → Bytes → σ × Bool)
    : Loop.Lowers (self.driveStep root from_ onBlock onItem) DriveState.turns := by
  intro state next taken
  obtain ⟨top, rest, shape, ⟨-, left, -⟩ | ⟨more, took, -⟩ | ⟨more, child, below, start, read, entered⟩⟩ :=
    driveStep_go taken
  · simp only [DriveState.turns, shape, left, List.map_cons, List.sum_cons]
    have : 0 < top.turns := Nat.succ_pos _
    omega
  · simp only [DriveState.turns, shape, took, List.map_cons, List.sum_cons, Frame.turns_eq more]
    have := perEntry_pos top.block.header.level
    omega
  · simp only [DriveState.turns, shape, entered, List.map_cons, List.sum_cons, Frame.turns_eq more]
    have := Frame.turns_lt_perEntry ⟨child, start, below⟩ (childOf_eq_ok read).1
    omega

/-- The one walk: every block in the order a depth-first descent meets them, and every item from
`from_` on, until a visitor has had enough.
-/
def drive (self : Volume) (root : TreeRoot) (from_ : DiskKey)
    (onBlock : σ → TreeBlock → σ × Bool) (onItem : σ → DiskKey → Bytes → σ × Bool) (acc : σ)
    : Except ReadError σ := do
  let block ← self.readRoot root
  let taken := onBlock acc block
  if !taken.2 then return taken.1
  let start ← startIndex block from_
  Loop.total (self.driveStep root from_ onBlock onItem) DriveState.turns
    (self.driveStep_lowers root from_ onBlock onItem)
    ⟨[⟨block, start, none⟩], [root.bytenr], 0, taken.1⟩

/-- Visit every item at or after `from_`, in key order. -/
def forEachItemFrom (self : Volume) (root : TreeRoot) (from_ : DiskKey)
    (visit : σ → DiskKey → Bytes → σ × Bool) (acc : σ) : Except ReadError σ :=
  self.drive root from_ (fun acc _ => (acc, true)) visit acc

/-- Visit every item, in key order. -/
def forEachItem (self : Volume) (root : TreeRoot) (visit : σ → DiskKey → Bytes → σ × Bool)
    (acc : σ) : Except ReadError σ :=
  self.drive root DiskKey.min (fun acc _ => (acc, true)) visit acc

/-- Visit every block, in the order a depth-first descent meets them. -/
def forEachBlock (self : Volume) (root : TreeRoot) (visit : σ → TreeBlock → σ × Bool) (acc : σ)
    : Except ReadError σ :=
  self.drive root DiskKey.min visit (fun acc _ _ => (acc, true)) acc

end Drive

/-- The first item at or after `key`. -/
def findFirst (self : Volume) (root : TreeRoot) (key : DiskKey)
    : Except ReadError (Option Located) :=
  self.forEachItemFrom root key (fun _ key data => (some ⟨key, data⟩, false)) none

/-- The item stored under exactly `key`. -/
def findExact (self : Volume) (root : TreeRoot) (key : DiskKey)
    : Except ReadError (Option Located) := do
  return (← self.findFirst root key).filter (·.key == key)

/-- Hold an answer that is the last item of its leaf to the item after it, which is entered
through every guard a walk applies.
-/
def confirmLast (self : Volume) (root : TreeRoot) (answer key : DiskKey)
    : Except ReadError Unit := do
  let next ← self.forEachItemFrom root answer
    (fun next item _ => if item = answer then (next, true) else (some item, false)) none
  refuseIf (next.any (· ≤ key))
    (.badTreeBlock root.bytenr "a search for a key passed over an item at or before it")

/-- Where a search for the last item at or before a key has got to. -/
structure SeekState where
  block : TreeBlock
  below : Option DiskKey
  visited : List Nat

/-- The last item of a leaf at or before `key`, held to the item after it where the leaf ends
there and the tree goes on.
-/
def lastOfLeaf (self : Volume) (root : TreeRoot) (key : DiskKey) (block : TreeBlock)
    (below : Option DiskKey) : Except ReadError (Option Located) := do
  let at_ ← partition block key true
  if at_ = 0 then return none
  let index := at_ - 1
  let found ← block.located index
  if index + 1 = (← block.count) ∧ below.isSome then
    self.confirmLast root found.key key
  return some found

/-- One turn of that search: answer from a leaf, or enter the child of a node that a walk from the
key starts at.
-/
def seekStep (self : Volume) (root : TreeRoot) (key : DiskKey) (state : SeekState)
    : Loop.Next SeekState (Except ReadError (Option Located)) :=
  if state.block.header.isLeaf then
    .stop (self.lastOfLeaf root key state.block state.below)
  else orStop do
    let index ← startIndex state.block key
    let ((block, below), visited) ← self.childOf state.block state.below index state.visited
    return .go ⟨block, below, visited⟩

/-- A turn that goes on is a level down. -/
theorem seekStep_go {self : Volume} {root : TreeRoot} {key : DiskKey} {state next : SeekState}
    (taken : self.seekStep root key state = .go next)
    : ∃ index, self.childOf state.block state.below index state.visited
        = .ok ((next.block, next.below), next.visited) := by
  unfold seekStep at taken
  split at taken
  · cases taken
  · obtain ⟨index, -, taken⟩ := bind_eq_ok.mp (orStop_eq_go taken)
    obtain ⟨⟨⟨child, below⟩, visited⟩, entered, taken⟩ := bind_eq_ok.mp taken
    cases taken
    exact ⟨index, entered⟩

theorem seekStep_lowers (self : Volume) (root : TreeRoot) (key : DiskKey)
    : Loop.Lowers (self.seekStep root key) fun state => state.block.header.level := by
  intro state next taken
  obtain ⟨index, entered⟩ := seekStep_go taken
  exact Nat.lt_of_succ_le (Nat.le_of_eq (childOf_eq_ok entered).1)

/-- The last item at or before `key`: one descent. -/
def findAtOrBefore (self : Volume) (root : TreeRoot) (key : DiskKey)
    : Except ReadError (Option Located) := do
  let block ← self.readRoot root
  Loop.total (self.seekStep root key) (fun state => state.block.header.level)
    (self.seekStep_lowers root key) ⟨block, none, [root.bytenr]⟩

end Volume

end Ferrosys.Btrfs
