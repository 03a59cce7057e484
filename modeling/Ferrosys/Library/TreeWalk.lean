import Ferrosys.Library.Loop
import Ferrosys.Library.SearchTree
import Mathlib.Data.List.Flatten

/-! Walks of a tree that has to be read to be known. Reading an entry can fail, and a node is
entered once at most: a walk carries the addresses it has entered. A walk of every node that
succeeds has read a search tree, and every other walk or descent then reads the same one.
-/

namespace TreeWalk

open SearchTree

/-- What a walk meets, in order, and how it ends. -/
structure Trace (ε β τ : Type) where
  events : List β
  ending : Except ε τ

namespace Trace

variable {ε α β τ υ ρ : Type}

/-- Something that meets nothing. -/
def lift (ending : Except ε τ) : Trace ε β τ := ⟨[], ending⟩

/-- Meet one event and go on with `value`. -/
def emit (event : β) (value : τ) : Trace ε β τ := ⟨[event], .ok value⟩

/-- One walk after another, where the first does not fail. -/
def bind (first : Trace ε β τ) (rest : τ → Trace ε β υ) : Trace ε β υ :=
  match first.ending with
  | .ok value => ⟨first.events ++ (rest value).events, (rest value).ending⟩
  | .error error => ⟨first.events, .error error⟩

/-- Hand the events of a walk over until they stop being taken, and then say how it ended. -/
def replay (fail : ε → ρ) (handle : α → β → Loop.Next α ρ) (trace : Trace ε β τ) (acc : α)
    : Loop.Next (τ × α) ρ :=
  (Loop.feed handle trace.events acc).bind fun acc =>
    match trace.ending with
    | .ok value => .go (value, acc)
    | .error error => .stop (fail error)

/-- One walk after another is handed over one after the other. -/
theorem replay_bind (fail : ε → ρ) (handle : α → β → Loop.Next α ρ) (first : Trace ε β τ)
    (rest : τ → Trace ε β υ) (acc : α)
    : (first.bind rest).replay fail handle acc
      = (first.replay fail handle acc).bind fun reached =>
          (rest reached.1).replay fail handle reached.2 := by
  obtain ⟨events, ending⟩ := first
  cases ending with
  | error error =>
      simp only [bind, replay]
      cases Loop.feed handle events acc <;> rfl
  | ok value =>
      simp only [bind, replay, Loop.feed_append]
      cases Loop.feed handle events acc <;> rfl

theorem replay_lift_ok (fail : ε → ρ) (handle : α → β → Loop.Next α ρ) (value : τ) (acc : α)
    : (lift (.ok value) : Trace ε β τ).replay fail handle acc = .go (value, acc) := rfl

theorem replay_emit (fail : ε → ρ) (handle : α → β → Loop.Next α ρ) (event : β) (value : τ)
    (acc : α)
    : (emit event value : Trace ε β τ).replay fail handle acc
      = (handle acc event).bind fun acc => .go (value, acc) := by
  simp only [replay, emit, Loop.feed]
  cases handle acc event <;> rfl

/-- A walk in two parts that does not fail is two walks that do not. -/
theorem bind_eq_ok {first : Trace ε β τ} {rest : τ → Trace ε β υ} {value : υ}
    (ended : (first.bind rest).ending = .ok value)
    : ∃ middle, first.ending = .ok middle ∧ (rest middle).ending = .ok value
      ∧ (first.bind rest).events = first.events ++ (rest middle).events := by
  obtain ⟨events, ending⟩ := first
  cases ending with
  | error error => cases ended
  | ok middle => exact ⟨middle, rfl, ended, rfl⟩

/-- A walk goes on with what its first part ended in. -/
theorem bind_of_ok {first : Trace ε β τ} {rest : τ → Trace ε β υ} {middle : τ}
    (ended : first.ending = .ok middle)
    : first.bind rest = ⟨first.events ++ (rest middle).events, (rest middle).ending⟩ := by
  simp only [bind, ended]

end Trace

variable {B ι A ε κ τ β : Type}

/-- Visit so many entries from `first` on. -/
def entries (visit : Nat → τ → Trace ε β τ) : (remaining first : Nat) → τ → Trace ε β τ
  | 0, _, value => .lift (.ok value)
  | remaining + 1, first, value =>
      (visit first value).bind (entries visit remaining (first + 1))

/-- How the nodes of a tree are read: how many entries one holds and under which keys, what
bounds it, and what its entries are or lead to.
-/
structure Forest (B ι A ε κ : Type) where
  count : B → Nat
  keyAt : B → Nat → κ
  bound : B → Option κ
  item : B → Nat → Except ε ι
  child : B → Nat → List A → Except ε (B × List A)

namespace Forest

/-- The keys of a node. -/
def keysOf (F : Forest B ι A ε κ) (node : B) : List κ :=
  (List.range (F.count node)).map (F.keyAt node)

/-- A node whose keys may each stand before the next, and the last before its bound. -/
def Sound (F : Forest B ι A ε κ) (R : κ → κ → Prop) (node : B) : Prop :=
  (F.keysOf node ++ (F.bound node).toList).IsChain R

/-- What a reader checks of each child it enters: where it is has not been entered, its first key
is its parent's for it, and it stays before its parent's next.
-/
structure Enters (F : Forest B ι A ε κ) (R : κ → κ → Prop) (parent : B) (index : Nat)
    (address : A) (child : B) : Prop where
  again : ∀ seen, address ∉ seen → F.child parent index seen = .ok (child, address :: seen)
  sound : F.Sound R child
  first : (F.keysOf child).head? = some (F.keyAt parent index)
  bound : F.bound child
    = if index + 1 < F.count parent then some (F.keyAt parent (index + 1)) else F.bound parent

/-- What is relied on of a reader: it enters a child as `Enters` says, whatever else it has
entered, and an entry has the key its node gives it.
-/
structure Lawful (F : Forest B ι A ε κ) (R : κ → κ → Prop) (key : ι → κ) : Prop where
  child : ∀ parent index seen child entered, index < F.count parent →
    F.child parent index seen = .ok (child, entered) →
    ∃ address, address ∉ seen ∧ entered = address :: seen
      ∧ F.Enters R parent index address child
  item : ∀ node index entry, index < F.count node → F.item node index = .ok entry →
    key entry = F.keyAt node index

/-- Meet one entry of a leaf. -/
def visitItem (F : Forest B ι A ε κ) (node : B) (index : Nat) (seen : List A)
    : Trace ε (B ⊕ ι) (List A) :=
  (Trace.lift (F.item node index)).bind fun entry => .emit (.inr entry) seen

/-- Enter one child, and go on with what is below it. -/
def visitChild (F : Forest B ι A ε κ) (below : B → List A → Trace ε (B ⊕ ι) (List A))
    (node : B) (index : Nat) (seen : List A) : Trace ε (B ⊕ ι) (List A) :=
  (Trace.lift (F.child node index seen)).bind fun reached =>
    (Trace.emit (.inl reached.1) ()).bind fun _ => below reached.1 reached.2

/-- The walk of a node `n` levels above the leaves that starts each node where a search with
these two readings of the keys does.
-/
def walk (F : Forest B ι A ε κ) (lt le : κ → Bool)
    : (n : Nat) → B → List A → Trace ε (B ⊕ ι) (List A)
  | 0, node, seen =>
      let start := startOf lt le 0 (F.keysOf node)
      entries (F.visitItem node) (F.count node - start) start seen
  | n + 1, node, seen =>
      let start := startOf lt le (n + 1) (F.keysOf node)
      entries (F.visitChild (F.walk lt le n) node) (F.count node - start) start seen

/-- The walk of every entry of a node `n` levels above the leaves. -/
def sweep (F : Forest B ι A ε κ) (n : Nat) : B → List A → Trace ε (B ⊕ ι) (List A) :=
  F.walk (fun _ => false) (fun _ => false) n

/-- The walk of a node `n` levels above the leaves that starts where a search does, and from there
on takes every node it enters from its start.
-/
def steer (F : Forest B ι A ε κ) (lt le : κ → Bool)
    : (n : Nat) → B → List A → Trace ε (B ⊕ ι) (List A)
  | 0, node, seen => F.walk lt le 0 node seen
  | n + 1, node, seen =>
      let start := startOf lt le (n + 1) (F.keysOf node)
      match F.count node - start with
      | 0 => .lift (.ok seen)
      | remaining + 1 =>
          (F.visitChild (F.steer lt le n) node start seen).bind
            (entries (F.visitChild (F.sweep n) node) remaining (start + 1))

/-- The leaf a search descends to. -/
def descend (F : Forest B ι A ε κ) (lt le : κ → Bool) : (n : Nat) → B → List A → Except ε B
  | 0, node, _ => .ok node
  | n + 1, node, seen => do
      let reached ← F.child node (startOf lt le (n + 1) (F.keysOf node)) seen
      F.descend lt le n reached.1 reached.2

/-- The tree a reader reads below a node. -/
def Represents (F : Forest B ι A ε κ) (R : κ → κ → Prop)
    : (n : Nat) → B → Tree κ A ι n → Prop
  | 0, node, entries =>
      List.length entries = F.count node
      ∧ ∀ (index : Nat) (entry : ι), entries[index]? = some entry →
        F.item node index = .ok entry
  | n + 1, node, branches =>
      List.length branches = F.count node
      ∧ ∀ (index : Nat) (branch : Branch κ A (Tree κ A ι n)), branches[index]? = some branch →
        branch.key = F.keyAt node index
        ∧ ∃ child, F.Enters R node index branch.address child
          ∧ F.Represents R n child branch.below

/-- The entries among what a walk met. -/
def found (events : List (B ⊕ ι)) : List ι := events.filterMap Sum.getRight?

@[simp] theorem found_nil : found ([] : List (B ⊕ ι)) = [] := rfl

@[simp] theorem found_inl (node : B) (rest : List (B ⊕ ι)) : found (.inl node :: rest) = found rest :=
  rfl

@[simp] theorem found_inr (entry : ι) (rest : List (B ⊕ ι))
    : found (.inr entry :: rest) = entry :: found rest := rfl

theorem found_append (first second : List (B ⊕ ι))
    : found (first ++ second) = found first ++ found second :=
  List.filterMap_append

/-- A search for what is before every key starts at the first entry. -/
theorem startOf_never (n : Nat) (keys : List κ)
    : startOf (fun _ => false) (fun _ => false) n keys = 0 := by
  cases n <;> cases keys <;> rfl

/-- A walk that starts at the first entry is one of every entry, by induction on the height. -/
theorem steer_never (F : Forest B ι A ε κ) (n : Nat)
    : F.steer (fun _ => false) (fun _ => false) n = F.sweep n := by
  induction n with
  | zero => rfl
  | succ n ih =>
      funext node seen
      simp only [steer, sweep, walk, startOf_never, Nat.sub_zero, ih]
      cases F.count node <;> rfl

/-- All entries are met from the first entry on. -/
theorem itemsFrom_never (key : ι → κ) (n : Nat) (tree : Tree κ A ι n)
    : itemsFrom (fun _ => false) (fun _ => false) key n tree = items n tree := by
  induction n with
  | zero => simp only [itemsFrom, startOf_never, List.drop_zero, items]
  | succ n ih => simp only [itemsFrom, startOf_never, List.drop_zero, items, ih]

section Reading

variable {F : Forest B ι A ε κ} {R : κ → κ → Prop} {key : ι → κ}

theorem keysOf_length (F : Forest B ι A ε κ) (node : B)
    : (F.keysOf node).length = F.count node := by
  rw [keysOf, List.length_map, List.length_range]

/-- The keys of a tree are those its node was read under. -/
theorem Represents.keys_eq (law : F.Lawful R key) {n : Nat} {node : B} {tree : Tree κ A ι n}
    (represents : F.Represents R n node tree)
    : keys key n tree = F.keysOf node := by
  cases n with
  | zero =>
      obtain ⟨length, reads⟩ := represents
      apply List.ext_getElem (by rw [keys, List.length_map, length, keysOf_length])
      intro index inside _
      rw [keys, List.length_map] at inside
      have read := reads index _ (List.getElem?_eq_getElem inside)
      simp only [keys, List.getElem_map]
      rw [law.item _ _ _ (by omega) read]
      simp [keysOf]
  | succ n =>
      obtain ⟨length, reads⟩ := represents
      apply List.ext_getElem (by rw [keys, List.length_map, length, keysOf_length])
      intro index inside _
      rw [keys, List.length_map] at inside
      have read := (reads index _ (List.getElem?_eq_getElem inside)).1
      simp only [keys, List.getElem_map]
      rw [read]
      simp [keysOf]

/-- An entry met was read, and is all that was met. -/
theorem visitItem_eq_ok {node : B} {index : Nat} {seen entered : List A}
    (ended : (F.visitItem node index seen).ending = .ok entered)
    : ∃ entry, F.item node index = .ok entry ∧ entered = seen
      ∧ (F.visitItem node index seen).events = [.inr entry] := by
  obtain ⟨entry, read, last, events⟩ := Trace.bind_eq_ok ended
  obtain rfl := Except.ok.inj last
  exact ⟨entry, read, rfl, events⟩

/-- A child met was entered, and below it is what was met. -/
theorem visitChild_eq_ok {below : B → List A → Trace ε (B ⊕ ι) (List A)} {node : B} {index : Nat}
    {seen entered : List A} (ended : (F.visitChild below node index seen).ending = .ok entered)
    : ∃ child reached, F.child node index seen = .ok (child, reached)
      ∧ (below child reached).ending = .ok entered
      ∧ (F.visitChild below node index seen).events
        = .inl child :: (below child reached).events := by
  obtain ⟨⟨child, reached⟩, read, last, events⟩ := Trace.bind_eq_ok ended
  obtain ⟨-, -, last, met⟩ := Trace.bind_eq_ok last
  refine ⟨child, reached, read, last, ?_⟩
  rw [visitChild, events, met]
  rfl

/-- The entries of a leaf that was walked to its end, by induction on how many were left. -/
theorem reads_items {node : B} (remaining first : Nat) {seen entered : List A}
    (ended : (entries (F.visitItem node) remaining first seen).ending = .ok entered)
    : ∃ tail : List ι, tail.length = remaining
      ∧ (∀ (index : Nat) (entry : ι), tail[index]? = some entry →
        F.item node (first + index) = .ok entry)
      ∧ tail = found (entries (F.visitItem node) remaining first seen).events
      ∧ entered = seen := by
  induction remaining generalizing first seen with
  | zero => exact ⟨[], rfl, nofun, rfl, (Except.ok.inj ended).symm⟩
  | succ remaining ih =>
      obtain ⟨middle, met, rest, events⟩ := Trace.bind_eq_ok ended
      obtain ⟨entry, read, rfl, one⟩ := visitItem_eq_ok met
      obtain ⟨tail, length, reads, same, rfl⟩ := ih (first + 1) rest
      refine ⟨entry :: tail, by rw [List.length_cons, length], ?_, ?_, rfl⟩
      · intro index other at_
        cases index with
        | zero =>
            obtain rfl := Option.some.inj at_
            exact read
        | succ index =>
            rw [← Nat.add_assoc, Nat.add_right_comm]
            exact reads index other at_
      · rw [entries, events, one, found_append, ← same]
        rfl

/-- The branches of a node that was walked to its end, by induction on how many were left. -/
theorem reads_branches (law : F.Lawful R key) {lt le : κ → Bool} {n : Nat} {node : B}
    (below : ∀ child seen entered, F.Sound R child →
      (F.walk lt le n child seen).ending = .ok entered → seen.Nodup →
      ∃ tree, F.Represents R n child tree ∧ Ordered R key n tree (F.bound child)
        ∧ keys key n tree = F.keysOf child
        ∧ items n tree = found (F.walk lt le n child seen).events
        ∧ entered = (addresses n tree).reverse ++ seen ∧ entered.Nodup)
    (remaining first : Nat) {seen entered : List A} (all : first + remaining = F.count node)
    (ended : (entries (F.visitChild (F.walk lt le n) node)
      remaining first seen).ending = .ok entered)
    (distinct : seen.Nodup)
    : ∃ tail : List (Branch κ A (Tree κ A ι n)), tail.length = remaining
      ∧ (∀ (index : Nat) (branch : Branch κ A (Tree κ A ι n)), tail[index]? = some branch →
        branch.key = F.keyAt node (first + index)
        ∧ ∃ child, F.Enters R node (first + index) branch.address child
          ∧ F.Represents R n child branch.below)
      ∧ Placed (fun tree => (keys key n tree).head?) (Ordered R key n) tail (F.bound node)
      ∧ (tail.flatMap fun branch => items n branch.below)
        = found (entries (F.visitChild (F.walk lt le n) node)
          remaining first seen).events
      ∧ entered
        = (tail.flatMap fun branch => branch.address :: addresses n branch.below).reverse ++ seen
      ∧ entered.Nodup := by
  induction remaining generalizing first seen with
  | zero =>
      obtain rfl := Except.ok.inj ended
      exact ⟨[], rfl, nofun, trivial, rfl, rfl, distinct⟩
  | succ remaining ih =>
      obtain ⟨middle, met, rest, events⟩ := Trace.bind_eq_ok ended
      obtain ⟨child, reached, read, under, one⟩ := visitChild_eq_ok met
      obtain ⟨address, fresh, rfl, enters⟩ := law.child _ _ _ _ _ (by omega) read
      obtain ⟨tree, represents, ordered, same, inside, rfl, apart⟩ :=
        below child _ _ enters.sound under (List.nodup_cons.mpr ⟨fresh, distinct⟩)
      obtain ⟨tail, length, reads, placed, later, rfl, last⟩ := ih (first + 1) (by omega) rest apart
      refine ⟨⟨F.keyAt node first, address, tree⟩ :: tail, by rw [List.length_cons, length], ?_,
        ⟨?_, ?_, placed⟩, ?_, ?_, last⟩
      · intro index branch at_
        cases index with
        | zero =>
            obtain rfl := Option.some.inj at_
            exact ⟨rfl, child, enters, represents⟩
        | succ index =>
            rw [← Nat.add_assoc, Nat.add_right_comm]
            exact reads index branch at_
      · exact (congrArg List.head? same).trans enters.first
      · have bound : nextKey tail (F.bound node) = F.bound child := by
          rw [enters.bound, nextKey]
          cases tail with
          | nil => rw [if_neg (by simp at length; omega)]; rfl
          | cons next others =>
              rw [List.head?_cons, Option.map_some, (reads 0 next rfl).1, if_pos (by simp at length; omega)]
              rfl
        rw [bound]
        exact ordered
      · rw [entries, events, one, List.flatMap_cons, found_append, ← later, inside]
        rfl
      · simp

/-- A walk that starts every node at its first entry and succeeds has read a tree: it is in order,
its entries are those the walk met, and the walk entered each of its nodes once. By induction on
the height.
-/
theorem Lawful.reads (law : F.Lawful R key) {lt le : κ → Bool}
    (least : ∀ n node, F.Sound R node → startOf lt le n (F.keysOf node) = 0)
    (n : Nat) (node : B) (seen entered : List A) (sound : F.Sound R node)
    (ended : (F.walk lt le n node seen).ending = .ok entered)
    (distinct : seen.Nodup)
    : ∃ tree, F.Represents R n node tree ∧ Ordered R key n tree (F.bound node)
      ∧ keys key n tree = F.keysOf node
      ∧ items n tree = found (F.walk lt le n node seen).events
      ∧ entered = (addresses n tree).reverse ++ seen ∧ entered.Nodup := by
  induction n generalizing node seen entered with
  | zero =>
      simp only [walk, least _ node sound, Nat.sub_zero] at ended ⊢
      obtain ⟨entries, length, reads, same, rfl⟩ := reads_items _ _ ended
      have represents : F.Represents R 0 node entries :=
        ⟨length, fun index entry at_ => by simpa using reads index entry at_⟩
      have keyed := represents.keys_eq law
      refine ⟨entries, represents, ?_, keyed, same, rfl, distinct⟩
      rw [Ordered, show List.map key entries = F.keysOf node from keyed]
      exact sound
  | succ n ih =>
      simp only [walk, least _ node sound, Nat.sub_zero] at ended ⊢
      obtain ⟨branches, length, reads, placed, met, last, apart⟩ :=
        reads_branches law ih _ _ (Nat.zero_add _) ended distinct
      have represents : F.Represents R (n + 1) node branches :=
        ⟨length, fun index branch at_ => by simpa using reads index branch at_⟩
      have keyed := represents.keys_eq law
      refine ⟨branches, represents, ⟨?_, placed⟩, keyed, met, last, apart⟩
      rw [show List.map Branch.key branches = F.keysOf node from keyed]
      exact sound

/-- Entries that read are all met, by induction on them. -/
theorem walks_items {node : B} (tail : List ι) (first : Nat) (seen : List A)
    (reads : ∀ (index : Nat) (entry : ι), tail[index]? = some entry →
      F.item node (first + index) = .ok entry)
    : (entries (F.visitItem node) tail.length first seen).ending = .ok seen
      ∧ found (entries (F.visitItem node) tail.length first seen).events = tail := by
  induction tail generalizing first with
  | nil => exact ⟨rfl, rfl⟩
  | cons entry rest ih =>
      have read := reads 0 entry rfl
      rw [Nat.add_zero] at read
      obtain ⟨ended, met⟩ := ih (first + 1) fun index other at_ => by
        rw [Nat.add_right_comm]
        exact reads (index + 1) other at_
      have one : F.visitItem node first seen = ⟨[.inr entry], .ok seen⟩ := by
        rw [visitItem, read]
        rfl
      rw [List.length_cons, entries, one, Trace.bind_of_ok rfl]
      refine ⟨ended, ?_⟩
      rw [found_append, met]
      rfl

/-- Branches that are entered are all walked, by induction on them. -/
theorem walks_branches {n : Nat} {lt le : κ → Bool} {node : B}
    (below : ∀ child tree seen, F.Represents R n child tree → (addresses n tree).Nodup →
      (∀ a ∈ addresses n tree, a ∉ seen) →
      ∃ entered, (F.walk lt le n child seen).ending = .ok entered
        ∧ found (F.walk lt le n child seen).events = itemsFrom lt le key n tree
        ∧ ∀ a ∈ entered, a ∈ seen ∨ a ∈ addresses n tree)
    (tail : List (Branch κ A (Tree κ A ι n))) (first : Nat) (seen : List A)
    (reads : ∀ (index : Nat) (branch : Branch κ A (Tree κ A ι n)), tail[index]? = some branch →
      ∃ child, F.Enters R node (first + index) branch.address child
        ∧ F.Represents R n child branch.below)
    (distinct : (tail.flatMap fun branch => branch.address :: addresses n branch.below).Nodup)
    (fresh : ∀ a ∈ tail.flatMap fun branch => branch.address :: addresses n branch.below,
      a ∉ seen)
    : ∃ entered,
        (entries (F.visitChild (F.walk lt le n) node) tail.length first seen).ending = .ok entered
        ∧ found (entries (F.visitChild (F.walk lt le n) node) tail.length first seen).events
          = (tail.flatMap fun branch => itemsFrom lt le key n branch.below)
        ∧ ∀ a ∈ entered, a ∈ seen
          ∨ a ∈ tail.flatMap fun branch => branch.address :: addresses n branch.below := by
  induction tail generalizing first seen with
  | nil => exact ⟨seen, rfl, rfl, fun a member => .inl member⟩
  | cons branch rest ih =>
      obtain ⟨child, enters, represents⟩ := reads 0 branch rfl
      rw [List.flatMap_cons] at distinct fresh
      obtain ⟨here, later, apart⟩ := List.nodup_append.mp distinct
      obtain ⟨outside, inner⟩ := List.nodup_cons.mp here
      have entered := enters.again seen (fresh _ (by simp))
      obtain ⟨reached, ended, met, among⟩ := below child branch.below (branch.address :: seen)
        represents inner fun a member => by
          rw [List.mem_cons, not_or]
          exact ⟨fun same => outside (same ▸ member), fresh a (by simp [member])⟩
      obtain ⟨last, done, others, all⟩ := ih (first + 1) reached
        (fun index other at_ => by
          rw [Nat.add_right_comm]
          exact reads (index + 1) other at_) later fun a member held => by
            rcases among a held with held | held
            · rcases List.mem_cons.mp held with rfl | held
              · exact apart _ List.mem_cons_self _ member rfl
              · exact fresh a (List.mem_append_right _ member) held
            · exact apart _ (List.mem_cons_of_mem _ held) _ member rfl
      have one : F.visitChild (F.walk lt le n) node first seen
          = ⟨.inl child :: (F.walk lt le n child (branch.address :: seen)).events,
            .ok reached⟩ := by
        rw [visitChild, show F.child node first seen = _ from entered,
          Trace.bind_of_ok rfl, Trace.bind_of_ok rfl, ended]
        rfl
      rw [List.length_cons, entries, one, Trace.bind_of_ok rfl]
      refine ⟨last, done, ?_, fun a held => ?_⟩
      · rw [found_append, others, List.flatMap_cons, ← met]
        rfl
      · rw [List.flatMap_cons]
        rcases all a held with held | held
        · rcases among a held with held | held
          · rcases List.mem_cons.mp held with rfl | held
            · exact .inr (List.mem_append_left _ List.mem_cons_self)
            · exact .inl held
          · exact .inr (List.mem_append_left _ (List.mem_cons_of_mem _ held))
        · exact .inr (List.mem_append_right _ held)

/-- A walk of a tree that reads, from wherever it starts each node, meets what the tree has from
there on. By induction on the height.
-/
theorem Represents.walk (law : F.Lawful R key) (lt le : κ → Bool) (n : Nat) (node : B)
    (tree : Tree κ A ι n) (seen : List A) (represents : F.Represents R n node tree)
    (distinct : (addresses n tree).Nodup) (fresh : ∀ a ∈ addresses n tree, a ∉ seen)
    : ∃ entered, (F.walk lt le n node seen).ending = .ok entered
      ∧ found (F.walk lt le n node seen).events = itemsFrom lt le key n tree
      ∧ ∀ a ∈ entered, a ∈ seen ∨ a ∈ addresses n tree := by
  induction n generalizing node seen with
  | zero =>
      have keyed := represents.keys_eq law
      obtain ⟨length, reads⟩ := represents
      have left : F.count node - startOf lt le 0 (F.keysOf node)
          = (List.drop (startOf lt le 0 (F.keysOf node)) tree).length := by
        rw [List.length_drop, length]
      obtain ⟨ended, met⟩ := walks_items (List.drop (startOf lt le 0 (F.keysOf node)) tree)
        (startOf lt le 0 (F.keysOf node)) seen fun index entry at_ => by
          rw [List.getElem?_drop] at at_
          exact reads _ _ at_
      rw [Forest.walk, left]
      refine ⟨seen, ended, ?_, fun a member => .inl member⟩
      rw [met, ← keyed]
      rfl
  | succ n ih =>
      have keyed := represents.keys_eq law
      obtain ⟨length, reads⟩ := represents
      have left : F.count node - startOf lt le (n + 1) (F.keysOf node)
          = (List.drop (startOf lt le (n + 1) (F.keysOf node)) tree).length := by
        rw [List.length_drop, length]
      have part := (List.drop_sublist (startOf lt le (n + 1) (F.keysOf node)) tree).flatMap
        fun branch => branch.address :: addresses n branch.below
      obtain ⟨entered, ended, met, among⟩ := walks_branches
        (fun child tree seen represents distinct fresh => ih child tree seen represents distinct fresh)
        (List.drop (startOf lt le (n + 1) (F.keysOf node)) tree)
        (startOf lt le (n + 1) (F.keysOf node)) seen
        (fun index branch at_ => by
          rw [List.getElem?_drop] at at_
          exact (reads _ _ at_).2)
        (distinct.sublist part) fun a member => fresh a (part.subset member)
      rw [Forest.walk, left]
      refine ⟨entered, ended, ?_, fun a held => (among a held).imp_right fun held =>
        part.subset held⟩
      rw [met, ← keyed]
      rfl

/-- A walk of a tree that reads, from where a search starts, meets the entries from the target on.
By induction on the height: the entries the search leaves for later are all met.
-/
theorem Represents.steer {S : κ → κ → Prop} (law : F.Lawful R key) {lt le : κ → Bool}
    (cuts : Cuts S lt le) (n : Nat) (node : B) (tree : Tree κ A ι n) (seen : List A)
    {bound : Option κ} (represents : F.Represents R n node tree)
    (ordered : Ordered S key n tree bound) (distinct : (addresses n tree).Nodup)
    (fresh : ∀ a ∈ addresses n tree, a ∉ seen)
    : ∃ entered, (F.steer lt le n node seen).ending = .ok entered
      ∧ found (F.steer lt le n node seen).events
        = ((items n tree).dropWhile fun entry => lt (key entry))
      ∧ ∀ a ∈ entered, a ∈ seen ∨ a ∈ addresses n tree := by
  induction n generalizing node seen bound with
  | zero =>
      rw [← ordered.itemsFrom_eq cuts]
      exact represents.walk law lt le 0 node tree seen distinct fresh
  | succ n ih =>
      have keyed := represents.keys_eq law
      obtain ⟨length, reads⟩ := represents
      by_cases empty : tree = []
      · subst empty
        have none : F.count node - startOf lt le (n + 1) (F.keysOf node) = 0 := by
          rw [← length]
          exact Nat.zero_sub _
        refine ⟨seen, ?_, ?_, fun a held => .inl held⟩
        all_goals rw [Forest.steer, none]; rfl
      · obtain ⟨passed, branch, later, split, starts, steered, after⟩ := ordered.branches cuts empty
        have order := ordered
        rw [split] at order
        let start := startOf lt le (n + 1) (F.keysOf node)
        have dropped : List.drop start tree = branch :: later := by
          rw [← starts]
          exact congrArg (fun keys => List.drop (startOf lt le (n + 1) keys) tree) keyed.symm
        have at_ (index : Nat) : tree[start + index]? = (branch :: later)[index]? := by
          rw [← dropped, List.getElem?_drop]
        have left : F.count node - start = later.length + 1 := by
          rw [← length, ← List.length_drop, dropped, List.length_cons]
        obtain ⟨-, child, enters, below⟩ := reads start branch (at_ 0)
        have part : ((branch :: later).flatMap fun branch =>
            branch.address :: addresses n branch.below).Sublist (addresses (n + 1) tree) := by
          rw [← dropped]
          exact (List.drop_sublist start tree).flatMap _
        have apart := distinct.sublist part
        rw [List.flatMap_cons] at part apart
        obtain ⟨here, others, between⟩ := List.nodup_append.mp apart
        obtain ⟨outside, inner⟩ := List.nodup_cons.mp here
        obtain ⟨next, within, -⟩ := order.2.after branch (by simp)
        obtain ⟨reached, ended, met, among⟩ := ih child branch.below (branch.address :: seen) below
          within inner fun a member => by
            rw [List.mem_cons, not_or]
            exact ⟨fun same => outside (same ▸ member),
              fresh a (part.subset (by simp [member]))⟩
        obtain ⟨last, done, rest, all⟩ := walks_branches
          (fun child tree seen represents distinct fresh =>
            represents.walk law (fun _ => false) (fun _ => false) n child tree seen distinct fresh)
          later (start + 1) reached
          (fun index other found => (reads _ _ (by
            rw [Nat.add_assoc, Nat.add_comm 1, at_]
            exact found)).2)
          others fun a member held => by
            rcases among a held with held | held
            · rcases List.mem_cons.mp held with rfl | held
              · exact between _ List.mem_cons_self _ member rfl
              · exact fresh a (part.subset (List.mem_append_right _ member)) held
            · exact between _ (List.mem_cons_of_mem _ held) _ member rfl
        have one : F.visitChild (F.steer lt le n) node start seen
            = ⟨.inl child :: (F.steer lt le n child (branch.address :: seen)).events,
              .ok reached⟩ := by
          rw [visitChild, enters.again seen (fresh _ (part.subset (by simp))),
            Trace.bind_of_ok rfl, Trace.bind_of_ok rfl, ended]
          rfl
        have whole : F.steer lt le (n + 1) node seen
            = ⟨.inl child :: (F.steer lt le n child (branch.address :: seen)).events
                ++ (entries (F.visitChild (F.sweep n) node) later.length (start + 1) reached).events,
              .ok last⟩ := by
          rw [Forest.steer, left]
          change (F.visitChild (F.steer lt le n) node start seen).bind _ = _
          rw [one, Trace.bind_of_ok rfl]
          exact congrArg _ done
        refine ⟨last, by rw [whole], ?_, fun a held => ?_⟩
        · rw [whole, split, order.dropWhile_items cuts steered after, found_append]
          simp only [itemsFrom_never] at rest
          exact congrArg₂ _ met rest
        · rcases all a held with held | held
          · rcases among a held with held | held
            · rcases List.mem_cons.mp held with rfl | held
              · exact .inr (part.subset (by simp))
              · exact .inl held
            · exact .inr (part.subset (by simp [held]))
          · exact .inr (part.subset (List.mem_append_right _ held))

/-- A descent of a tree that reads finds the leaf of the last entry at or before the target,
unless a node on the way has no child to enter. By induction on the height: a node that was
entered has one.
-/
theorem Represents.descend {S : κ → κ → Prop} (law : F.Lawful R key) {lt le : κ → Bool}
    (cuts : Cuts S lt le)
    (n : Nat) (node : B) (tree : Tree κ A ι n) (seen : List A)
    {bound : Option κ} (represents : F.Represents R n node tree)
    (ordered : Ordered S key n tree bound)
    (distinct : (addresses n tree).Nodup) (fresh : ∀ a ∈ addresses n tree, a ∉ seen)
    (nonempty : 0 < n → F.count node ≠ 0)
    : ∃ leaf, ∃ entries : Tree κ A ι 0, F.descend lt le n node seen = .ok leaf
      ∧ F.Represents R 0 leaf entries
      ∧ (List.map key entries).IsChain S
      ∧ floor lt le key n tree = floor lt le key 0 entries := by
  induction n generalizing node seen bound with
  | zero => exact ⟨node, tree, rfl, represents, List.IsChain.left_of_append ordered, rfl⟩
  | succ n ih =>
      have keyed := represents.keys_eq law
      obtain ⟨length, reads⟩ := represents
      have some : tree ≠ [] := by
        rintro rfl
        exact nonempty (Nat.succ_pos n) length.symm
      obtain ⟨passed, entered, later, split, starts, -, -⟩ := ordered.branches cuts some
      let start := startOf lt le (n + 1) (List.map Branch.key tree)
      have at_ : tree[start]? = Option.some entered := by
        have := congrArg List.head? starts
        rwa [List.head?_drop] at this
      obtain ⟨same, child, enters, below⟩ := reads start entered at_
      have member : entered ∈ tree := List.mem_of_getElem? at_
      have inner : (entered.address :: addresses n entered.below).Sublist
          (addresses (n + 1) tree) := by
        rw [addresses, split, List.flatMap_append, List.flatMap_cons]
        exact (List.sublist_append_left _ _).trans (List.sublist_append_right _ _)
      obtain ⟨outside, apart⟩ := List.nodup_cons.mp (distinct.sublist inner)
      obtain ⟨next, within, -⟩ := ordered.2.after entered member
      obtain ⟨leaf, entries, reached, leafs, sorted, found⟩ := ih child entered.below
        (entered.address :: seen) below within apart
        (fun a held => by
          rw [List.mem_cons, not_or]
          exact ⟨fun same => outside (same ▸ held),
            fresh a (inner.subset (List.mem_cons_of_mem _ held))⟩)
        fun _ empty => by
          have first := enters.first
          rw [Forest.keysOf, empty] at first
          cases first
      refine ⟨leaf, entries, ?_, leafs, sorted, ?_⟩
      · have entering := enters.again seen (fresh _ (inner.subset List.mem_cons_self))
        rw [Forest.descend, ← keyed]
        rw [show F.child node (startOf lt le (n + 1) (keys key (n + 1) tree)) seen = _ from entering]
        exact reached
      · rw [← found]
        simp only [floor, starts, List.head?_cons, Option.bind_some]

end Reading

end Forest

end TreeWalk
