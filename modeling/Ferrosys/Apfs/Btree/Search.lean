import Ferrosys.Apfs.Btree.Walk
import Mathlib.Data.List.Nodup

/-! Searches of a tree agree with a walk of all of it: one that meets every node has read a search
tree, and every search steers through that same tree.
-/

namespace Ferrosys.Apfs

open Checked Loop SearchTree TreeWalk

section Target

/-- How a target reads a key: before it, and not after it. -/
def Target.before (target : Target) (key : Bytes) : Bool :=
  match target key with
  | .ok .lt => true
  | _ => false

def Target.notAfter (target : Target) (key : Bytes) : Bool :=
  match target key with
  | .ok .lt | .ok .eq => true
  | _ => false

/-- A target that has a place among these records: it answers for each of them, and a record that is
not after it has every earlier one before it.
-/
structure Locates (target : Target) (records : List Record) : Prop where
  answers : ∀ record ∈ records, ∃ found, target record.1 = .ok found
  before : records.Pairwise fun a b =>
    target.notAfter b.1 = true → target.before a.1 = true

theorem Target.answers {target : Target} {keys : List Bytes}
    (answers : ∀ key ∈ keys, ∃ found, target key = .ok found)
      : Reading.Answers target target.before target.notAfter keys := by
  intro key member
  obtain ⟨found, answered⟩ := answers key member
  refine ⟨found, answered, ?_, ?_⟩
  · rw [Target.before, answered]
    cases found <;> rfl
  · rw [Target.notAfter, answered]
    cases found <;> rfl

/-- The order in which a target takes keys: what is not after it has what stands earlier before
it.
-/
def Target.Along (target : Target) (a b : Bytes) : Prop :=
  target.notAfter b = true → target.before a = true

theorem Target.cuts (target : Target) : Cuts target.Along target.before target.notAfter where
  before := fun _ _ before => before
  weaken := by
    intro key before
    unfold Target.before at before
    unfold Target.notAfter
    split at before
    next answered => rw [answered]
    next => cases before

end Target

namespace Reading

section Visit

variable {σ : Type} {limit : Nat}
  {visit : σ → Bytes → Bytes → Except ReadError (σ × Bool)}

/-- Hand records to a visitor until it has had enough, or more than the limit were taken. -/
def visitAll (limit : Nat) (visit : σ → Bytes → Bytes → Except ReadError (σ × Bool))
    : (visited : Nat) → List Record → σ → Except ReadError σ
  | _, [], acc => .ok acc
  | visited, record :: rest, acc => do
      let taken ← visit acc record.1 record.2
      if !taken.2 then return taken.1
      refuseIf (limit < visited + 1) (.tooManyEntries limit)
      visitAll limit visit (visited + 1) rest taken.1

/-- Hand records to a visitor until it has had enough. -/
def visitEach (visit : σ → Bytes → Bytes → Except ReadError (σ × Bool))
    : List Record → σ → Except ReadError σ
  | [], acc => .ok acc
  | record :: rest, acc => do
      let taken ← visit acc record.1 record.2
      if !taken.2 then return taken.1
      visitEach visit rest taken.1

/-- A limit that is not below how many records there are is no limit, by induction on the
records.
-/
theorem visitAll_of_few {records : List Record} {visited : Nat} (acc : σ)
    (few : visited + records.length ≤ limit)
    : visitAll limit visit visited records acc = visitEach visit records acc := by
  induction records generalizing visited acc with
  | nil => rfl
  | cons record rest ih =>
      rw [List.length_cons] at few
      have within : ¬ limit < visited + 1 := by omega
      rw [visitAll, visitEach]
      cases visit acc record.1 record.2 with
      | error error => rfl
      | ok taken =>
          simp only [ok_bind, refuseIf, decide_eq_false within, Bool.false_eq_true, if_false]
          rw [ih taken.1 (by omega)]

/-- A walk hands over the records it meets, by induction on what it meets. -/
theorem answer_records (events : List (Frame ⊕ Located)) (seen : List Nat) (visited : Nat) (acc : σ)
    : (answer (feed (handle limit visit fun acc _ => .ok acc) events (visited, acc))
        (.ok seen)).map Prod.snd
      = visitAll limit visit visited ((Forest.found events).map Located.record) acc := by
  induction events generalizing visited acc with
  | nil => rfl
  | cons event rest ih =>
      cases event with
      | inl frame => exact ih visited acc
      | inr located =>
          simp only [feed, handle, Forest.found_inr, List.map_cons, visitAll, Located.record]
          cases visit acc located.key located.value with
          | error error => rfl
          | ok taken =>
              simp only [ok_bind]
              cases enough : taken.2 with
              | false => rfl
              | true =>
                  by_cases crowded : limit < visited + 1
                  · simp only [crowded, decide_true, refuseIf]
                    rfl
                  · simp only [crowded, decide_false, refuseIf, Bool.not_true, Bool.false_eq_true,
                      if_false]
                    exact ih (visited + 1) taken.1

/-- Collect every record. -/
def collect (acc : List Record) (key value : Bytes) : Except ReadError (List Record × Bool) :=
  .ok (acc ++ [(key, value)], true)

/-- A visit that collects every record answers with them all, where they are within the limit. -/
theorem visitAll_collect {records acc all : List Record} {visited : Nat}
    (counted : visited ≤ limit) (walked : visitAll limit collect visited records acc = .ok all)
    : all = acc ++ records ∧ visited + records.length ≤ limit := by
  induction records generalizing visited acc with
  | nil =>
      obtain rfl := Except.ok.inj walked
      exact ⟨(List.append_nil acc).symm, counted⟩
  | cons record rest ih =>
      obtain ⟨_, taken, walked⟩ := bind_eq_ok.mp walked
      obtain rfl := Except.ok.inj taken
      obtain ⟨_, within, walked⟩ := bind_eq_ok.mp walked
      rw [refuseIf_eq_ok, decide_eq_false_iff_not] at within
      obtain ⟨same, few⟩ := ih (Nat.le_of_not_lt within) walked
      refine ⟨?_, ?_⟩
      · rw [same, List.append_assoc]
        rfl
      · rw [List.length_cons]
        omega

/-- A visit that collects every record stops at a failure alone. -/
theorem feed_collect_stop (events : List (Frame ⊕ Located)) (state : Nat × List Record)
    (result : Option Nat × List Record)
    : feed (handle limit collect fun acc _ => .ok acc) events state ≠ .stop (.ok result) := by
  induction events generalizing state with
  | nil =>
      intro same
      cases same
  | cons event rest ih =>
      cases event with
      | inl frame => exact ih state
      | inr located =>
          by_cases crowded : limit < state.1 + 1
          · simp only [feed, handle, collect, ok_bind, crowded, decide_true, refuseIf]
            intro same
            cases same
          · simp only [feed, handle, collect, ok_bind, crowded, decide_false, refuseIf]
            exact ih _

end Visit

section Agreement

variable {self : Reading}

/-- The tree below a root that a walk of every node has read, and its records. -/
structure ReadTree (reading : Reading) (records : List Record) where
  root : Frame
  read : reading.readRoot = .ok root
  tree : Tree Bytes Nat Located root.level
  represents : reading.forest.Represents reading.tree.order.Before _ root tree
  ordered : Ordered reading.tree.order.Before Located.key _ tree none
  same : (SearchTree.items _ tree).map Located.record = records
  distinct : (root.block :: addresses _ tree).Nodup

/-- Every record of a tree, as a walk of all of it collects them. -/
def allRecords (self : Reading) (maxWalkEntries : Nat) : Except ReadError (List Record) :=
  self.forEach maxWalkEntries collect []

/-- A target that is before every key steers through every node from its start, by induction on the
level.
-/
theorem steered_never (level : Nat) (frame : Frame) (seen : List Nat)
    (sorted : Sorted self.tree.order frame.node frame.bound)
    : self.Steered (fun _ => .ok .gt) (fun _ => false) (fun _ => false) level frame seen := by
  have steers : ∀ frame : Frame, Sorted self.tree.order frame.node frame.bound →
      Steers self.tree.order (fun _ => .ok .gt) (fun _ => false) (fun _ => false) frame := by
    intro frame sorted
    refine ⟨sorted, fun key _ => ⟨.gt, rfl, rfl, rfl⟩, ⟨?_, ?_⟩⟩
    all_goals exact List.pairwise_of_forall fun _ _ impossible => impossible
  induction level generalizing frame seen with
  | zero => exact steers frame sorted
  | succ level ih =>
      refine ⟨steers frame sorted, fun child entered read => ?_⟩
      obtain ⟨-, -, below⟩ := descend_eq_ok read
      exact ih child entered below.sorted

/-- A walk of all of a tree that succeeds has read it. -/
theorem allRecords_eq_ok {maxWalkEntries : Nat} {records : List Record}
    (walked : self.allRecords maxWalkEntries = .ok records)
    : Nonempty (ReadTree self records) := by
  obtain ⟨result, went, same⟩ := bind_eq_ok.mp walked
  obtain rfl := Except.ok.inj same
  have opened : ∃ root, self.readRoot = .ok root := by
    obtain ⟨root, read, -⟩ := bind_eq_ok.mp went
    exact ⟨root, read⟩
  obtain ⟨root, read⟩ := opened
  obtain ⟨-, unbounded, sorted, -⟩ := readRoot_eq_ok read
  have steered : self.Steered (fun _ => .ok .gt) (fun _ => false) (fun _ => false) root.level root
      [root.block] := steered_never _ _ _ sorted
  have answered := (walk_eq read steered []).symm.trans went
  simp only [Except.bind, Forest.steer_never] at answered
  cases fed : feed (handle maxWalkEntries collect fun acc _ => .ok acc)
      (self.forest.sweep root.level root [root.block]).events (0, []) with
  | stop result =>
      rw [fed] at answered
      exact absurd (fed.trans (congrArg _ answered)) (feed_collect_stop _ _ _)
  | go state =>
      cases ended : (self.forest.sweep root.level root [root.block]).ending with
      | error error =>
          rw [fed, ended] at answered
          cases answered
      | ok seen =>
          obtain ⟨tree, represents, ordered, -, found, entered, apart⟩ :=
            self.forest_lawful.reads (fun n node _ => Forest.startOf_never n _) _ root [root.block]
              seen sorted.chain ended (List.nodup_singleton _)
          have all := @answer_records _ maxWalkEntries collect
            (self.forest.sweep root.level root [root.block]).events seen 0 []
          rw [ended] at answered
          rw [answered] at all
          have met := (visitAll_collect (Nat.zero_le _) all.symm).1
          refine ⟨⟨root, read, tree, represents, unbounded ▸ ordered, ?_, ?_⟩⟩
          · rw [found]
            exact met.symm
          · rw [entered] at apart
            have := List.nodup_reverse.mpr apart
            simpa using this

theorem ReadTree.keyed {records : List Record} (tree : ReadTree self records)
    : (SearchTree.items _ tree.tree).map Located.key = records.map Prod.fst := by
  have same := congrArg (List.map Prod.fst) tree.same
  rw [List.map_map] at same
  exact same

/-- Every key of a tree's records reads, by induction on the level. -/
theorem reads_of_represents (level : Nat) (frame : Frame) (tree : Tree Bytes Nat Located level)
    (represents : self.forest.Represents self.tree.order.Before level frame tree)
    (sorted : Sorted self.tree.order frame.node frame.bound)
    : ∀ entry ∈ SearchTree.items level tree, self.tree.order.Reads entry.key := by
  induction level generalizing frame with
  | zero =>
      intro entry member
      have keyed : keys Located.key 0 tree = frame.node.keys :=
        represents.keys_eq self.forest_lawful
      apply sorted.keysRead
      rw [← keyed]
      exact List.mem_map_of_mem member
  | succ level ih =>
      intro entry member
      obtain ⟨branch, held, member⟩ := List.mem_flatMap.mp member
      obtain ⟨index, at_⟩ := List.mem_iff_getElem?.mp held
      obtain ⟨-, child, enters, below⟩ := represents.2 index branch at_
      obtain ⟨-, -, under⟩ := descend_eq_ok (enters.again [] List.not_mem_nil)
      exact ih child branch.below below under.sorted entry member

theorem ReadTree.keysRead {records : List Record} (tree : ReadTree self records)
    : ∀ record ∈ records, self.tree.order.Reads record.1 := by
  have all := reads_of_represents _ _ tree.tree tree.represents (readRoot_eq_ok tree.read).2.2.1
  intro record member
  rw [← tree.same] at member
  obtain ⟨entry, held, rfl⟩ := List.mem_map.mp member
  exact all entry held

/-- A tree's records each stand before every later one, as far as an order is held for the two. -/
theorem ReadTree.ascending {records : List Record} (tree : ReadTree self records)
    : (records.map Prod.fst).IsChain self.tree.order.Before
      ∧ records.Pairwise fun a b => self.tree.order.Precedes a.1 b.1 := by
  have chain := (tree.ordered.items_chain _ _ _).1
  rw [Option.toList_none, List.append_nil, tree.keyed] at chain
  refine ⟨chain, List.pairwise_map.mp ?_⟩
  have : Trans self.tree.order.Precedes self.tree.order.Precedes self.tree.order.Precedes :=
    ⟨Order.Precedes.trans⟩
  exact (List.IsChain.imp (fun _ _ => Order.Before.precedes) chain).pairwise

/-- The tree is in the order in which a target that has a place among its records takes them. -/
theorem ReadTree.along {records : List Record} (tree : ReadTree self records) {target : Target}
    (locates : Locates target records)
    : Ordered target.Along Located.key _ tree.tree none := by
  apply tree.ordered.of_pairwise
  rw [Option.toList_none, List.append_nil, tree.keyed, List.pairwise_map]
  exact locates.before

/-- The keys of an ordered tree's top node are those of entries. -/
theorem keys_of_items {R : Bytes → Bytes → Prop} {P : Bytes → Prop} {n : Nat}
    {tree : Tree Bytes Nat Located n} {bound : Option Bytes}
    (ordered : Ordered R Located.key n tree bound)
    (all : ∀ entry ∈ SearchTree.items n tree, P entry.key)
    : ∀ key ∈ keys Located.key n tree, P key := by
  intro key member
  cases n with
  | zero =>
      obtain ⟨entry, held, rfl⟩ := List.mem_map.mp member
      exact all entry held
  | succ n =>
      obtain ⟨branch, held, rfl⟩ := List.mem_map.mp member
      obtain ⟨next, -, head⟩ := ordered.2.after branch held
      obtain ⟨entry, rest, split, same⟩ := exists_head head
      exact same ▸ all entry (List.mem_flatMap.mpr ⟨branch, held, by simp [split]⟩)

/-- A target that has a place among a tree's records steers through the nodes it enters, by induction
on the level.
-/
theorem steered_of_along {target : Target} (level : Nat) (frame : Frame) (seen : List Nat)
    (tree : Tree Bytes Nat Located level) {bound : Option Bytes}
    (represents : self.forest.Represents self.tree.order.Before level frame tree)
    (along : Ordered target.Along Located.key level tree bound)
    (answers : ∀ entry ∈ SearchTree.items level tree, ∃ found, target entry.key = .ok found)
    (sorted : Sorted self.tree.order frame.node frame.bound)
    : self.Steered target target.before target.notAfter level frame seen := by
  have steers (level : Nat) (frame : Frame) (tree : Tree Bytes Nat Located level)
      {bound : Option Bytes}
      (represents : self.forest.Represents self.tree.order.Before level frame tree)
      (along : Ordered target.Along Located.key level tree bound)
      (answers : ∀ entry ∈ SearchTree.items level tree, ∃ found, target entry.key = .ok found)
      (sorted : Sorted self.tree.order frame.node frame.bound)
      : Steers self.tree.order target target.before target.notAfter frame := by
    have keyed : keys Located.key level tree = frame.node.keys :=
      represents.keys_eq self.forest_lawful
    have chain : frame.node.keys.IsChain target.Along := by
      rw [← keyed]
      cases level with
      | zero => exact List.IsChain.left_of_append along
      | succ level => exact List.IsChain.left_of_append along.1
    refine ⟨sorted, Target.answers ?_, target.cuts.leading_lt chain, target.cuts.leading_le chain⟩
    rw [← keyed]
    exact keys_of_items along answers
  induction level generalizing frame seen bound with
  | zero => exact steers 0 frame tree represents along answers sorted
  | succ level ih =>
      have here := steers (level + 1) frame tree represents along answers sorted
      refine ⟨here, fun child entered read => ?_⟩
      obtain ⟨length, reads⟩ := represents
      obtain ⟨-, -, below⟩ := descend_eq_ok read
      obtain ⟨separator, first, pointed, -, -⟩ := below.first
      have inside := Node.lt_of_entry (mapError_eq_ok.mp pointed)
      have inside : startOf target.before target.notAfter (level + 1) frame.node.keys
          < List.length tree := by
        rw [length]
        exact inside
      obtain ⟨-, other, enters, represents⟩ := reads _ _ (List.getElem?_eq_getElem inside)
      have member := List.getElem_mem inside
      obtain ⟨next, within, -⟩ := along.2.after _ member
      -- both children are what the entry leads to where nothing was seen
      have same := (below.again [] (List.not_mem_nil)).symm.trans
        (enters.again [] (List.not_mem_nil))
      obtain ⟨rfl, -⟩ := Prod.mk.inj (Except.ok.inj same)
      exact ih child entered _ represents within
        (fun entry held => answers entry (List.mem_flatMap.mpr ⟨_, member, held⟩)) below.sorted

theorem ReadTree.steered {records : List Record} (tree : ReadTree self records)
    {target : Target} (locates : Locates target records)
    : self.Steered target target.before target.notAfter tree.root.level tree.root
        [tree.root.block] := by
  refine steered_of_along _ _ _ tree.tree tree.represents (tree.along locates) ?_
    (readRoot_eq_ok tree.read).2.2.1
  intro entry member
  have held : entry.record ∈ records := by
    rw [← tree.same]
    exact List.mem_map_of_mem member
  exact locates.answers entry.record held

/-- A walk from a target hands over the records from it on. -/
theorem ReadTree.from_ {σ : Type} {records : List Record} (tree : ReadTree self records)
    {target : Target} (locates : Locates target records) (limit : Nat)
    (visit : σ → Bytes → Bytes → Except ReadError (σ × Bool)) (acc : σ)
    : (self.forEachFrom target limit visit acc).map Prod.snd
      = visitAll limit visit 0 (records.dropWhile fun record => target.before record.1) acc := by
  have fresh := List.nodup_cons.mp tree.distinct
  obtain ⟨entered, ended, met, -⟩ := tree.represents.steer self.forest_lawful target.cuts _ _ _
    [tree.root.block] (tree.along locates) fresh.2 fun a member held => by
      obtain rfl := List.mem_singleton.mp held
      exact fresh.1 member
  have rest : (Forest.found (self.forest.steer target.before target.notAfter tree.root.level
      tree.root [tree.root.block]).events).map Located.record
      = records.dropWhile fun record => target.before record.1 := by
    have same := congrArg (List.dropWhile fun record => target.before record.1) tree.same
    rw [List.dropWhile_map] at same
    rw [met]
    exact same
  have answered := @answer_records σ limit visit
    (self.forest.steer target.before target.notAfter tree.root.level tree.root
      [tree.root.block]).events entered 0 acc
  rw [forEachFrom, walk_eq tree.read (tree.steered locates)]
  simp only [Except.bind, ended]
  rw [answered, rest]

/-- A walk of all of a tree counts its records against the limit. -/
theorem ReadTree.few {records : List Record} (tree : ReadTree self records) {maxWalkEntries : Nat}
    (walked : self.allRecords maxWalkEntries = .ok records) : records.length ≤ maxWalkEntries := by
  have locates : Locates (fun _ => .ok .gt) records :=
    ⟨fun _ _ => ⟨.gt, rfl⟩, List.pairwise_of_forall fun _ _ impossible => nomatch impossible⟩
  have all := tree.from_ locates maxWalkEntries collect []
  obtain ⟨result, went, same⟩ := bind_eq_ok.mp walked
  obtain rfl := Except.ok.inj same
  rw [went] at all
  obtain ⟨same, few⟩ := visitAll_collect (Nat.zero_le _) all.symm
  rw [List.nil_append] at same
  rw [Nat.zero_add, ← same] at few
  exact few

/-- The step past an answer stops at a record after the target: no two are at it. -/
theorem visitAll_confirm {target : Target} {records : List Record}
    (locates : Locates target records)
    (first : ∀ record ∈ records.head?, target.before record.1 = false)
    : visitAll (2 ^ 64 - 1) (fun _ key _ => do
        let found ← (target key).mapError ReadError.parse
        return ((), found != .gt)) 0 records () = .ok () := by
  cases records with
  | nil => rfl
  | cons record rest =>
      obtain ⟨found, answered⟩ := locates.answers record List.mem_cons_self
      have notBefore := first record rfl
      rw [visitAll, answered]
      cases found with
      | lt =>
          rw [Target.before, answered] at notBefore
          cases notBefore
      | gt => rfl
      | eq =>
          cases rest with
          | nil => rfl
          | cons next later =>
              obtain ⟨after, answered⟩ := locates.answers next (by simp)
              have before := (List.pairwise_cons.mp locates.before).1 next List.mem_cons_self
              rw [notBefore, Target.notAfter, answered] at before
              cases after with
              | lt => exact absurd (before rfl) Bool.false_ne_true
              | eq => exact absurd (before rfl) Bool.false_ne_true
              | gt =>
                  simp only [Except.mapError, bind, Except.bind, pure, Except.pure, visitAll, answered]
                  rfl

/-- The answer of a search stands up to the record after it. -/
theorem ReadTree.confirms {records : List Record} (tree : ReadTree self records)
    {target : Target} (locates : Locates target records) : self.confirmLast target = .ok () := by
  have part := (List.dropWhile_suffix fun record : Record => target.before record.1
    : _ <:+ records).sublist
  have later : Locates target (records.dropWhile fun record => target.before record.1) :=
    ⟨fun record member => locates.answers record (part.subset member), locates.before.sublist part⟩
  have walked := tree.from_ locates (2 ^ 64 - 1) (fun _ key _ => do
    let found ← (target key).mapError ReadError.parse
    return ((), found != .gt)) ()
  have stands := visitAll_confirm later fun record head => by
    have := List.head?_dropWhile_not (fun record : Record => target.before record.1) records
    rw [head] at this
    exact this
  have ended := walked.trans stands
  cases went : self.forEachFrom target (2 ^ 64 - 1) (fun _ key _ => do
      let found ← (target key).mapError ReadError.parse
      return ((), found != .gt)) () with
  | error error =>
      rw [went] at ended
      cases ended
  | ok result =>
      rw [confirmLast, went]
      rfl

end Agreement

section Seek

variable {self : Reading} {target : Target} {lt le : Bytes → Bool}

/-- A search for the last record not after a target is a descent to one leaf, by induction on the
level.
-/
theorem seek_eq (level : Nat) (frame : Frame) (seen : List Nat)
    (steered : self.Steered target lt le level frame seen) (here : frame.level = level)
    : Loop.total (self.findStep target) (fun state => state.frame.level)
        (self.findStep_lowers target) ⟨frame, seen⟩
      = (self.forest.descend lt le level frame seen).bind (self.answerFrom target) := by
  induction level generalizing frame seen with
  | zero =>
      apply Loop.total_of_stop
      simp only [findStep, if_pos here]
      rfl
  | succ level ih =>
      obtain ⟨steers, below⟩ := steered
      have node : ¬ frame.level = 0 := by omega
      have step : self.findStep target ⟨frame, seen⟩ = orStop do
          let entered ← self.descend frame (startOf lt le (level + 1) frame.node.keys) seen
          return .go ⟨entered.1, entered.2⟩ := by
        simp only [findStep, if_neg node,
          childFor_eq steers.sorted _ steers.answers steers.leading level, ok_bind]
      rw [Forest.descend]
      change _ = (Except.bind (self.descend frame (startOf lt le (level + 1) frame.node.keys) seen)
        _).bind _
      cases entered : self.descend frame (startOf lt le (level + 1) frame.node.keys) seen with
      | error error =>
          rw [entered] at step
          exact Loop.total_of_stop _ step
      | ok reached =>
          obtain ⟨child, visited⟩ := reached
          rw [entered] at step
          obtain ⟨-, -, under⟩ := descend_eq_ok entered
          have lower : child.level = level := by
            have := under.level
            omega
          rw [Loop.total_of_go _ step]
          exact ih child visited (below child visited entered) lower

/-- A descent ends in a node the target steers through, by induction on the level. -/
theorem descend_steers (level : Nat) (frame : Frame) (seen : List Nat)
    (steered : self.Steered target lt le level frame seen) {leaf : Frame}
    (reached : self.forest.descend lt le level frame seen = .ok leaf)
    : Steers self.tree.order target lt le leaf := by
  induction level generalizing frame seen with
  | zero =>
      obtain rfl := Except.ok.inj reached
      exact steered
  | succ level ih =>
      obtain ⟨⟨child, visited⟩, entered, reached⟩ := bind_eq_ok.mp reached
      exact ih child visited (steered.2 child visited entered) reached

/-- A leaf answers with the last of its records not after the target, where the step past it finds
nothing amiss.
-/
theorem answerFrom_eq {frame : Frame} (steers : Steers self.tree.order target lt le frame)
    {entries : List Located} (length : entries.length = frame.node.len)
    (reads : ∀ (index : Nat) (entry : Located), entries[index]? = some entry →
      frame.located index = .ok entry)
    (confirms : self.confirmLast target = .ok ())
    : self.answerFrom target frame
      = .ok ((entries.takeWhile fun entry => le entry.key).getLast?.map Located.record) := by
  have keys : frame.node.keys = entries.map Located.key := by
    apply List.ext_getElem (by simp [Node.keys, length])
    intro index inside _
    rw [Node.keys, List.length_map, List.length_range] at inside
    have read := keyOf_of_located (reads index _ (List.getElem?_eq_getElem (by omega)))
    simp [Node.keys, ← read]
  have counted : (frame.node.keys.takeWhile le).length
      = (entries.takeWhile fun entry => le entry.key).length := by
    rw [keys, List.takeWhile_map, List.length_map]
    rfl
  rw [answerFrom, lastNotAfter_eq steers.sorted _ steers.answers steers.leading, ok_bind, counted]
  cases split : entries.takeWhile fun entry => le entry.key with
  | nil => rfl
  | cons first rest =>
      have some : (first :: rest).length ≠ 0 := Nat.succ_ne_zero _
      have at_ : entries[(first :: rest).length - 1]?
          = Option.some ((first :: rest).getLast (List.cons_ne_nil _ _)) := by
        have inside : (first :: rest).length - 1 < (first :: rest).length := by omega
        have leading := List.takeWhile_prefix (fun entry => le entry.key) (l := entries)
        rw [split] at leading
        obtain ⟨tail, joined⟩ := leading
        rw [← joined, List.getElem?_append_left inside, List.getLast_eq_getElem]
        exact List.getElem?_eq_getElem inside
      rw [if_neg some]
      simp only [reads _ _ at_, ok_bind, confirms,
        List.getLast?_eq_some_getLast (List.cons_ne_nil first rest), Option.map_some]
      split <;> rfl

/-- The last record not after a target that has a place among a tree's records is found. -/
theorem ReadTree.atOrBefore {records : List Record} (tree : ReadTree self records)
    (locates : Locates target records)
    : self.findAtOrBefore target
      = .ok (records.takeWhile fun record => target.notAfter record.1).getLast? := by
  have fresh := List.nodup_cons.mp tree.distinct
  have along := tree.along locates
  have steered := tree.steered locates
  obtain ⟨leaf, entries, reached, ⟨length, reads⟩, chain, found⟩ :=
    tree.represents.descend self.forest_lawful target.cuts _ _ _ [tree.root.block] along fresh.2
      (fun a member held => by
        obtain rfl := List.mem_singleton.mp held
        exact fresh.1 member)
      (fun above => Nat.pos_iff_ne_zero.mp (tree.root.leads (Nat.pos_iff_ne_zero.mp above)))
  have last : ((entries.takeWhile fun entry => target.notAfter entry.key).getLast?).map
        Located.record
      = (records.takeWhile fun record => target.notAfter record.1).getLast? := by
    have same := congrArg (List.takeWhile fun record => target.notAfter record.1) tree.same
    rw [List.takeWhile_map] at same
    rw [← same, List.getLast?_map]
    exact congrArg _ (found.symm.trans (along.floor_eq target.cuts _ _ _))
  have answered := answerFrom_eq (descend_steers _ _ _ steered reached) length reads
    (tree.confirms locates)
  rw [findAtOrBefore, tree.read, ok_bind, seek_eq _ _ _ steered rfl, reached]
  exact answered.trans (congrArg _ last)

end Seek

end Reading

end Ferrosys.Apfs
