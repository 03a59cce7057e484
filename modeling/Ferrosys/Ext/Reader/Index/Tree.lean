import Ferrosys.Ext.Reader.Index

/-! A hash index as the leaves it names in tree order, each with the hash its range begins at. A
path through the index is a place in that order: moving to the next leaf moves one on, and a descent to a
hash ends at the last leaf whose range begins at or below it.
-/

namespace Ferrosys.Ext

/-- A block an index names, and the hash its range begins at. -/
abbrev Child := UInt32 × UInt32

/-- What the entries of an index block name. The first one's range begins where the block's does. -/
def childrenOf (low : UInt32) : List DxEntry → List Child
  | [] => []
  | first :: rest => (first.block, low) :: rest.map fun entry => (entry.block, entry.hash)

/-- The entries of an index block are at least one. -/
theorem readDxEntries_cons {buf : Bytes} {countOffset : Nat} {entries : List DxEntry}
    (read : readDxEntries buf countOffset = .ok entries)
    : ∃ first rest, entries = first :: rest := by
  unfold readDxEntries at read
  obtain ⟨⟨limit, count⟩, -, read⟩ := Checked.bind_eq_ok.mp read
  obtain ⟨-, -, read⟩ := Checked.bind_eq_ok.mp read
  exact ⟨_, _, (Except.ok.inj read).symm⟩

namespace Reader

section

variable (self : Reader) (blocks : List Nat)

/-- The leaves a child with `below` levels under it leads to, where every node can be followed. -/
def leavesAt : (below : Nat) → Child → Option (List Child)
  | 0, child => some [child]
  | below + 1, (block, low) =>
      match self.dirBlockAt blocks block with
      | .ok (some node) =>
          match readDxEntries node dxNodeCountOffset with
          | .ok entries => ((childrenOf low entries).mapM (leavesAt below)).map List.flatten
          | .error _ => none
      | _ => none

/-- The leaves of the entries of one index block. -/
def leavesOf (below : Nat) (low : UInt32) (entries : List DxEntry) : Option (List Child) :=
  ((childrenOf low entries).mapM (self.leavesAt blocks below)).map List.flatten

/-- The leaves past the one a path leads to. -/
def leavesAfter : IndexPath → Option (List Child)
  | [] => some []
  | (entries, at_) :: deeper => do
      let inner ← leavesAfter deeper
      let outer ← ((entries.drop (at_ + 1)).map fun entry => (entry.block, entry.hash)).mapM
        (self.leavesAt blocks deeper.length)
      return inner ++ outer.flatten

/-- Where moving on from a path arrives when these are the leaves past its own. -/
def MovesTo (path : IndexPath) : List Child → Prop
  | [] => self.nextLeaf blocks path = .ok .ended
  | (block, hash) :: rest => ∃ next, self.nextLeaf blocks path = .ok (.leaf hash next)
      ∧ next.length = path.length ∧ leafOf next = block
      ∧ self.leavesAfter blocks next = some rest

variable {self} {blocks}

/-- What a child with levels under it leads to are the leaves of its node's entries. -/
theorem leavesAt_succ {below : Nat} {child : Child} {leaves : List Child}
    (led : self.leavesAt blocks (below + 1) child = some leaves)
    : ∃ node entries, self.dirBlockAt blocks child.1 = .ok (some node)
        ∧ readDxEntries node dxNodeCountOffset = .ok entries
        ∧ self.leavesOf blocks below child.2 entries = some leaves := by
  simp only [leavesAt] at led
  split at led
  next node mapped =>
    split at led
    next entries read => exact ⟨node, entries, mapped, read, led⟩
    next => cases led
  next => cases led

/-- A path one level longer leads where the rest of it does. -/
theorem leafOf_cons {level : List DxEntry × Nat} {deeper : IndexPath} (nonempty : deeper ≠ [])
    : leafOf (level :: deeper) = leafOf deeper := by
  rw [leafOf, leafOf, List.getLast?_cons_of_ne_nil nonempty]

/-- The leaves of some entries are those of the first and of the others. -/
theorem leavesOf_cons {below : Nat} {low : UInt32} {first : DxEntry} {rest : List DxEntry}
    {leaves : List Child} (led : self.leavesOf blocks below low (first :: rest) = some leaves)
    : ∃ here later, self.leavesAt blocks below (first.block, low) = some here
        ∧ (rest.map fun entry => (entry.block, entry.hash)).mapM (self.leavesAt blocks below)
          = some later
        ∧ leaves = here ++ later.flatten := by
  obtain ⟨lists, each, rfl⟩ := Option.map_eq_some_iff.mp led
  rw [childrenOf, List.mapM_cons] at each
  obtain ⟨here, lead, each⟩ := Option.bind_eq_some_iff.mp each
  obtain ⟨later, follow, each⟩ := Option.bind_eq_some_iff.mp each
  obtain rfl : here :: later = lists := Option.some.inj each
  exact ⟨here, later, lead, follow, List.flatten_cons⟩

/-- Descending to the first leaf of some entries, by induction on the levels below them. -/
theorem descendFrom_none {below : Nat} {block : Bytes} {countOffset : Nat} {low : UInt32}
    {entries : List DxEntry} {leaves : List Child}
    (read : readDxEntries block countOffset = .ok entries)
    (led : self.leavesOf blocks below low entries = some leaves)
    : ∃ path after, self.descendFrom blocks none below block countOffset = .ok (some path)
        ∧ path.length = below + 1 ∧ leaves = (leafOf path, low) :: after
        ∧ self.leavesAfter blocks path = some after := by
  induction below generalizing block countOffset low entries leaves with
  | zero =>
      obtain ⟨first, rest, rfl⟩ := readDxEntries_cons read
      obtain ⟨here, later, lead, follow, rfl⟩ := leavesOf_cons led
      obtain rfl : [(first.block, low)] = here := Option.some.inj lead
      refine ⟨[(first :: rest, 0)], later.flatten, ?_, rfl, rfl, ?_⟩
      · rw [descendFrom, read]
        rfl
      · simp only [leavesAfter, List.drop_succ_cons, List.drop_zero, List.length_nil]
        rw [follow]
        rfl
  | succ below ih =>
      obtain ⟨first, rest, rfl⟩ := readDxEntries_cons read
      obtain ⟨here, later, lead, follow, rfl⟩ := leavesOf_cons led
      obtain ⟨node, entries, mapped, nodeRead, nodeLed⟩ := leavesAt_succ lead
      obtain ⟨path, after, descended, long, rfl, kept⟩ := ih nodeRead nodeLed
      have some_ : path ≠ [] := List.ne_nil_of_length_pos (by omega)
      refine ⟨(first :: rest, 0) :: path, after ++ later.flatten, ?_, ?_, ?_, ?_⟩
      · rw [descendFrom, read]
        change (self.dirBlockAt blocks first.block >>= _) = _
        rw [mapped]
        change (self.descendFrom blocks none below node dxNodeCountOffset >>= _) = _
        rw [descended]
        rfl
      · rw [List.length_cons, long]
      · rw [leafOf_cons some_]
        rfl
      · simp only [leavesAfter, List.drop_succ_cons, List.drop_zero, long]
        rw [kept, follow]
        rfl

/-- What a child leads to opens with the child's own range. -/
theorem leavesAt_head {below : Nat} {child : Child} {leaves : List Child}
    (led : self.leavesAt blocks below child = some leaves)
    : ∃ block after, leaves = (block, child.2) :: after := by
  cases below with
  | zero => exact ⟨child.1, [], (Option.some.inj led).symm⟩
  | succ below =>
      obtain ⟨node, entries, -, read, led⟩ := leavesAt_succ led
      obtain ⟨path, after, -, -, same, -⟩ := descendFrom_none read led
      exact ⟨leafOf path, after, same⟩

/-- Moving on from a path that has leaves past its own goes to the first of them, and from one that
has none ends: by induction on the levels of the path.
-/
theorem nextLeaf_eq {path : IndexPath} {after : List Child}
    (left : self.leavesAfter blocks path = some after)
    : self.MovesTo blocks path after := by
  induction path generalizing after with
  | nil =>
      obtain rfl : [] = after := Option.some.inj left
      rfl
  | cons level deeper ih =>
      obtain ⟨entries, at_⟩ := level
      obtain ⟨inner, within, left⟩ := Option.bind_eq_some_iff.mp left
      obtain ⟨outer, beyond, left⟩ := Option.bind_eq_some_iff.mp left
      obtain rfl : inner ++ outer.flatten = after := Option.some.inj left
      have moved := ih within
      cases inner with
      | cons leaf rest =>
          obtain ⟨block, hash⟩ := leaf
          obtain ⟨next, moves, long, leads, kept⟩ := moved
          have some_ : next ≠ [] := by
            rintro rfl
            cases deeper with
            | nil => cases within
            | cons _ _ => cases long
          refine ⟨(entries, at_) :: next, ?_, ?_, ?_, ?_⟩
          · rw [nextLeaf, moves]
            rfl
          · rw [List.length_cons, List.length_cons, long]
          · rw [leafOf_cons some_, leads]
          · simp only [leavesAfter, long]
            rw [kept, beyond]
            rfl
      | nil =>
          have ends : self.nextLeaf blocks deeper = .ok .ended := moved
          rw [List.nil_append]
          cases found : entries[at_ + 1]? with
          | none =>
              rw [List.drop_eq_nil_of_le (List.getElem?_eq_none_iff.mp found)] at beyond
              obtain rfl : [] = outer := Option.some.inj beyond
              change self.nextLeaf blocks _ = _
              rw [nextLeaf, ends]
              simp only [Checked.ok_bind, found]
              rfl
          | some entry =>
              obtain ⟨inside, same⟩ := List.getElem?_eq_some_iff.mp found
              rw [List.drop_eq_getElem_cons inside, same, List.map_cons, List.mapM_cons] at beyond
              obtain ⟨here, lead, beyond⟩ := Option.bind_eq_some_iff.mp beyond
              obtain ⟨later, follow, beyond⟩ := Option.bind_eq_some_iff.mp beyond
              obtain rfl : here :: later = outer := Option.some.inj beyond
              rw [List.flatten_cons]
              cases deeper with
              | nil =>
                  obtain rfl : [(entry.block, entry.hash)] = here := Option.some.inj lead
                  refine ⟨[(entries, at_ + 1)], ?_, rfl, ?_, ?_⟩
                  · rw [nextLeaf, ends]
                    simp only [Checked.ok_bind, found]
                    rfl
                  · simp only [leafOf, List.getLast?_singleton, found, Option.map_some,
                      Option.getD_some]
                  · rw [List.length_nil] at follow
                    simp only [leavesAfter, List.length_nil]
                    rw [follow]
                    rfl
              | cons deep under =>
                  obtain ⟨node, nodeEntries, mapped, nodeRead, nodeLed⟩ := leavesAt_succ lead
                  obtain ⟨path, rest, descended, long, rfl, kept⟩ :=
                    descendFrom_none nodeRead nodeLed
                  refine ⟨(entries, at_ + 1) :: path, ?_, ?_, ?_, ?_⟩
                  · rw [nextLeaf, ends]
                    simp only [Checked.ok_bind, found]
                    rw [mapped]
                    change (self.descendFrom blocks none under.length node dxNodeCountOffset
                      >>= _) = _
                    rw [descended]
                    rfl
                  · rw [List.length_cons, List.length_cons, List.length_cons, long]
                  · exact leafOf_cons (List.ne_nil_of_length_pos (by omega))
                  · rw [List.length_cons] at follow
                    simp only [leavesAfter, long]
                    rw [kept, follow]
                    rfl

variable (self) (blocks) in
/-- A path a descent to a hash ends with: its leaf is one of these, and where they are in order the
last whose range begins at or below the hash, or the first.
-/
def EndsAt (major : UInt32) (leaves : List Child) (path : IndexPath) : Prop :=
  ∃ before low after, leaves = before ++ (leafOf path, low) :: after
    ∧ self.leavesAfter blocks path = some after
    ∧ ((leaves.map Prod.snd).Pairwise (· ≤ ·) → (∀ leaf ∈ after, major < leaf.2)
      ∧ (before = [] ∨ low ≤ major))

/-- The ranges of the children begin where those of some of their leaves do. -/
theorem sublist_leaves {below : Nat} {children : List Child} {lists : List (List Child)}
    (led : children.mapM (self.leavesAt blocks below) = some lists)
    : (children.map Prod.snd).Sublist (lists.flatten.map Prod.snd) := by
  induction children generalizing lists with
  | nil => exact List.nil_sublist _
  | cons child rest ih =>
      rw [List.mapM_cons] at led
      obtain ⟨here, lead, led⟩ := Option.bind_eq_some_iff.mp led
      obtain ⟨later, follow, led⟩ := Option.bind_eq_some_iff.mp led
      obtain rfl : here :: later = lists := Option.some.inj led
      obtain ⟨block, after, rfl⟩ := leavesAt_head lead
      rw [List.flatten_cons, List.map_append, List.map_cons, List.map_cons, List.cons_append]
      exact ((ih follow).trans (List.sublist_append_right _ _)).cons_cons _

/-- On entries in order, the partition point is how many are at or below the hash. -/
theorem partitionPoint_eq {major : UInt32} {entries : List DxEntry}
    (ordered : (entries.map DxEntry.hash).Pairwise (· ≤ ·))
    : partitionPoint major entries
      = (entries.takeWhile fun entry => entry.hash ≤ major).length := by
  have leading : entries.Pairwise fun a b =>
      (decide (b.hash ≤ major) : Bool) → decide (a.hash ≤ major) := by
    refine (List.pairwise_map.mp ordered).imp fun le => ?_
    simp only [decide_eq_true_eq]
    exact fun later => UInt32.le_trans le later
  have found := @Bisect.bisect_takeWhile Unit DxEntry
    (fun i => .ok (decide (((entries[i]?.map DxEntry.hash).getD 0) ≤ major)))
    (fun entry => decide (entry.hash ≤ major)) entries
    (fun i inside => by rw [List.getElem?_eq_getElem inside]; rfl) leading
  rw [partitionPoint, found]
  rfl

/-- A partition point is within its entries, in order or not. -/
theorem partitionPoint_le (major : UInt32) (entries : List DxEntry)
    : partitionPoint major entries ≤ entries.length := by
  rw [partitionPoint]
  generalize found : Bisect.bisect _ entries.length 0 entries.length = out
  cases out with
  | ok cut => exact Bisect.bisect_le found (Nat.zero_le _)
  | error => exact Nat.zero_le _

/-- What a list's leading elements have, each of them has, by induction on the list. -/
theorem of_mem_takeWhile {α : Type} {p : α → Bool} {list : List α} {a : α}
    (member : a ∈ list.takeWhile p) : p a := by
  induction list with
  | nil => cases member
  | cons first rest ih =>
      rw [List.takeWhile_cons] at member
      split at member
      next holds =>
        rcases List.mem_cons.mp member with rfl | member
        · exact holds
        · exact ih member
      next => cases member

/-- Entries are those before their partition point for a hash and those from it on. Where they are
in order, the first are at or below the hash and the others past it.
-/
theorem partitionPoint_split (major : UInt32) (entries : List DxEntry)
    : ∃ front back, entries = front ++ back ∧ partitionPoint major entries = front.length
        ∧ ((entries.map DxEntry.hash).Pairwise (· ≤ ·)
          → (∀ entry ∈ front, entry.hash ≤ major) ∧ ∀ entry ∈ back, major < entry.hash) := by
  refine ⟨_, _, (List.take_append_drop (partitionPoint major entries) entries).symm, ?_, ?_⟩
  · rw [List.length_take, Nat.min_eq_left (partitionPoint_le major entries)]
  intro ordered
  let below (entry : DxEntry) : Bool := decide (entry.hash ≤ major)
  have parts : entries.takeWhile below ++ entries.dropWhile below = entries :=
    List.takeWhile_append_dropWhile
  have count : partitionPoint major entries = (entries.takeWhile below).length :=
    partitionPoint_eq ordered
  have front : entries.take (partitionPoint major entries) = entries.takeWhile below := by
    rw [count]
    nth_rewrite 2 [← parts]
    exact List.take_left
  have back : entries.drop (partitionPoint major entries) = entries.dropWhile below := by
    rw [count]
    nth_rewrite 2 [← parts]
    exact List.drop_left
  rw [front, back]
  have holds (entry : DxEntry) (member : entry ∈ entries.takeWhile below) : below entry :=
    of_mem_takeWhile member
  refine ⟨fun entry member => of_decide_eq_true (holds entry member), fun entry member => ?_⟩
  have sub := ordered.sublist ((List.dropWhile_sublist below).map DxEntry.hash)
  cases here : entries.dropWhile below with
  | nil =>
      rw [here] at member
      cases member
  | cons first more =>
      have above : major < first.hash := by
        have stopped := List.head_dropWhile_not below
          (l := entries) (by rw [here]; exact List.cons_ne_nil _ _)
        simp only [here, List.head_cons, below, decide_eq_false_iff_not] at stopped
        exact UInt32.not_le.mp stopped
      rw [here] at member sub
      rcases List.mem_cons.mp member with rfl | member
      · exact above
      · exact UInt32.lt_of_lt_of_le above
          ((List.pairwise_cons.mp sub).1 entry.hash (List.mem_map_of_mem member))

omit self blocks in
/-- What a list in two parts is mapped to is in two parts. -/
theorem mapM_append_some {α β : Type} {f : α → Option β} {first second : List α} {out : List β}
    (mapped : (first ++ second).mapM f = some out)
    : ∃ one two, first.mapM f = some one ∧ second.mapM f = some two ∧ out = one ++ two := by
  rw [List.mapM_append] at mapped
  obtain ⟨one, left, mapped⟩ := Option.bind_eq_some_iff.mp mapped
  obtain ⟨two, right, mapped⟩ := Option.bind_eq_some_iff.mp mapped
  exact ⟨one, two, left, right, (Option.some.inj mapped).symm⟩

/-- The children behind a partition point lead to leaves past the hash. -/
theorem flatten_past {major : UInt32} {below : Nat} {back : List DxEntry}
    {later : List (List Child)}
    (led : (back.map fun entry => (entry.block, entry.hash)).mapM (self.leavesAt blocks below)
      = some later)
    (ordered : (later.flatten.map Prod.snd).Pairwise (· ≤ ·))
    (past : ∀ entry ∈ back, major < entry.hash) : ∀ leaf ∈ later.flatten, major < leaf.2 := by
  cases back with
  | nil =>
      obtain rfl : [] = later := Option.some.inj led
      exact nofun
  | cons entry more =>
      rw [List.map_cons, List.mapM_cons] at led
      obtain ⟨here, lead, led⟩ := Option.bind_eq_some_iff.mp led
      obtain ⟨others, -, led⟩ := Option.bind_eq_some_iff.mp led
      obtain rfl : here :: others = later := Option.some.inj led
      obtain ⟨block, after, rfl⟩ := leavesAt_head lead
      have above : major < entry.hash := past entry List.mem_cons_self
      rw [List.flatten_cons, List.cons_append, List.map_cons] at ordered
      intro leaf member
      rw [List.flatten_cons, List.cons_append] at member
      rcases List.mem_cons.mp member with rfl | member
      · exact above
      · exact UInt32.lt_of_lt_of_le above
          ((List.pairwise_cons.mp ordered).1 leaf.2 (List.mem_map_of_mem member))

/-- Where a descent goes on from the entries of one index block: the leaves before the child
followed, its own, and those behind it, which in order all begin past the hash.
-/
theorem leavesOf_split (major : UInt32) {below : Nat} {low : UInt32} {first : DxEntry}
    {rest : List DxEntry} {leaves : List Child}
    (led : self.leavesOf blocks below low (first :: rest) = some leaves)
    : ∃ child before here later,
        (first :: rest)[partitionPoint major rest]?.map DxEntry.block = some child.1
        ∧ self.leavesAt blocks below child = some here
        ∧ (((first :: rest).drop (partitionPoint major rest + 1)).map
            fun entry => (entry.block, entry.hash)).mapM (self.leavesAt blocks below) = some later
        ∧ leaves = before ++ (here ++ later.flatten)
        ∧ ((leaves.map Prod.snd).Pairwise (· ≤ ·) → (∀ leaf ∈ later.flatten, major < leaf.2)
          ∧ (before = [] ∨ child.2 ≤ major)) := by
  obtain ⟨opening, others, lead, follow, rfl⟩ := leavesOf_cons led
  have inOrder (ordered : ((opening ++ others.flatten).map Prod.snd).Pairwise (· ≤ ·))
      : (others.flatten.map Prod.snd).Pairwise (· ≤ ·)
        ∧ (rest.map DxEntry.hash).Pairwise (· ≤ ·) := by
    have sub := sublist_leaves follow
    rw [List.map_map] at sub
    rw [List.map_append] at ordered
    have tail := ordered.sublist (List.sublist_append_right _ _)
    exact ⟨tail, tail.sublist sub⟩
  obtain ⟨front, back, rfl, count, sides⟩ := partitionPoint_split major rest
  rw [List.map_append] at follow
  obtain ⟨frontLists, later, frontLed, backLed, rfl⟩ := mapM_append_some follow
  rw [count, List.drop_succ_cons, List.drop_left]
  have beyond
      (ordered : ((opening ++ (frontLists ++ later).flatten).map Prod.snd).Pairwise (· ≤ ·))
      : ∀ leaf ∈ later.flatten, major < leaf.2 := by
    obtain ⟨tail, keys⟩ := inOrder ordered
    rw [List.flatten_append, List.map_append] at tail
    exact flatten_past backLed (tail.sublist (List.sublist_append_right _ _)) (sides keys).2
  rcases List.eq_nil_or_concat front with rfl | ⟨init, entry, rfl⟩
  · obtain rfl : [] = frontLists := Option.some.inj frontLed
    exact ⟨(first.block, low), [], opening, later, rfl, lead, backLed, rfl,
      fun ordered => ⟨beyond ordered, .inl rfl⟩⟩
  · rw [List.concat_eq_append] at frontLed
    rw [List.map_append] at frontLed
    obtain ⟨initLists, lastLists, initLed, lastLed, rfl⟩ := mapM_append_some frontLed
    rw [List.map_singleton, List.mapM_cons] at lastLed
    obtain ⟨here, lead, lastLed⟩ := Option.bind_eq_some_iff.mp lastLed
    obtain rfl : [here] = lastLists := Option.some.inj lastLed
    refine ⟨(entry.block, entry.hash), opening ++ initLists.flatten, here, later, ?_, lead,
      backLed, ?_, fun ordered => ⟨beyond ordered, .inr ?_⟩⟩
    · rw [List.concat_eq_append, List.length_append, List.length_singleton,
        List.getElem?_cons_succ, List.append_assoc,
        List.getElem?_append_right (Nat.le_refl _), Nat.sub_self]
      rfl
    · simp only [List.flatten_append, List.flatten_singleton, List.append_assoc]
    · refine (sides (inOrder ordered).2).1 entry ?_
      rw [List.concat_eq_append]
      exact List.mem_append_right _ List.mem_cons_self

/-- Descending to a hash, by induction on the levels below some entries. -/
theorem descendFrom_some (major : UInt32) {below : Nat} {block : Bytes} {countOffset : Nat}
    {low : UInt32} {entries : List DxEntry} {leaves : List Child}
    (read : readDxEntries block countOffset = .ok entries)
    (led : self.leavesOf blocks below low entries = some leaves)
    : ∃ path, self.descendFrom blocks (some major) below block countOffset = .ok (some path)
        ∧ path.length = below + 1 ∧ self.EndsAt blocks major leaves path := by
  induction below generalizing block countOffset low entries leaves with
  | zero =>
      obtain ⟨first, rest, rfl⟩ := readDxEntries_cons read
      obtain ⟨child, before, here, later, at_, lead, follow, rfl, sides⟩ :=
        leavesOf_split major led
      obtain rfl : [child] = here := Option.some.inj lead
      refine ⟨[(first :: rest, partitionPoint major rest)], ?_, rfl,
        ⟨before, child.2, later.flatten, ?_, ?_, sides⟩⟩
      · rw [descendFrom, read]
        rfl
      · simp only [leafOf, List.getLast?_singleton, at_, Option.getD_some]
        rfl
      · simp only [leavesAfter, List.length_nil]
        rw [follow]
        rfl
  | succ below ih =>
      obtain ⟨first, rest, rfl⟩ := readDxEntries_cons read
      obtain ⟨child, before, here, later, at_, lead, follow, rfl, sides⟩ :=
        leavesOf_split major led
      obtain ⟨_, _, opens⟩ := leavesAt_head lead
      obtain ⟨node, entries, mapped, nodeRead, nodeLed⟩ := leavesAt_succ lead
      obtain ⟨path, descended, long, ⟨inner, low', after, split, kept, nested⟩⟩ :=
        ih nodeRead nodeLed
      have some_ : path ≠ [] := List.ne_nil_of_length_pos (by omega)
      refine ⟨(first :: rest, partitionPoint major rest) :: path, ?_, ?_,
        ⟨before ++ inner, low', after ++ later.flatten, ?_, ?_, fun ordered => ?_⟩⟩
      · rw [descendFrom, read]
        change (self.dirBlockAt blocks (((first :: rest)[partitionPoint major rest]?.map
          DxEntry.block).getD 0) >>= _) = _
        rw [at_, Option.getD_some, mapped]
        change (self.descendFrom blocks (some major) below node dxNodeCountOffset >>= _) = _
        rw [descended]
        rfl
      · rw [List.length_cons, long]
      · rw [leafOf_cons some_, split]
        simp only [List.append_assoc, List.cons_append]
      · simp only [leavesAfter, long]
        rw [kept, follow]
        rfl
      · have hereOrdered : (here.map Prod.snd).Pairwise (· ≤ ·) := by
          refine ordered.sublist (List.Sublist.map _ ?_)
          exact (List.sublist_append_left _ _).trans (List.sublist_append_right _ _)
        obtain ⟨past, nearest⟩ := nested hereOrdered
        obtain ⟨beyond, least⟩ := sides ordered
        refine ⟨fun leaf member => (List.mem_append.mp member).elim (past leaf) (beyond leaf), ?_⟩
        rcases nearest with rfl | le
        · rw [List.append_nil]
          rw [List.nil_append] at split
          obtain rfl : low' = child.2 := by
            rw [opens] at split
            exact (congrArg Prod.snd (List.cons.inj split).1).symm
          exact least
        · exact .inr le

end

end Reader

end Ferrosys.Ext
