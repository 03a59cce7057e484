import Ferrosys.Ext.Dir
import Ferrosys.Ext.Extent.RoundTrip
import Ferrosys.Ext.Reader.Index.Tree
import Mathlib.Data.List.Nodup

/-! What the scan of a hash index promises of its lookups. A lookup reads the leaf a descent ends at
and those that continue it; the scan holds the names of each leaf to the hashes its range has.
-/

namespace Ferrosys.Ext

/-- A hash without its low bit. -/
theorem toNat_and_not_continued (hash : UInt32)
    : (hash &&& ~~~dxHashContinued).toNat = hash.toNat / 2 * 2 := by
  have bound := hash.toNat_lt
  have half : (hash &&& ~~~dxHashContinued).toNat / 2 = hash.toNat / 2 := by
    rw [UInt32.toNat_and, Nat.and_div_two,
      show (~~~dxHashContinued).toNat / 2 = 2 ^ 31 - 1 by decide,
      Nat.and_two_pow_sub_one_eq_mod, Nat.mod_eq_of_lt (by omega)]
  have even : (hash &&& ~~~dxHashContinued).toNat % 2 = 0 := by
    rw [UInt32.toNat_and]
    have low := @Nat.and_mod_two_pow hash.toNat (~~~dxHashContinued).toNat 1
    rwa [show (~~~dxHashContinued).toNat % 2 ^ 1 = 0 by decide, Nat.and_zero] at low
  omega

/-- A hash with its low bit. -/
theorem toNat_or_continued (hash : UInt32)
    : (hash ||| dxHashContinued).toNat = hash.toNat / 2 * 2 + 1 := by
  have half : (hash ||| dxHashContinued).toNat / 2 = hash.toNat / 2 := by
    rw [UInt32.toNat_or, Nat.or_div_two, show dxHashContinued.toNat / 2 = 0 by decide, Nat.or_zero]
  have odd : (hash ||| dxHashContinued).toNat % 2 = 1 := by
    rw [UInt32.toNat_or]
    exact Nat.or_mod_two_eq_one.mpr (.inr rfl)
  omega

/-- The hash the end of the space is moved to is two below it. -/
theorem unmovedMajor_eq_some {major unmoved : UInt32} (moved : unmovedMajor major = some unmoved)
    : major.toNat = 0xfffffffc ∧ unmoved.toNat = 0xfffffffe := by
  unfold unmovedMajor at moved
  split at moved
  next same =>
    obtain rfl := Option.some.inj moved
    rw [same]
    exact ⟨by decide, by decide⟩
  next => cases moved

/-- A leaf that begins past a hash, and no further than a leaf the name is placed in, goes on with
the hash.
-/
theorem continues_of_placed {major low between : UInt32} {high : Option UInt32}
    (even : major.toNat % 2 = 0) (fit : placed major low high) (past : major < between)
    (under : between ≤ low) : continues major between := by
  have past : major.toNat < between.toNat := UInt32.lt_iff_toNat_lt.mp past
  have under : between.toNat ≤ low.toNat := UInt32.le_iff_toNat_le.mp under
  have bound := between.toNat_lt
  simp only [placed, Bool.or_eq_true, Option.any_eq_true] at fit
  simp only [continues, Bool.or_eq_true, Option.any_eq_true, beq_iff_eq, ← UInt32.toNat_inj,
    toNat_and_not_continued, toNat_or_continued]
  rcases fit with fit | ⟨unmoved, moved, -⟩
  · simp only [fits, Bool.and_eq_true, decide_eq_true_eq, UInt32.le_iff_toNat_le,
      toNat_and_not_continued] at fit
    have least := fit.1
    exact .inl (by omega)
  · obtain ⟨at_, end_⟩ := unmovedMajor_eq_some moved
    by_cases next : between.toNat = major.toNat / 2 * 2 + 1
    · exact .inl next
    · exact .inr ⟨unmoved, moved, by omega⟩

/-- No name is placed in a leaf whose range ends at or below its hash. -/
theorem not_placed {major low high : UInt32} (even : major.toNat % 2 = 0) (ends : high ≤ major)
    : ¬placed major low (some high) := by
  intro fit
  have ends : high.toNat ≤ major.toNat := UInt32.le_iff_toNat_le.mp ends
  have bound := high.toNat_lt
  simp only [placed, Bool.or_eq_true, Option.any_eq_true] at fit
  rcases fit with fit | ⟨unmoved, moved, fit⟩
  · simp only [fits, Bool.and_eq_true, Bool.or_eq_true, decide_eq_true_eq, beq_iff_eq,
      UInt32.lt_iff_toNat_lt, ← UInt32.toNat_inj, toNat_and_not_continued,
      toNat_or_continued] at fit
    have least := fit.2
    omega
  · obtain ⟨at_, end_⟩ := unmovedMajor_eq_some moved
    simp only [fits, Bool.and_eq_true, Bool.or_eq_true, decide_eq_true_eq, beq_iff_eq,
      UInt32.lt_iff_toNat_lt, ← UInt32.toNat_inj, toNat_and_not_continued,
      toNat_or_continued] at fit
    have least := fit.2
    omega

/-- The leaf a name is placed in is the one a descent to its hash ends at, or comes after it with
only leaves between that go on with the hash: before it every range ends too soon.
-/
theorem placed_after {major low : UInt32} {leaves before after earlier later : List Child}
    {block : UInt32} {leaf : Child} (even : major.toNat % 2 = 0)
    (ordered : (leaves.map Prod.snd).Pairwise (· ≤ ·))
    (split : leaves = before ++ (block, low) :: after)
    (past : ∀ leaf ∈ after, major < leaf.2) (nearest : before = [] ∨ low ≤ major)
    (here : leaves = earlier ++ leaf :: later)
    (fit : placed major leaf.2 (later.head?.map Prod.snd))
    : ∃ front back, after = front ++ back ∧ leaf.1 ∈ block :: front.map Prod.fst
        ∧ ∀ leaf ∈ front, continues major leaf.2 := by
  rcases List.append_eq_append_iff.mp (split.symm.trans here) with
    ⟨between, rfl, rest⟩ | ⟨between, rfl, rest⟩
  · cases between with
    | nil =>
        obtain ⟨rfl, rfl⟩ := List.cons.inj rest
        exact ⟨[], after, rfl, List.mem_cons_self, nofun⟩
    | cons first between =>
        obtain ⟨-, rfl⟩ := List.cons.inj rest
        refine ⟨between ++ [leaf], later, (List.append_cons between leaf later),
          List.mem_cons_of_mem _ (List.mem_map_of_mem (List.mem_append_right _
            List.mem_cons_self)), fun other member => ?_⟩
        refine continues_of_placed even fit (past other ?_) ?_
        · rcases List.mem_append.mp member with member | member
          · exact List.mem_append_left _ member
          · exact List.mem_append_right _ (List.mem_singleton.mp member ▸ List.mem_cons_self)
        · rcases List.mem_append.mp member with member | member
          · rw [here, List.map_append, List.pairwise_append] at ordered
            exact ordered.2.2 other.2 (List.mem_map_of_mem (List.mem_append_right _
              (List.mem_cons_of_mem _ member))) leaf.2 List.mem_cons_self
          · exact List.mem_singleton.mp member ▸ UInt32.le_refl _
  · cases between with
    | nil =>
        obtain ⟨rfl, rfl⟩ := List.cons.inj rest
        exact ⟨[], later, rfl, List.mem_cons_self, nofun⟩
    | cons first between =>
        obtain ⟨rfl, rfl⟩ := List.cons.inj rest
        -- The name's leaf is before the one descended to: the range of it ends by there.
        have low_le : low ≤ major := nearest.resolve_left (by simp)
        exfalso
        cases between with
        | nil => exact not_placed even low_le fit
        | cons second between =>
            refine not_placed even (UInt32.le_trans ?_ low_le) fit
            rw [split, List.map_append, List.pairwise_append] at ordered
            exact ordered.2.2 second.2 (List.mem_map_of_mem (List.mem_append_right _
              (List.mem_cons_of_mem _ List.mem_cons_self))) low List.mem_cons_self

/-- What an index leads to: the entries of one of its leaves. -/
def Reader.Leads (self : Reader) (blocks : List Nat) (leaf : UInt32) (visited : List DirEntry)
    : Prop :=
  ∃ block, self.dirBlockAt blocks leaf = .ok (some block)
    ∧ self.forEachEntryInBlock block = (visited, none)

namespace Reader

variable {self : Reader} {blocks : List Nat}

/-- A leaf's entries are determined by it. -/
theorem Leads.unique {leaf : UInt32} {visited other : List DirEntry}
    (leads : self.Leads blocks leaf visited) (also : self.Leads blocks leaf other)
    : visited = other := by
  obtain ⟨block, mapped, walked⟩ := leads
  obtain ⟨block', mapped', walked'⟩ := also
  obtain rfl := Option.some.inj (Except.ok.inj (mapped.symm.trans mapped'))
  exact congrArg Prod.fst (walked.symm.trans walked')

/-- A look into a leaf a path leads to. -/
theorem findFrom_eq {major : UInt32} {name : Bytes} {turns : Nat} {path : IndexPath}
    {visited : List DirEntry} (leads : self.Leads blocks (leafOf path) visited)
    : self.findFrom blocks major name (turns + 1) path
      = match visited.find? (·.name == name) with
        | some entry => .ok (.found entry.inode)
        | none => do
            match ← self.nextLeaf blocks path with
            | .ended => return .absent
            | .unusable => return .unusable
            | .leaf next path =>
                if continues major next then self.findFrom blocks major name turns path
                else return .absent := by
  obtain ⟨block, mapped, walked⟩ := leads
  rw [findFrom, mapped, Checked.ok_bind]
  simp only [walked]
  cases visited.find? (·.name == name) <;> rfl

/-- A look into a leaf: the name is in it, or it goes on from the next leaf. -/
theorem findFrom_succ {major : UInt32} {name : Bytes} {turns : Nat} {path : IndexPath}
    {after : List Child} {visited : List DirEntry}
    (leads : self.Leads blocks (leafOf path) visited)
    (left : self.leavesAfter blocks path = some after)
    : (∃ entry ∈ visited, entry.name = name
        ∧ self.findFrom blocks major name (turns + 1) path = .ok (.found entry.inode))
      ∨ (∀ entry ∈ visited, entry.name ≠ name) ∧ (
        (self.findFrom blocks major name (turns + 1) path = .ok .absent
          ∧ ∀ leaf ∈ after.head?, continues major leaf.2 = false)
        ∨ ∃ leaf rest next, after = leaf :: rest ∧ continues major leaf.2
          ∧ leafOf next = leaf.1 ∧ self.leavesAfter blocks next = some rest
          ∧ self.findFrom blocks major name (turns + 1) path
            = self.findFrom blocks major name turns next) := by
  rw [findFrom_eq leads]
  cases found : visited.find? (·.name == name) with
  | some entry =>
      have same := List.find?_some found
      exact .inl ⟨entry, List.mem_of_find?_eq_some found, beq_iff_eq.mp same, rfl⟩
  | none =>
      refine .inr ⟨fun entry member same => ?_, ?_⟩
      · exact List.find?_eq_none.mp found entry member (beq_iff_eq.mpr same)
      · have moves := nextLeaf_eq left
        cases after with
        | nil =>
            have ends : self.nextLeaf blocks path = .ok .ended := moves
            refine .inl ⟨?_, fun leaf first => absurd first (Option.not_mem_none leaf)⟩
            dsimp only
            rw [ends]
            rfl
        | cons leaf rest =>
            obtain ⟨child, low⟩ := leaf
            obtain ⟨next, moved, -, leafAt, kept⟩ := moves
            dsimp only
            rw [moved, Checked.ok_bind]
            dsimp only
            cases goes : continues major low with
            | true => exact .inr ⟨_, rest, next, rfl, goes, leafAt, kept, if_pos rfl⟩
            | false =>
                refine .inl ⟨if_neg Bool.false_ne_true, fun leaf first => ?_⟩
                obtain rfl : (child, low) = leaf := Option.some.inj first
                exact goes

/-- Looking from a path on finds a name of its leaf, or of one of those past it that go on with the
hash: by induction on these.
-/
theorem findFrom_found {major : UInt32} {name : Bytes} {inode target : UInt32} {turns : Nat}
    {path : IndexPath} {front back : List Child}
    (left : self.leavesAfter blocks path = some (front ++ back))
    (between : ∀ leaf ∈ front, continues major leaf.2) (enough : front.length < turns)
    (walks : ∀ leaf ∈ leafOf path :: front.map Prod.fst, ∃ visited,
      self.Leads blocks leaf visited ∧ ∀ entry ∈ visited, entry.name = name → entry.inode = inode)
    (listed : target ∈ leafOf path :: front.map Prod.fst)
    (holds : ∃ visited, self.Leads blocks target visited ∧ ∃ entry ∈ visited, entry.name = name)
    : self.findFrom blocks major name turns path = .ok (.found inode) := by
  induction front generalizing path turns with
  | nil =>
      obtain ⟨turns, rfl⟩ := Nat.exists_eq_add_of_lt enough
      obtain ⟨visited, leads, agree⟩ := walks _ List.mem_cons_self
      obtain rfl := List.mem_singleton.mp listed
      obtain ⟨also, same, entry, member, named⟩ := holds
      obtain rfl := leads.unique same
      rcases findFrom_succ leads left with ⟨first, inside, alike, found⟩ | ⟨without, -⟩
      · rw [agree first inside alike] at found
        exact found
      · exact absurd named (without entry member)
  | cons leaf rest ih =>
      obtain ⟨turns, rfl⟩ : ∃ more, turns = more + 1 := ⟨turns - 1, by omega⟩
      rw [List.length_cons] at enough
      obtain ⟨visited, leads, agree⟩ := walks _ List.mem_cons_self
      rcases findFrom_succ leads left with ⟨first, inside, alike, found⟩ | ⟨without, moved⟩
      · rw [agree first inside alike] at found
        exact found
      · rcases moved with ⟨-, stops⟩ | ⟨next, later, path', split, -, leafAt, kept, same⟩
        · have goes := between leaf List.mem_cons_self
          rw [stops leaf rfl] at goes
          cases goes
        · obtain ⟨rfl, rfl⟩ := List.cons.inj split
          rw [same]
          refine ih kept (fun leaf member => between leaf (List.mem_cons_of_mem _ member))
            (by omega) (fun leaf member => walks leaf ?_) ?_
          · rw [leafAt] at member
            exact List.mem_cons_of_mem _ member
          · rw [leafAt]
            rcases List.mem_cons.mp listed with rfl | listed
            · obtain ⟨also, same, entry, member, named⟩ := holds
              obtain rfl := leads.unique same
              exact absurd named (without entry member)
            · exact listed

/-- What looking from a path on finds is in its leaf or in one past it, by induction on the turns.
-/
theorem mem_of_findFrom {major : UInt32} {name : Bytes} {inode : UInt32} {turns : Nat}
    {path : IndexPath} {after : List Child}
    (left : self.leavesAfter blocks path = some after)
    (walks : ∀ leaf ∈ leafOf path :: after.map Prod.fst, ∃ visited, self.Leads blocks leaf visited)
    (found : self.findFrom blocks major name turns path = .ok (.found inode))
    : ∃ leaf ∈ leafOf path :: after.map Prod.fst, ∃ visited, self.Leads blocks leaf visited
        ∧ ∃ entry ∈ visited, entry.name = name ∧ entry.inode = inode := by
  induction turns generalizing path after with
  | zero => cases found
  | succ turns ih =>
      obtain ⟨visited, leads⟩ := walks _ List.mem_cons_self
      rcases findFrom_succ leads left with ⟨first, inside, alike, same⟩ | ⟨-, ⟨same, -⟩ | moved⟩
      · rw [same] at found
        obtain rfl : first.inode = inode := Indexed.found.inj (Except.ok.inj found)
        exact ⟨_, List.mem_cons_self, visited, leads, first, inside, alike, rfl⟩
      · rw [same] at found
        cases found
      · obtain ⟨next, rest, path', rfl, -, leafAt, kept, same⟩ := moved
        rw [same] at found
        obtain ⟨leaf, member, held⟩ := ih kept
          (fun leaf member => walks leaf (by
            rw [leafAt] at member
            exact List.mem_cons_of_mem _ member)) found
        rw [leafAt] at member
        exact ⟨leaf, List.mem_cons_of_mem _ member, held⟩

/-- The leaves from a path on, by induction on the turns: its own, and those past it. -/
theorem leavesFrom_eq {turns : Nat} {path : IndexPath} {low : UInt32} {after : List Child}
    (left : self.leavesAfter blocks path = some after) (enough : after.length < turns)
    : self.leavesFrom blocks turns path low = some ((leafOf path, low) :: after) := by
  induction turns generalizing path low after with
  | zero => cases enough
  | succ turns ih =>
      have moves := nextLeaf_eq left
      cases after with
      | nil =>
          have ends : self.nextLeaf blocks path = .ok .ended := moves
          rw [leavesFrom, ends]
      | cons leaf rest =>
          obtain ⟨block, hash⟩ := leaf
          obtain ⟨next, moved, -, leafAt, kept⟩ := moves
          rw [leavesFrom, moved]
          dsimp only
          rw [ih kept (Nat.lt_of_succ_lt_succ enough), leafAt]
          rfl

/-- Where no leaf has a misplaced name, each has none: by induction on the leaves before it. -/
theorem misplacedIn_eq_none {hashing : Hashing} {index : DirIndex} {earlier later : List Child}
    {leaf : Child} (passed : self.misplaced hashing index (earlier ++ leaf :: later) = none)
    : self.misplacedIn hashing index leaf (later.head?.map Prod.snd) = none := by
  induction earlier with
  | nil => exact (Option.or_eq_none_iff.mp passed).1
  | cons first rest ih => exact ih (Option.or_eq_none_iff.mp passed).2

/-- In a leaf with no misplaced name every name is placed. -/
theorem placed_of_misplacedIn {hashing : Hashing} {index : DirIndex} {leaf : Child}
    {high : Option UInt32} {visited : List DirEntry}
    (passed : self.misplacedIn hashing index leaf high = none)
    (leads : self.Leads index.blocks leaf.1 visited) (entry : DirEntry) (member : entry ∈ visited)
    : placed (majorOf hashing index entry.name) leaf.2 high := by
  obtain ⟨block, mapped, walked⟩ := leads
  rw [misplacedIn, mapped] at passed
  dsimp only at passed
  rw [walked, Option.map_eq_none_iff, List.find?_eq_none] at passed
  simpa using passed entry member

/-- An index is over the directory's own blocks. -/
theorem dirIndex_blocks {hashing : Hashing} {dir : Inode} {index : DirIndex}
    (opened : self.dirIndex hashing dir = .ok (some index))
    : self.dataBlocks dir = .ok index.blocks := by
  unfold dirIndex at opened
  split at opened
  next => cases opened
  next =>
    obtain ⟨blocks, mapped, opened⟩ := Checked.bind_eq_ok.mp opened
    obtain ⟨root, -, opened⟩ := Checked.bind_eq_ok.mp opened
    split at opened
    next =>
      split at opened
      next =>
        repeat' split at opened
        all_goals dsimp only at opened
        all_goals repeat' split at opened
        all_goals cases opened
        all_goals exact mapped
      next => cases opened
    next => cases opened

/-- A hash index a reader can follow: it opens, every node of it is an index node, and every block
it names as a leaf is one the directory has. These are its leaves in tree order.
-/
structure Follows (reader : Reader) (hashing : Hashing) (dir : Inode) (index : DirIndex)
    (leaves : List Child) : Prop where
  opened : reader.dirIndex hashing dir = .ok (some index)
  tree : ∃ entries, readDxEntries index.root dxRootCountOffset = .ok entries
    ∧ reader.leavesOf index.blocks index.levels 0 entries = some leaves
  mapped : ∀ leaf ∈ leaves, ∃ block, reader.dirBlockAt index.blocks leaf.1 = .ok (some block)

/-- An entry is not one of the two every directory begins with. -/
def Named (entry : DirEntry) : Prop := entry.name ≠ [46] ∧ entry.name ≠ [46, 46]
deriving Decidable

/-- An index leads to an entry that lies in a block it names as a leaf. -/
def Reaches (self : Reader) (index : DirIndex) (leaves : List Child) (entry : DirEntry) : Prop :=
  ∃ leaf ∈ leaves, ∃ visited, self.Leads index.blocks leaf.1 visited ∧ entry ∈ visited

section

variable {hashing : Hashing} {dir : Inode} {index : DirIndex} {leaves : List Child} {cap : Nat}
  {entries : List DirEntry}

/-- A block a listed directory has leads to entries that are listed. -/
theorem leads_of_readDir (listed : self.readDir cap dir = .ok entries)
    (mapped : self.dataBlocks dir = .ok blocks) {leaf : UInt32} {block : Bytes}
    (here : self.dirBlockAt blocks leaf = .ok (some block))
    : ∃ visited, self.Leads blocks leaf visited ∧ ∀ entry ∈ visited, entry ∈ entries := by
  obtain ⟨blocks', mapped', all, -⟩ := readDir_holds listed
  obtain rfl := Except.ok.inj (mapped.symm.trans mapped')
  unfold dirBlockAt at here
  split at here
  next phys found =>
    obtain ⟨inside, some_⟩ := Option.filter_eq_some_iff.mp found
    obtain ⟨visited, ⟨block', read, walked⟩, kept⟩ :=
      all phys (List.mem_of_getElem? inside) (of_decide_eq_true some_)
    refine ⟨visited, ⟨block', ?_, walked⟩, kept⟩
    rw [dirBlockAt, found]
    dsimp only
    rw [read]
    rfl
  next => cases here

/-- A lookup through an index a reader can follow is a look from the path its descent ends with. -/
theorem Follows.findIndexed_eq (follows : self.Follows hashing dir index leaves) (name : Bytes)
    : ∃ path, self.EndsAt index.blocks (majorOf hashing index name) leaves path
        ∧ self.findIndexed hashing dir name
          = self.findFrom index.blocks (majorOf hashing index name) name index.blocks.length
              path := by
  obtain ⟨keys, read, led⟩ := follows.tree
  obtain ⟨path, descended, -, ends⟩ :=
    descendFrom_some (majorOf hashing index name) read led
  refine ⟨path, ends, ?_⟩
  rw [findIndexed, follows.opened, Checked.ok_bind]
  dsimp only
  rw [descend, descended]
  rfl

/-- A scan that passes an index a reader can follow has placed every name of every leaf, where there
are no more of these than the directory has blocks.
-/
theorem Follows.placed (follows : self.Follows hashing dir index leaves)
    (few : leaves.length ≤ index.blocks.length) (passed : self.scanIndex hashing dir = none)
    {earlier later : List Child} {leaf : Child} (split : leaves = earlier ++ leaf :: later)
    {visited : List DirEntry} (leads : self.Leads index.blocks leaf.1 visited)
    {entry : DirEntry} (member : entry ∈ visited)
    : placed (majorOf hashing index entry.name) leaf.2 (later.head?.map Prod.snd) := by
  obtain ⟨keys, read, led⟩ := follows.tree
  obtain ⟨path, after, descended, -, all, left⟩ := descendFrom_none read led
  have enough : after.length < index.blocks.length := by
    rw [all, List.length_cons] at few
    exact few
  rw [scanIndex, follows.opened] at passed
  dsimp only at passed
  rw [descend, descended] at passed
  dsimp only at passed
  rw [leavesFrom_eq left enough, ← all, split] at passed
  exact placed_of_misplacedIn (misplacedIn_eq_none passed) leads entry member

/-- Of listed entries with distinct names, one name has one inode. -/
theorem inode_eq_of_name (distinct : (entries.map DirEntry.name).Nodup) {one two : DirEntry}
    (first : one ∈ entries) (second : two ∈ entries) (same : one.name = two.name)
    : one = two :=
  List.inj_on_of_nodup_map distinct first second same

/-- A lookup that finds a listed entry shows that the index leads to it. -/
theorem Follows.reaches (follows : self.Follows hashing dir index leaves)
    (listed : self.readDir cap dir = .ok entries) (distinct : (entries.map DirEntry.name).Nodup)
    {entry : DirEntry} (member : entry ∈ entries)
    (found : self.findIndexed hashing dir entry.name = .ok (.found entry.inode))
    : self.Reaches index leaves entry := by
  obtain ⟨path, ⟨before, low, after, split, left, -⟩, same⟩ := follows.findIndexed_eq entry.name
  have walks (leaf : UInt32) (inside : leaf ∈ leafOf path :: after.map Prod.fst)
      : ∃ child ∈ leaves, child.1 = leaf ∧ ∃ visited, self.Leads index.blocks leaf visited
          ∧ ∀ entry ∈ visited, entry ∈ entries := by
    obtain ⟨child, within, rfl⟩ : ∃ child ∈ leaves, child.1 = leaf := by
      rw [split]
      rcases List.mem_cons.mp inside with rfl | inside
      · exact ⟨_, List.mem_append_right _ List.mem_cons_self, rfl⟩
      · obtain ⟨child, behind, same⟩ := List.mem_map.mp inside
        exact ⟨child, List.mem_append_right _ (List.mem_cons_of_mem _ behind), same⟩
    obtain ⟨block, here⟩ := follows.mapped child within
    exact ⟨child, within, rfl, leads_of_readDir listed (dirIndex_blocks follows.opened) here⟩
  rw [same] at found
  obtain ⟨leaf, inside, visited, leads, other, holds, named, -⟩ := mem_of_findFrom left
    (fun leaf inside => by
      obtain ⟨-, -, -, visited, leads, -⟩ := walks leaf inside
      exact ⟨visited, leads⟩) found
  obtain ⟨child, within, rfl, visited', leads', kept⟩ := walks leaf inside
  obtain rfl := leads.unique leads'
  obtain rfl := inode_eq_of_name distinct (kept other holds) member named
  exact ⟨child, within, visited, leads, holds⟩

/-- A lookup finds a listed entry the index leads to, where the scan passes the index, its keys are
in order, and it has no more leaves than the directory has blocks.
-/
theorem Follows.found (follows : self.Follows hashing dir index leaves)
    (listed : self.readDir cap dir = .ok entries) (distinct : (entries.map DirEntry.name).Nodup)
    (passed : self.scanIndex hashing dir = none)
    (ordered : (leaves.map Prod.snd).Pairwise (· ≤ ·))
    (few : leaves.length ≤ index.blocks.length) {entry : DirEntry} (member : entry ∈ entries)
    (reaches : self.Reaches index leaves entry)
    : self.findIndexed hashing dir entry.name = .ok (.found entry.inode) := by
  obtain ⟨leaf, within, visited, leads, holds⟩ := reaches
  obtain ⟨earlier, later, here⟩ := List.append_of_mem within
  have fit := follows.placed few passed here leads holds
  obtain ⟨path, ⟨before, low, after, split, left, sides⟩, same⟩ := follows.findIndexed_eq entry.name
  obtain ⟨past, nearest⟩ := sides ordered
  have even : (majorOf hashing index entry.name).toNat % 2 = 0 := by
    have clear := congrArg UInt32.toNat
      (dirHash_major entry.name index.version index.signedness hashing.seed).1
    rw [UInt32.toNat_and, show UInt32.toNat 1 = 1 by rfl, Nat.and_one_is_mod] at clear
    exact clear
  obtain ⟨front, back, rfl, listedLeaf, between⟩ :=
    placed_after even ordered split past nearest here fit
  rw [same]
  refine findFrom_found left between ?_ (fun leaf inside => ?_) listedLeaf
    ⟨visited, leads, entry, holds, rfl⟩
  · rw [split] at few
    simp only [List.length_append, List.length_cons] at few
    omega
  · obtain ⟨child, among, rfl⟩ : ∃ child ∈ leaves, child.1 = leaf := by
      rw [split]
      rcases List.mem_cons.mp inside with rfl | inside
      · exact ⟨_, List.mem_append_right _ List.mem_cons_self, rfl⟩
      · obtain ⟨child, behind, same⟩ := List.mem_map.mp inside
        exact ⟨child, List.mem_append_right _ (List.mem_cons_of_mem _
          (List.mem_append_left _ behind)), same⟩
    obtain ⟨block, mapped⟩ := follows.mapped child among
    obtain ⟨visited, leads, kept⟩ :=
      leads_of_readDir listed (dirIndex_blocks follows.opened) mapped
    exact ⟨visited, leads, fun other held named => congrArg DirEntry.inode
      (inode_eq_of_name distinct (kept other held) member named)⟩

/-- A directory the scan passes is one whose lookups find every name where its index leads to every
name, has its keys in order and has no more leaves than the directory has blocks; and where lookups
find every name, the index leads to every name.
-/
theorem findIndexed_of_scanIndex (follows : self.Follows hashing dir index leaves)
    (listed : self.readDir cap dir = .ok entries) (distinct : (entries.map DirEntry.name).Nodup)
    (passed : self.scanIndex hashing dir = none)
    : ((∀ entry ∈ entries, Named entry →
          self.findIndexed hashing dir entry.name = .ok (.found entry.inode))
        → ∀ entry ∈ entries, Named entry → self.Reaches index leaves entry)
      ∧ ((leaves.map Prod.snd).Pairwise (· ≤ ·) → leaves.length ≤ index.blocks.length
        → (∀ entry ∈ entries, Named entry → self.Reaches index leaves entry)
        → ∀ entry ∈ entries, Named entry →
          self.findIndexed hashing dir entry.name = .ok (.found entry.inode)) :=
  ⟨fun found entry member named =>
      follows.reaches listed distinct member (found entry member named),
    fun ordered few reaches entry member named =>
      follows.found listed distinct passed ordered few member (reaches entry member named)⟩

end

end Reader

/-- A reader of an image whose blocks from the third on are these. -/
def dirReader (blocks : List Bytes) (small : (zeros 2048 ++ blocks.flatten).length < 2 ^ 63)
    : Reader :=
  let reader := imageReader (zeros 2048 ++ blocks.flatten) (2 + blocks.length) small
  { reader with sb := { reader.sb with inodesCount := 16 } }

/-- A directory over the three blocks from the third on, as many of them as its size says. -/
def indexedDir (size : Nat) : Inode :=
  ⟨0o040755, size, 0, InodeFlags.index, 0,
    toLeBytes32 2 ++ toLeBytes32 3 ++ toLeBytes32 4 ++ zeros 48⟩

/-- Names hash unseeded, and as unsigned. -/
def plainHashing : Hashing := ⟨zeros 16, 0⟩

/-- The root of an index with these entries. -/
def indexRoot (entries : List DxEntry) : Bytes :=
  (do
    let root ← writeDxRootHeader (zeros 1024) 11 2 HashVersion.legacy.toU8 0
    writeDxEntries root dxRootCountOffset (dxLimit 1024 dxRootCountOffset false) entries)
  |>.toOption.getD []

/-- A block that holds one file, or none where the inode is zero. -/
def fileBlock (inode : UInt32) (name : Bytes) : Bytes :=
  (packOneBlock [⟨inode, .regFile, name⟩] 1024 0).toOption.getD []

/-- The two entries of an index's root. -/
def dots : List DirEntry := [⟨11, .dir, [46]⟩, ⟨2, .dir, [46, 46]⟩]

def leafReader : Reader := dirReader [indexRoot [⟨0, 1⟩], fileBlock 12 [97]] (by decide +kernel)

/-- An index that reads back and whose every leaf is mapped is one a reader can follow. -/
theorem follows_of {reader : Reader} {dir : Inode} {index : DirIndex} {keys : List DxEntry}
    {leaves : List Child}
    (checked : reader.dirIndex plainHashing dir = .ok (some index)
      ∧ readDxEntries index.root dxRootCountOffset = .ok keys
      ∧ reader.leavesOf index.blocks index.levels 0 keys = some leaves
      ∧ leaves.all fun leaf => (reader.dirBlockAt index.blocks leaf.1).toOption.join.isSome)
    : reader.Follows plainHashing dir index leaves := by
  obtain ⟨opened, read, led, mapped⟩ := checked
  refine ⟨opened, ⟨keys, read, led⟩, fun leaf member => ?_⟩
  have there := List.all_eq_true.mp mapped leaf member
  cases here : reader.dirBlockAt index.blocks leaf.1 with
  | error error =>
      rw [here] at there
      cases there
  | ok block =>
      cases block with
      | none =>
          rw [here] at there
          cases there
      | some block => exact ⟨block, rfl⟩

/-- An index over the one block of entries a directory has leads to its name. -/
theorem findIndexed_of_leaf : leafReader.findIndexed plainHashing (indexedDir 2048) [97]
    = .ok (.found 12) := by
  have follows : leafReader.Follows plainHashing (indexedDir 2048)
      ⟨[2, 3], indexRoot [⟨0, 1⟩], 0, .legacy, .unsigned⟩ [(1, 0)] :=
    @follows_of _ _ _ [⟨0, 1⟩] _ (by decide +kernel)
  have listed : leafReader.readDir 16 (indexedDir 2048)
      = .ok (dots ++ [⟨12, .regFile, [97]⟩]) := by decide +kernel
  have spec := Reader.findIndexed_of_scanIndex follows listed (by decide) (by decide +kernel)
  refine spec.2 (List.pairwise_singleton _ _) (by decide) (fun entry member named => ?_)
    ⟨12, .regFile, [97]⟩ (by decide) (by decide)
  simp only [dots, List.cons_append, List.nil_append, List.mem_cons, List.not_mem_nil,
    or_false] at member
  rcases member with rfl | rfl | rfl
  · exact absurd rfl named.1
  · exact absurd rfl named.2
  · exact ⟨(1, 0), List.mem_cons_self, [⟨12, .regFile, [97]⟩],
      ⟨fileBlock 12 [97], by decide +kernel⟩, List.mem_cons_self⟩

/-- A reader of a directory that the scan passes, and one of whose listed names a lookup does not
find.
-/
def PassesWithout (reader : Reader) (leaves : List Child) (lost : DirEntry) : Prop :=
  ∃ index entries,
    reader.Follows plainHashing (indexedDir 3072) index leaves
    ∧ reader.readDir 16 (indexedDir 3072) = .ok entries
    ∧ (entries.map DirEntry.name).Nodup
    ∧ reader.scanIndex plainHashing (indexedDir 3072) = none
    ∧ lost ∈ entries ∧ Reader.Named lost
    ∧ reader.findIndexed plainHashing (indexedDir 3072) lost.name = .ok .absent

/-- A block the index does not name holds a name the directory lists. The scan passes the directory,
and a lookup through its index says the name is not there.
-/
theorem scanIndex_passes_stray
    : PassesWithout (dirReader [indexRoot [⟨0, 1⟩], fileBlock 12 [97], fileBlock 13 [98]]
        (by decide +kernel)) [(1, 0)] ⟨13, .regFile, [98]⟩ := by
  refine ⟨⟨[2, 3, 4], indexRoot [⟨0, 1⟩], 0, .legacy, .unsigned⟩,
    dots ++ [⟨12, .regFile, [97]⟩, ⟨13, .regFile, [98]⟩],
    @follows_of _ _ _ [⟨0, 1⟩] _ (by decide +kernel), by decide +kernel⟩

end Ferrosys.Ext
