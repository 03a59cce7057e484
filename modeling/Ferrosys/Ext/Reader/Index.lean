import Ferrosys.Ext.Dirent
import Ferrosys.Ext.Hash
import Ferrosys.Ext.Htree
import Ferrosys.Ext.Reader.Map
import Ferrosys.Library.Bisect

/-! Listing a directory: the walk over one block that every reading of a directory goes through, and
the whole directory's entries.
-/

namespace Ferrosys.Ext

open Loop

/-- A name no entry of a directory can have. -/
def isHostileEntry (name : Bytes) : Bool := name.isEmpty || name.contains 47 || name.contains 0

/-- A failure to list a directory. -/
inductive ListError where
  | read (error : ReadError)
  | walkTooLarge (limit : Nat)
deriving DecidableEq

/-- A walk over a block: what is left of it, and the live entries it has come by. -/
structure Visiting where
  left : Bytes
  visited : List DirEntry
deriving DecidableEq

namespace Reader

variable (self : Reader)

/-- An entry names an inode the filesystem has. -/
def checkDirEntryInode (inode : UInt32) : Except ReadError Unit :=
  if self.sb.inodesCount < inode.toNat then .error (.dirEntryNoSuchInode inode.toNat) else .ok ()

/-- What is wrong with a live entry. -/
def entryFault (entry : DirEntry) : Option ReadError :=
  if isHostileEntry entry.name then some (.hostileName entry.inode.toNat)
  else
    match self.checkDirEntryInode entry.inode with
    | .error error => some error
    | .ok () => none

/-- One turn: the end of the block, or one record. An unused one is passed over, and so is one a
policy reads past.
-/
def visitTurn (visiting : Visiting)
    : Next Visiting (List DirEntry × Option ReadError) :=
  if visiting.left.isEmpty then .stop (visiting.visited, none)
  else
    match DirEntry.readFrom visiting.left self.blockSize with
    | .error error => .stop (visiting.visited, some (.parse error))
    | .ok (entry, recLen) =>
        let left := visiting.left.drop recLen
        if recLen = 0 then .stop (visiting.visited, some .badDirectory)
        else if entry.inode = 0 then .go ⟨left, visiting.visited⟩
        else
          match self.entryFault entry with
          | none => .go ⟨left, visiting.visited ++ [entry]⟩
          | some fault =>
              if self.policy.isFatal .structural then .stop (visiting.visited, some fault)
              else .go ⟨left, visiting.visited⟩

/-- The live entries of one block in order, and the failure the walk over it ends at. A visitor that
breaks off sees the entries up to there, and no failure past them.
-/
def forEachEntryInBlock (block : Bytes) : List DirEntry × Option ReadError :=
  (run self.visitTurn (block.length + 1) ⟨block, []⟩).getD ([], some .badDirectory)

/-- An inode's map. -/
def dataBlocks (inode : Inode) : Except ReadError (List Nat) :=
  self.mapWindow inode 0 (self.logicalBlockCount inode)

/-- A listing under way: the blocks read, and the entries gathered. -/
structure Gathering where
  seen : List Nat
  entries : List DirEntry

/-- Gather one block's entries. A block the map does not name, or has named before, holds none. -/
def gatherBlock (cap : Nat) (gathering : Gathering) (phys : Nat) : Except ListError Gathering :=
  if phys = 0 ∨ phys ∈ gathering.seen then .ok gathering
  else do
    let block ← (self.block phys).mapError .read
    let (visited, failure) := self.forEachEntryInBlock block
    Checked.refuseIf (cap < gathering.entries.length + visited.length) (.walkTooLarge cap)
    match failure with
    | some error => .error (.read error)
    | none => return ⟨phys :: gathering.seen, gathering.entries ++ visited⟩

/-- A directory's entries, no more of them than `cap`. -/
def readDir (cap : Nat) (inode : Inode) : Except ListError (List DirEntry) := do
  let blocks ← (self.dataBlocks inode).mapError .read
  let gathering ← blocks.foldlM (self.gatherBlock cap) ⟨[], []⟩
  return gathering.entries

/-- What a mapped block of a listed directory holds. -/
def Holds (phys : Nat) (visited : List DirEntry) : Prop :=
  ∃ block, self.block phys = .ok block ∧ self.forEachEntryInBlock block = (visited, none)

variable {self}

/-- Gathering blocks reads each the map names, whose entries are among those gathered, and no other
entries, by induction on the blocks.
-/
theorem foldlM_gatherBlock {cap : Nat} {blocks : List Nat} {start last : Gathering}
    (gathered : blocks.foldlM (self.gatherBlock cap) start = .ok last)
    (before : ∀ phys ∈ start.seen, ∃ visited, self.Holds phys visited
      ∧ ∀ entry ∈ visited, entry ∈ start.entries)
    (from_ : ∀ entry ∈ start.entries, ∃ phys ∈ start.seen, ∃ visited, self.Holds phys visited
      ∧ entry ∈ visited)
    : (∀ phys, phys ∈ start.seen ∨ phys ∈ blocks ∧ phys ≠ 0 → ∃ visited, self.Holds phys visited
        ∧ ∀ entry ∈ visited, entry ∈ last.entries)
      ∧ ∀ entry ∈ last.entries, ∃ phys, (phys ∈ start.seen ∨ phys ∈ blocks ∧ phys ≠ 0)
        ∧ ∃ visited, self.Holds phys visited ∧ entry ∈ visited := by
  induction blocks generalizing start with
  | nil =>
      obtain rfl : start = last := Except.ok.inj gathered
      refine ⟨fun phys listed => before phys (listed.resolve_right nofun), fun entry member => ?_⟩
      obtain ⟨phys, seen, held⟩ := from_ entry member
      exact ⟨phys, .inl seen, held⟩
  | cons phys rest ih =>
      rw [List.foldlM_cons] at gathered
      obtain ⟨next, stepped, later⟩ := Checked.bind_eq_ok.mp gathered
      unfold gatherBlock at stepped
      split at stepped
      next passed =>
        obtain rfl := Except.ok.inj stepped
        obtain ⟨all, only⟩ := ih later before from_
        refine ⟨fun other listed => all other ?_, fun entry member => ?_⟩
        · rcases listed with seen | ⟨inside, some_⟩
          · exact .inl seen
          · rcases List.mem_cons.mp inside with rfl | inside
            · exact .inl (passed.resolve_left some_)
            · exact .inr ⟨inside, some_⟩
        · obtain ⟨other, listed, held⟩ := only entry member
          exact ⟨other, listed.imp_right fun ⟨inside, some_⟩ =>
            ⟨List.mem_cons_of_mem _ inside, some_⟩, held⟩
      next fresh =>
        obtain ⟨block, read, stepped⟩ := Checked.bind_eq_ok.mp stepped
        have read := Checked.mapError_eq_ok.mp read
        generalize walked : self.forEachEntryInBlock block = walk at stepped
        obtain ⟨visited, failure⟩ := walk
        obtain ⟨-, -, stepped⟩ := Checked.bind_eq_ok.mp stepped
        cases failure with
        | some error => cases stepped
        | none =>
            obtain rfl := Except.ok.inj stepped
            have some_ : phys ≠ 0 := fun zero => fresh (.inl zero)
            have holds : self.Holds phys visited := ⟨block, read, walked⟩
            obtain ⟨all, only⟩ := ih later
              (by
                intro other seen
                rcases List.mem_cons.mp seen with rfl | seen
                · exact ⟨visited, holds, fun entry member => List.mem_append_right _ member⟩
                · obtain ⟨earlier, held, inside⟩ := before other seen
                  exact ⟨earlier, held, fun entry member =>
                    List.mem_append_left _ (inside entry member)⟩)
              (by
                intro entry member
                rcases List.mem_append.mp member with earlier | here
                · obtain ⟨other, seen, held⟩ := from_ entry earlier
                  exact ⟨other, List.mem_cons_of_mem _ seen, held⟩
                · exact ⟨phys, List.mem_cons_self, visited, holds, here⟩)
            refine ⟨fun other listed => all other ?_, fun entry member => ?_⟩
            · rcases listed with seen | ⟨inside, nonzero⟩
              · exact .inl (List.mem_cons_of_mem _ seen)
              · rcases List.mem_cons.mp inside with rfl | inside
                · exact .inl List.mem_cons_self
                · exact .inr ⟨inside, nonzero⟩
            · obtain ⟨other, listed, held⟩ := only entry member
              refine ⟨other, ?_, held⟩
              rcases listed with seen | ⟨inside, nonzero⟩
              · rcases List.mem_cons.mp seen with rfl | seen
                · exact .inr ⟨List.mem_cons_self, some_⟩
                · exact .inl seen
              · exact .inr ⟨List.mem_cons_of_mem _ inside, nonzero⟩

/-- A listing that ends has read every block the map names, and its entries are theirs. -/
theorem readDir_holds {cap : Nat} {inode : Inode} {entries : List DirEntry}
    (listed : self.readDir cap inode = .ok entries)
    : ∃ blocks, self.dataBlocks inode = .ok blocks
        ∧ (∀ phys ∈ blocks, phys ≠ 0 → ∃ visited, self.Holds phys visited
          ∧ ∀ entry ∈ visited, entry ∈ entries)
        ∧ ∀ entry ∈ entries, ∃ phys ∈ blocks, phys ≠ 0 ∧ ∃ visited, self.Holds phys visited
          ∧ entry ∈ visited := by
  obtain ⟨blocks, mapped, listed⟩ := Checked.bind_eq_ok.mp listed
  obtain ⟨last, gathered, same⟩ := Checked.bind_eq_ok.mp listed
  obtain rfl : last.entries = entries := Except.ok.inj same
  obtain ⟨all, only⟩ := foldlM_gatherBlock gathered nofun nofun
  refine ⟨blocks, Checked.mapError_eq_ok.mp mapped,
    fun phys inside some_ => all phys (.inr ⟨inside, some_⟩), fun entry member => ?_⟩
  obtain ⟨phys, inside, held⟩ := only entry member
  obtain ⟨inside, some_⟩ := inside.resolve_left nofun
  exact ⟨phys, inside, some_, held⟩

end Reader

end Ferrosys.Ext

/-! A directory's hash index as a reader follows it: the descent to a name's leaf and the walk on
from it, and the scan that holds every name of a leaf to the hashes the index leads there.
-/

namespace Ferrosys.Ext

def InodeFlags.index : Nat := 0x00001000

/-- What the superblock says of how names hash. -/
structure Hashing where
  seed : Bytes
  flags : Nat

/-- A directory's hash index, as far as opening it. -/
structure DirIndex where
  blocks : List Nat
  root : Bytes
  levels : Nat
  version : HashVersion
  signedness : HashSignedness
deriving DecidableEq

/-- A descent through a hash index: each level's entries, and the one followed. -/
abbrev IndexPath := List (List DxEntry × Nat)

/-- What a directory's hash index says about one name. -/
inductive Indexed where
  | found (inode : UInt32)
  | absent
  | unusable
deriving DecidableEq

/-- Where moving to the next leaf of a hash index arrived. -/
inductive Step where
  | leaf (hash : UInt32) (path : IndexPath)
  | ended
  | unusable

/-- The name's major hash is within a leaf's range, or is the one the next leaf continues. -/
def fits (major low : UInt32) (high : Option UInt32) : Bool :=
  decide (low &&& ~~~dxHashContinued ≤ major) &&
    match high with
    | none => true
    | some high => decide (major < high &&& ~~~dxHashContinued)
        || (major ||| dxHashContinued) == high

/-- A name fits a leaf where either of its hashes does. -/
def placed (major low : UInt32) (high : Option UInt32) : Bool :=
  fits major low high || (unmovedMajor major).any fun unmoved => fits unmoved low high

/-- The next leaf, whose range begins at `next`, goes on with the names of the hash. -/
def continues (major next : UInt32) : Bool :=
  next == major ||| dxHashContinued
    || (unmovedMajor major).any fun unmoved => next &&& ~~~dxHashContinued == unmoved

/-- How many entries are at or below a hash: a search by halves, which means nothing where they are
not in order.
-/
def partitionPoint (major : UInt32) (entries : List DxEntry) : Nat :=
  let below (i : Nat) : Except Unit Bool :=
    .ok (decide (((entries[i]?.map DxEntry.hash).getD 0) ≤ major))
  (Bisect.bisect below entries.length 0 entries.length).toOption.getD 0

namespace Reader

variable (self : Reader)

/-- The directory block at a logical block, where the map has one. -/
def dirBlockAt (blocks : List Nat) (logical : UInt32) : Except ReadError (Option Bytes) :=
  match blocks[logical.toNat]?.filter (· ≠ 0) with
  | some phys => (self.block phys).map some
  | none => .ok none

/-- The hash index of a directory, where it has one that can be opened. -/
def dirIndex (hashing : Hashing) (dir : Inode) : Except ReadError (Option DirIndex) := do
  if !dir.hasFlag InodeFlags.index || !self.feature.hasDirIndex then return none
  let blocks ← self.dataBlocks dir
  let some root ← self.dirBlockAt blocks 0 | return none
  let .ok (code, levels) := readDxRootInfo root | return none
  let chosen : Option (Nat × HashSignedness) :=
    if code ≤ 2 then some (code, .fromFlags hashing.flags)
    else if code ≤ 5 then some (code - 3, .unsigned)
    else none
  let some (version, signedness) := chosen | return none
  let some version := HashVersion.fromU8 version | return none
  if dxMaxIndirectLevels < levels then return none
  return some ⟨blocks, root, levels, version, signedness⟩

/-- The major hash of a name in an index. -/
def majorOf (hashing : Hashing) (index : DirIndex) (name : Bytes) : UInt32 :=
  (dirHash name index.version index.signedness hashing.seed).major

/-- Descend from a block with `below` levels under it, at each to the last entry at or below
`major`, or to the first where there is none.
-/
def descendFrom (blocks : List Nat) (major : Option UInt32)
    : (below : Nat) → (block : Bytes) → (countOffset : Nat)
      → Except ReadError (Option IndexPath)
  | below, block, countOffset =>
      match readDxEntries block countOffset with
      | .error _ => .ok none
      | .ok entries =>
          let at_ := (major.map fun major => partitionPoint major entries.tail).getD 0
          match below with
          | 0 => .ok (some [(entries, at_)])
          | below + 1 => do
              match ← self.dirBlockAt blocks ((entries[at_]?.map DxEntry.block).getD 0) with
              | none => return none
              | some node =>
                  return (← descendFrom blocks major below node dxNodeCountOffset).map
                    fun path => (entries, at_) :: path

/-- Descend an index from its root. -/
def descend (index : DirIndex) (major : Option UInt32) : Except ReadError (Option IndexPath) :=
  self.descendFrom index.blocks major index.levels index.root dxRootCountOffset

/-- The leaf a path leads to. -/
def leafOf (path : IndexPath) : UInt32 :=
  match path.getLast? with
  | some (entries, at_) => (entries[at_]?.map DxEntry.block).getD 0
  | none => 0

/-- Move to the next leaf in tree order: the next entry at the deepest level that has one, and the
first of every level below it.
-/
def nextLeaf (blocks : List Nat) : IndexPath → Except ReadError Step
  | [] => .ok .ended
  | (entries, at_) :: deeper => do
      match ← nextLeaf blocks deeper with
      | .leaf hash deeper => return .leaf hash ((entries, at_) :: deeper)
      | .unusable => return .unusable
      | .ended =>
          match entries[at_ + 1]? with
          | none => return .ended
          | some entry =>
              match deeper with
              | [] => return .leaf entry.hash [(entries, at_ + 1)]
              | _ :: under =>
                  match ← self.dirBlockAt blocks entry.block with
                  | none => return .unusable
                  | some node =>
                      match ← self.descendFrom blocks none under.length node dxNodeCountOffset with
                      | none => return .unusable
                      | some path => return .leaf entry.hash ((entries, at_ + 1) :: path)

/-- Look for a name in the leaf a path leads to and in those that continue it. -/
def findFrom (blocks : List Nat) (major : UInt32) (name : Bytes)
    : (turns : Nat) → IndexPath → Except ReadError Indexed
  | 0, _ => .ok .unusable
  | turns + 1, path => do
      match ← self.dirBlockAt blocks (leafOf path) with
      | none => return .unusable
      | some leaf =>
          let (visited, failure) := self.forEachEntryInBlock leaf
          match visited.find? (·.name == name), failure with
          | some entry, _ => return .found entry.inode
          | none, some error => .error error
          | none, none =>
              match ← self.nextLeaf blocks path with
              | .ended => return .absent
              | .unusable => return .unusable
              | .leaf next path =>
                  if continues major next then findFrom blocks major name turns path
                  else return .absent

/-- Find a name in a directory through its hash index. -/
def findIndexed (hashing : Hashing) (dir : Inode) (name : Bytes) : Except ReadError Indexed := do
  match ← self.dirIndex hashing dir with
  | none => return .unusable
  | some index =>
      let major := majorOf hashing index name
      match ← self.descend index (some major) with
      | none => return .unusable
      | some path => self.findFrom index.blocks major name index.blocks.length path

/-- The leaves of an index in tree order from a path on, each with the hash its range begins at, no
more of them than `turns`.
-/
def leavesFrom (blocks : List Nat)
    : (turns : Nat) → IndexPath → UInt32 → Option (List (UInt32 × UInt32))
  | 0, _, _ => some []
  | turns + 1, path, low =>
      match self.nextLeaf blocks path with
      | .ok (.leaf next later) =>
          (leavesFrom blocks turns later next).map ((leafOf path, low) :: ·)
      | .ok .ended => some [(leafOf path, low)]
      | .ok .unusable => none
      | .error _ => none

/-- The first name of a leaf that is out of its range. A leaf that cannot be read, or whose walk
fails before such a name, has none.
-/
def misplacedIn (hashing : Hashing) (index : DirIndex) (leaf : UInt32 × UInt32)
    (high : Option UInt32) : Option UInt32 :=
  match self.dirBlockAt index.blocks leaf.1 with
  | .ok (some block) =>
      ((self.forEachEntryInBlock block).1.find? fun entry =>
        !placed (majorOf hashing index entry.name) leaf.2 high).map DirEntry.inode
  | _ => none

/-- The first misplaced name of the leaves. -/
def misplaced (hashing : Hashing) (index : DirIndex) : List (UInt32 × UInt32) → Option UInt32
  | [] => none
  | leaf :: rest =>
      (self.misplacedIn hashing index leaf (rest.head?.map Prod.snd)).or
        (misplaced hashing index rest)

/-- Hold every name in an indexed directory to the leaf its index leads it to: the inode of the
first that sits elsewhere, where one is reported.
-/
def scanIndex (hashing : Hashing) (dir : Inode) : Option UInt32 :=
  match self.dirIndex hashing dir with
  | .ok (some index) =>
      match self.descend index none with
      | .ok (some path) =>
          match self.leavesFrom index.blocks index.blocks.length path 0 with
          | some leaves => self.misplaced hashing index leaves
          | none => none
      | _ => none
  | _ => none

end Reader

end Ferrosys.Ext
