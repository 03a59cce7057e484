import Ferrosys.Apfs.Contents
import Ferrosys.Archive.Blocks
import Ferrosys.Btrfs.Contents
import Ferrosys.ExFat.Read
import Ferrosys.Ext.Reader.Data
import Ferrosys.Fat.Read

/-! Whether an archive is framed as its headers say, whichever family it was drained out of. Every
family's reader yields exactly the length its walk reports or fails, but for one: a FAT entry that
records a length and no first cluster, which only a lenient walk hands out, is read as if it were
empty.
-/

namespace Ferrosys.Archive

open Checked Drain

section

variable {σ ν α ε : Type}

/-- What a reader's walk hands out it also yields: a file that is allocated exactly, and one that
is not, for all its length, not at all.
-/
structure Yields (tree : FsTree σ ν α ε) (allocated : ν → Prop) : Prop where
  exact : ∀ reader entry reader', tree.next reader = .ok (some (entry, reader'))
    → ∀ size, entry.kind = .file size → allocated entry.node
    → Exact (tree.readBytes entry.node) size
  empty : ∀ reader entry reader', tree.next reader = .ok (some (entry, reader'))
    → ∀ size, entry.kind = .file size → ¬ allocated entry.node
    → 0 < size.val ∧ Empty (tree.readBytes entry.node)

variable {tree : FsTree σ ν α ε} {allocated : ν → Prop}

/-- A reader that answers for every length its walk reports yields what it reports. -/
theorem Yields.of_exact (exact : ∀ reader entry reader', tree.next reader = .ok (some (entry, reader'))
      → ∀ size, entry.kind = .file size → Exact (tree.readBytes entry.node) size)
    : Yields tree fun _ => True :=
  ⟨fun _ _ _ walked _ kind _ => exact _ _ _ walked _ kind,
    fun _ _ _ _ _ _ bare => absurd trivial bare⟩

/-- A file a walk hands out is delivered, window after window, exactly when it is allocated. -/
theorem Yields.delivers_iff (yields : Yields tree allocated) {window : Nat → Nat}
    (open_ : ∀ turn, 0 < window turn) {reader reader' : σ} {entry : TreeEntry ν}
    (walked : tree.next reader = .ok (some (entry, reader'))) {size : Fin (2 ^ 64)}
    (file : entry.kind = .file size) (at_ : σ)
    : Delivers (tree.readBytes entry.node) window size at_ ↔ allocated entry.node := by
  constructor
  · intro delivered
    by_contra bare
    have ⟨pos, empty⟩ := yields.empty _ _ _ walked _ file bare
    exact empty.not_delivers pos at_ delivered
  · exact fun kept => (yields.exact _ _ _ walked _ file kept).delivers open_ at_

/-- A member whose file is allocated, where it has a body. -/
def Member.Backed (allocated : ν → Prop) (m : Member ν α) : Prop :=
  ∀ size, m.HasBody size → allocated m.node

/-- A member with no body of its own states a length of nothing. -/
theorem Member.size_eq_zero {m : Member ν α} (bare : ∀ size, ¬ m.HasBody size)
    : m.size = 0 := by
  rw [size]
  split
  · next size kind first => exact absurd ⟨kind, first⟩ (bare size)
  · rfl

/-- A member with a body states the length its walk reported. -/
theorem Member.size_eq {m : Member ν α} {size : Fin (2 ^ 64)} (body : m.HasBody size)
    : m.size = size := by
  rw [Member.size, body.1, body.2]

/-- A member of a walked entry is framed exactly when its file is allocated. -/
theorem append_framed_iff (yields : Yields tree allocated) {window : Nat → Nat}
    (open_ : ∀ turn, 0 < window turn) {records : Member ν α → Except (ArchiveError ε) Records}
    {reader before after at_ : σ} {entry : TreeEntry ν} {m : Member ν α} {w : Written ν α}
    (walked : tree.next before = .ok (some (entry, after)))
    (kind : m.kind = entry.kind) (node : m.node = entry.node)
    (appended : append tree window records reader m = .ok (w, at_))
    : w.member = m ∧ (w.Framed ↔ m.Backed allocated) := by
  obtain ⟨entryType, -, appended⟩ := bind_eq_ok.mp appended
  obtain ⟨recorded, -, appended⟩ := bind_eq_ok.mp appended
  dsimp only at appended
  split at appended
  · cases appended
  · split at appended
    · next none_ =>
        cases appended
        refine ⟨rfl, iff_of_true ?_ ?_⟩
        · simp [Written.Framed, none_]
        · intro size body
          by_contra bare
          rw [node] at bare
          have pos := (yields.empty _ _ _ walked size (kind ▸ body.1) bare).1
          rw [← Member.size_eq body, none_] at pos
          exact absurd pos (Nat.lt_irrefl 0)
    · next some_ =>
        obtain ⟨size, body⟩ : ∃ size, m.HasBody size := by
          by_contra bare
          exact some_ (Member.size_eq_zero fun size body => bare ⟨size, body⟩)
        obtain ⟨⟨bytes, left⟩, drained, appended⟩ := bind_eq_ok.mp appended
        cases appended
        refine ⟨rfl, ?_⟩
        have ran : drain m.size.val (tree.readBytes m.node) window reader
            = .ok (bytes, left) := by
          cases answered : drain m.size.val (tree.readBytes m.node) window reader with
          | ok answer =>
              rw [answered] at drained
              cases drained
              rfl
          | error error =>
              rw [answered] at drained
              cases drained
        have file : entry.kind = .file m.size := kind ▸ (Member.size_eq body).symm ▸ body.1
        rw [node] at ran
        constructor
        · intro framed _ _
          rw [node]
          by_contra bare
          have ⟨pos, empty⟩ := yields.empty _ _ _ walked _ file bare
          obtain ⟨left', nothing⟩ := empty.drain_eq m.size.val window reader
          rw [ran] at nothing
          cases nothing
          exact absurd framed (Nat.ne_of_lt pos)
        · intro backed
          have kept := backed size body
          rw [node] at kept
          exact (yields.exact _ _ _ walked _ file kept).length_drain open_ ran

/-- A member is of its entry's kind and node. -/
theorem Member.of_eq_ok {reader after : σ} {entry : TreeEntry ν} {named named' : Named}
    {m : Member ν α} (made : Member.of tree reader entry named = .ok (m, named', after))
    : m.kind = entry.kind ∧ m.node = entry.node := by
  obtain ⟨-, -, made⟩ := bind_eq_ok.mp made
  obtain ⟨⟨attrs, known⟩, -, made⟩ := bind_eq_ok.mp made
  obtain ⟨⟨symlink, read⟩, -, made⟩ := bind_eq_ok.mp made
  cases made
  exact ⟨rfl, rfl⟩

/-- Every member written so far is framed exactly when its file is allocated. -/
def Progress.Framed (allocated : ν → Prop) (progress : Progress σ ν α) : Prop :=
  ∀ w ∈ progress.written, w.Framed ↔ w.member.Backed allocated

/-- A turn of the walk keeps every member written framed exactly when its file is allocated. -/
theorem turn_framed (yields : Yields tree allocated) {window : Nat → Nat}
    (open_ : ∀ turn, 0 < window turn) {records : Member ν α → Except (ArchiveError ε) Records}
    {before after : Progress σ ν α} (went : turn tree window records before = .go after)
    (framed : before.Framed allocated) : after.Framed allocated := by
  simp only [turn] at went
  split at went
  · cases went
  · cases went
  · next entry reader walked =>
      split at went
      · cases went
      · next progress visited =>
          cases went
          simp only [visit] at visited
          split at visited
          · cases visited
            exact framed
          · obtain ⟨⟨m, named, made⟩, isMember, visited⟩ := bind_eq_ok.mp visited
            obtain ⟨⟨w, left⟩, appended, visited⟩ := bind_eq_ok.mp visited
            cases visited
            have ⟨kind, node⟩ := Member.of_eq_ok isMember
            have ⟨same, one⟩ := append_framed_iff yields open_ walked kind node appended
            intro w' member
            rcases List.mem_append.mp member with earlier | last
            · exact framed w' earlier
            · rcases List.mem_singleton.mp last with rfl
              rw [same]
              exact one

/-- An archive that was written is framed exactly when every file it holds a body of is
allocated.
-/
theorem writeTree_framed_iff (yields : Yields tree allocated) {window : Nat → Nat}
    (open_ : ∀ turn, 0 < window turn) {records : Member ν α → Except (ArchiveError ε) Records}
    {turns : Nat} {reader : σ} {archive : List (Written ν α)}
    (written : writeTree tree window records turns reader = some (.ok archive))
    : (∀ w ∈ archive, w.Framed) ↔ ∀ w ∈ archive, w.member.Backed allocated := by
  have each : ∀ w ∈ archive, w.Framed ↔ w.member.Backed allocated := by
    have kept : ∀ before after, turn tree window records before = .go after
        → before.Framed allocated → after.Framed allocated :=
      fun _ _ went => turn_framed yields open_ went
    have begun : Progress.Framed allocated (⟨reader, [], []⟩ : Progress σ ν α) :=
      List.forall_mem_nil _
    obtain ⟨last, framed, ended⟩ := Loop.stop_of_run kept begun written
    simp only [turn] at ended
    split at ended
    · cases ended
    · cases ended
      exact framed
    · split at ended
      · cases ended
      · cases ended
  exact ⟨fun framed w member => (each w member).mp (framed w member),
    fun backed w member => (each w member).mpr (backed w member)⟩

end

/-- What a family's walk reaches, a name at a time, and what a sink asks of it beside a file's
bytes.
-/
structure Walk (σ ι ν α ε : Type) where
  next : σ → Except ε (Option (ι × σ))
  stat : σ → ν → Except ε (α × σ)
  linkTarget : σ → ν → Except ε (Bytes × σ)

section

variable {σ ι ν α ε : Type}

/-- The tree a sink drains: a family's walk, each name it reaches reported as an entry. -/
def Walk.tree (walk : Walk σ ι ν α ε) (family : Family) (maxFileBytes : Nat)
    (entryOf : ι → Except ε (TreeEntry ν))
    (readBytes : ν → σ → (offset len : Nat) → Except ε (Bytes × σ)) : FsTree σ ν α ε where
  family
  maxFileBytes
  next reader := do
    match ← walk.next reader with
    | none => return none
    | some (reached, reader) =>
        let entry ← entryOf reached
        return some (entry, reader)
  stat := walk.stat
  readBytes
  linkTarget := walk.linkTarget

/-- An entry the walk hands out is that of a name it reached. -/
theorem Walk.entryOf_of_next {walk : Walk σ ι ν α ε} {family : Family} {maxFileBytes : Nat}
    {entryOf : ι → Except ε (TreeEntry ν)}
    {readBytes : ν → σ → (offset len : Nat) → Except ε (Bytes × σ)} {reader reader' : σ}
    {entry : TreeEntry ν}
    (walked : (walk.tree family maxFileBytes entryOf readBytes).next reader
      = .ok (some (entry, reader'))) : ∃ reached, entryOf reached = .ok entry := by
  obtain ⟨answer, -, walked⟩ := bind_eq_ok.mp walked
  cases answer with
  | none => cases walked
  | some answer =>
      obtain ⟨made, isEntry, walked⟩ := bind_eq_ok.mp walked
      cases walked
      exact ⟨_, isEntry⟩

end

/-- What a FAT walk reaches: the root, which no entry describes, or a slot that is a name. -/
inductive FatReached where
  | root (node : Fat.Node)
  | slot (path : Bytes) (index : Nat) (entry : { entry : Fat.DirEntry // entry.namesNode })

/-- The entry a FAT name is reported as. The format has no second name for a node. -/
def fatEntry (reader : Fat.Reader) : FatReached → Except Fat.ReadError (TreeEntry Fat.Node)
  | .root node => .ok ⟨[], .directory, none, node⟩
  | .slot path index entry => do
      let node ← Fat.entryNode reader.policy reader.layout.fatType index entry.1
      return ⟨path, Fat.treeKind node, none, node⟩

/-- What an exFAT walk reaches: the root or the node of an entry set. -/
inductive ExFatReached where
  | root (node : ExFat.Node)
  | entry (path : Bytes) (node : ExFat.Node)

def exFatEntry : ExFatReached → Except ExFat.ReadError (TreeEntry ExFat.Node)
  | .root node => .ok ⟨[], .directory, none, node⟩
  | .entry path node => .ok ⟨path, ExFat.treeKind node, none, node⟩

/-- What an ext walk reaches: an inode, its number and how many names it says it has. -/
structure ExtReached where
  path : Bytes
  number : Nat
  linksCount : Nat
  inode : Ext.Inode

def extEntry (reader : Ext.Reader) (reached : ExtReached)
    : Except (TreeError Ext.ReadError) (TreeEntry Ext.Inode) :=
  match reader.treeKind reached.inode with
  | none => .error (.noFileType reached.number (reached.inode.mode &&& Ext.typeMask))
  | some kind =>
      .ok ⟨reached.path, kind,
        if kind ≠ .directory ∧ reached.linksCount > 1 then some reached.number else none,
        reached.inode⟩

/-- What a walk reaches that numbers the nodes with more than one name as it meets them. -/
structure Reached (ν : Type) where
  path : Bytes
  node : ν
  shared : Option Nat

def btrfsEntry (reached : Reached Btrfs.Contents.Node)
    : Except Btrfs.Contents.ReadError (TreeEntry Btrfs.Contents.Node) :=
  match Btrfs.Contents.treeKind reached.node with
  | none => .error (.malformed reached.node.inode "the inode records a type which names no file type")
  | some kind =>
      .ok ⟨reached.path, kind,
        if kind ≠ .directory ∧ reached.node.item.nlink > 1 then reached.shared else none,
        reached.node⟩

def apfsEntry (reached : Reached Apfs.Contents.Node)
    : Except Apfs.Contents.ReadError (TreeEntry Apfs.Contents.Node) := do
  let kind ← Apfs.Contents.nodeKind reached.node
  return ⟨reached.path, kind,
    if kind ≠ .directory ∧ reached.node.links > 1 then reached.shared else none, reached.node⟩

/-- A filesystem of any family, opened under any policy, and any walk of it. -/
inductive Opened (τ α : Type) where
  | fat (reader : Fat.Reader)
      (walk : Walk (Fat.Held × τ) FatReached Fat.Node α Fat.ReadError)
  | exFat (reader : ExFat.Reader)
      (walk : Walk (ExFat.Held × τ) ExFatReached ExFat.Node α ExFat.ReadError)
  | ext (reader : Ext.Reader) (walk : Walk τ ExtReached Ext.Inode α (TreeError Ext.ReadError))
  | btrfs (volume : Btrfs.Contents.Volume τ)
      (walk : Walk τ (Reached Btrfs.Contents.Node) Btrfs.Contents.Node α Btrfs.Contents.ReadError)
  | apfs {Encoding Table : Type} (volume : Apfs.Contents.Volume τ Encoding Table)
      (walk : Walk τ (Reached Apfs.Contents.Node) Apfs.Contents.Node α Apfs.Contents.ReadError)

namespace Opened

variable {τ α : Type}

def State : Opened τ α → Type
  | fat _ _ => Fat.Held × τ
  | exFat _ _ => ExFat.Held × τ
  | ext _ _ | btrfs _ _ | apfs _ _ => τ

def Node : Opened τ α → Type
  | fat _ _ => Fat.Node
  | exFat _ _ => ExFat.Node
  | ext _ _ => Ext.Inode
  | btrfs _ _ => Btrfs.Contents.Node
  | apfs _ _ => Apfs.Contents.Node

def Error : Opened τ α → Type
  | fat _ _ => Fat.ReadError
  | exFat _ _ => ExFat.ReadError
  | ext _ _ => TreeError Ext.ReadError
  | btrfs _ _ => Btrfs.Contents.ReadError
  | apfs _ _ => Apfs.Contents.ReadError

/-- The bytes an extraction reads of an ext inode, whose reads leave the walk as it is. -/
def extBytes (reader : Ext.Reader) (inode : Ext.Inode) (state : τ) (offset len : Nat)
    : Except (TreeError Ext.ReadError) (Bytes × τ) :=
  match reader.readBytes inode offset len with
  | .ok bytes => .ok (bytes, state)
  | .error error => .error (.read error)

/-- The tree a sink drains out of the filesystem. -/
def tree : (opened : Opened τ α) → FsTree opened.State opened.Node α opened.Error
  | fat reader walk =>
      walk.tree .fat reader.maxFileBytes (fatEntry reader)
        fun node => beside τ (reader.readInto node)
  | exFat reader walk =>
      walk.tree .exFat reader.maxFileBytes exFatEntry fun node => beside τ (reader.readInto node)
  | ext reader walk => walk.tree .ext reader.maxFileBytes (extEntry reader) (extBytes reader)
  | btrfs volume walk =>
      walk.tree .btrfs volume.maxFileBytes btrfsEntry (Btrfs.Contents.readInto volume)
  | apfs volume walk =>
      walk.tree .apfs volume.maxFileBytes apfsEntry (Apfs.Contents.readInto volume)

/-- The file's length has storage behind it: on a FAT volume, an entry that records a length
records a first cluster too. Every other family's read answers for the length it reports.
-/
def Allocated : (opened : Opened τ α) → opened.Node → Prop
  | fat _ _, node => Fat.Reader.Allocated node
  | exFat _ _, _ | ext _ _, _ | btrfs _ _, _ | apfs _ _, _ => True

/-- A FAT walk's names yield what they report, but for those whose length has no cluster behind
it.
-/
theorem fat_yields (reader : Fat.Reader)
    (walk : Walk (Fat.Held × τ) FatReached Fat.Node α Fat.ReadError)
    : Yields (fat reader walk).tree Fat.Reader.Allocated := by
  have file {before entry after} (walked : (fat reader walk).tree.next before
      = .ok (some (entry, after))) {size : Fin (2 ^ 64)} (kind : entry.kind = .file size)
      : entry.node.isDir = false ∧ entry.node.isVolumeLabel = false
        ∧ entry.node.size.val = size.val := by
    obtain ⟨reached, made⟩ := Walk.entryOf_of_next walked
    cases reached with
    | root node =>
        cases made
        cases kind
    | slot path index slot =>
        obtain ⟨node, read, made⟩ := bind_eq_ok.mp made
        cases made
        have ⟨plain, long⟩ := Fat.treeKind_eq_file kind
        have described := Fat.entryNode_eq_ok read
        exact ⟨plain, described ▸ slot.1.not_isVolumeLabel slot.2 _, long⟩
  constructor
  · intro before entry after walked size kind allocated
    have ⟨plain, unlabelled, long⟩ := file walked kind
    exact long ▸ (reader.readInto_exact plain unlabelled allocated).beside
  · intro before entry after walked size kind bare
    have long := (file walked kind).2.2
    simp only [Fat.Reader.Allocated, ne_eq, not_or, not_not] at bare
    exact ⟨long ▸ Nat.pos_of_ne_zero bare.2, (reader.readInto_empty bare.1).beside⟩

/-- An exFAT walk's names yield what they report. -/
theorem exFat_yields (reader : ExFat.Reader)
    (walk : Walk (ExFat.Held × τ) ExFatReached ExFat.Node α ExFat.ReadError)
    : Yields (exFat reader walk).tree fun _ => True := by
  refine .of_exact ?_
  intro before entry after walked size kind
  obtain ⟨reached, made⟩ := Walk.entryOf_of_next walked
  cases reached with
  | root node =>
      cases made
      cases kind
  | entry path node =>
      cases made
      simp only [ExFat.treeKind] at kind
      split at kind
      · cases kind
      · next file =>
          cases kind
          exact (reader.readInto_exact (Bool.eq_false_iff.mpr file)).beside

/-- An ext walk's names yield what they report. -/
theorem ext_yields (reader : Ext.Reader)
    (walk : Walk τ ExtReached Ext.Inode α (TreeError Ext.ReadError))
    : Yields (ext reader walk).tree fun _ => True := by
  refine .of_exact ?_
  intro before entry after walked size kind
  obtain ⟨reached, made⟩ := Walk.entryOf_of_next walked
  simp only [extEntry] at made
  split at made
  · cases made
  · next found isKind =>
      cases made
      have ⟨regular, long⟩ := reader.treeKind_eq_file (isKind.trans (congrArg some kind))
      intro state offset len bytes state' read
      simp only [tree, Walk.tree, extBytes] at read
      split at read
      · next answer answered =>
          cases read
          exact long ▸ reader.length_readBytes regular answered
      · cases read

/-- A btrfs walk's names yield what they report. -/
theorem btrfs_yields (volume : Btrfs.Contents.Volume τ)
    (walk : Walk τ (Reached Btrfs.Contents.Node) Btrfs.Contents.Node α Btrfs.Contents.ReadError)
    : Yields (btrfs volume walk).tree fun _ => True := by
  refine .of_exact ?_
  intro before entry after walked size kind
  obtain ⟨reached, made⟩ := Walk.entryOf_of_next walked
  simp only [btrfsEntry] at made
  split at made
  · cases made
  · next found isKind =>
      cases made
      have ⟨file, long⟩ := Btrfs.Contents.treeKind_eq_file (isKind.trans (congrArg some kind))
      exact long ▸ Btrfs.Contents.readInto_exact volume _ file

/-- An APFS walk's names yield what they report. -/
theorem apfs_yields {Encoding Table : Type} (volume : Apfs.Contents.Volume τ Encoding Table)
    (walk : Walk τ (Reached Apfs.Contents.Node) Apfs.Contents.Node α Apfs.Contents.ReadError)
    : Yields (apfs volume walk).tree fun _ => True := by
  refine .of_exact ?_
  intro before entry after walked size kind
  obtain ⟨reached, made⟩ := Walk.entryOf_of_next walked
  obtain ⟨found, isKind, made⟩ := bind_eq_ok.mp made
  cases made
  exact Apfs.Contents.readInto_exact volume (isKind.trans (congrArg Except.ok kind))

/-- Every walk yields what it reports, wherever what it reports has storage behind it. -/
theorem yields (opened : Opened τ α) : Yields opened.tree opened.Allocated := by
  cases opened with
  | fat reader walk => exact fat_yields reader walk
  | exFat reader walk => exact exFat_yields reader walk
  | ext reader walk => exact ext_yields reader walk
  | btrfs volume walk => exact btrfs_yields volume walk
  | apfs volume walk => exact apfs_yields volume walk

end Opened

/-- An archive drained out of a filesystem of any family, opened under any policy and walked in
any order, has bodies as long as its headers state, and so is read back as it was written, exactly
when every file it holds a body of is allocated. Of the files a walk hands out, those are the ones
whose bytes, read window after window, are as many as the walk reported or end in a failure.
-/
theorem archive_framed_iff {τ α : Type} (opened : Opened τ α) (format : TarFormat α)
    {window : Nat → Nat} (open_ : ∀ turn, 0 < window turn)
    {records : Member opened.Node α → Except (ArchiveError opened.Error) Records}
    {turns : Nat} {reader : opened.State} {archive : List (Written opened.Node α)}
    (written : writeTree opened.tree window records turns reader = some (.ok archive))
    : ((∀ w ∈ archive, w.Framed) ∧ format.Rereads archive
        ↔ ∀ w ∈ archive, w.member.Backed opened.Allocated)
      ∧ ∀ before entry after, opened.tree.next before = .ok (some (entry, after))
        → ∀ size, entry.kind = .file size → ∀ at_,
          Delivers (opened.tree.readBytes entry.node) window size at_
            ↔ opened.Allocated entry.node := by
  constructor
  · rw [rereads_iff format, and_self]
    exact writeTree_framed_iff opened.yields open_ written
  · intro before entry after walked size file at_
    exact opened.yields.delivers_iff open_ walked file at_

section

/-- A small FAT12 volume opened under the lenient policy. -/
def lenientVolume : Fat.Reader where
  src := List.replicate 65536 0
  base := 0
  layout := ⟨.fat12, 512, 1, 1, 1, 16, 128, 1, 1, 3, 125, none⟩
  activeFat := 0
  policy := .lenient
  maxFileBytes := Ext.u64Max
  clustered := by decide

/-- An entry that records ten bytes and no first cluster. -/
def bareEntry : Fat.DirEntry where
  name := [0x41, 0x20, 0x20, 0x20, 0x20, 0x20, 0x20, 0x20, 0x54, 0x58, 0x54]
  attributes := 0x20
  firstClusterHi := 0
  firstClusterLo := 0
  size := 10

/-- A walk of the names still listed, which a sink asks nothing else of. -/
def listedWalk : Walk (Fat.Held × List FatReached) FatReached Fat.Node Unit Fat.ReadError where
  next
    | (_, []) => .ok none
    | (held, reached :: rest) => .ok (some (reached, (held, rest)))
  stat reader _ := .ok ((), reader)
  linkTarget reader _ := .ok ([], reader)

/-- The volume whose root holds the bare entry and nothing else. -/
def bareTree : Opened (List FatReached) Unit := .fat lenientVolume listedWalk

def bareStart : bareTree.State :=
  (⟨none, none⟩, [.root ⟨.rootRegion, Fat.directoryAttribute, 0⟩,
    .slot [0x2F, 0x41, 0x2E, 0x54, 0x58, 0x54] 0 ⟨bareEntry, by decide⟩])

/-- The records of a member, which here is its path. -/
def pathRecords (m : Member Fat.Node Unit) : Except (ArchiveError Fat.ReadError) Records :=
  .ok ⟨(memberName m.path (m.kind == .directory)).take 100,
    Nat.lt_of_le_of_lt (List.length_take_le _ _) (by decide)⟩

/-- The archive of the bare entry: its member states ten bytes and holds none. -/
theorem bareEntry_misframed
    : ∃ archive, writeTree bareTree.tree (fun _ => 8192) pathRecords 3 bareStart
          = some (.ok archive)
        ∧ (∃ w ∈ archive, w.header.size = 10 ∧ w.body = [])
        ∧ ¬ ((∀ w ∈ archive, w.Framed) ∧ (ustar Unit).Rereads archive) := by
  refine ⟨_, rfl, ⟨_, List.mem_cons_of_mem _ List.mem_cons_self, rfl, rfl⟩, ?_⟩
  rintro ⟨framed, -⟩
  have ten : (0 : Nat) = 10 := framed _ (List.mem_cons_of_mem _ List.mem_cons_self)
  exact absurd ten (by decide)

/-- The archive of the bare entry is framed only if the entry is allocated, which it is not. -/
theorem bareEntry_framed_iff
    : ∃ archive, writeTree bareTree.tree (fun _ => 8192) pathRecords 3 bareStart
          = some (.ok archive)
        ∧ ((∀ w ∈ archive, w.Framed) ∧ (ustar Unit).Rereads archive
          ↔ ∀ w ∈ archive, w.member.Backed bareTree.Allocated) :=
  ⟨_, rfl, (@archive_framed_iff _ _ bareTree (ustar Unit) (fun _ => 8192)
    (fun _ => Nat.succ_pos 8191) pathRecords 3 bareStart _ rfl).1⟩

end

end Ferrosys.Archive
