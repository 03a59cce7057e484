import Ferrosys.Apfs.Model.Walking
import Ferrosys.Apfs.Names.Unicode

/-! The model of a source: what each path's object is, the root, and the walk beneath it. Every
identifier in it is taken once, a file's stream aside, which bears its file's; and the names of each
inode are counted and, where there are several, linked.
-/

namespace Ferrosys.Apfs.Model

variable {γ μ : Type} {unicode : Names.Unicode} {fold : Bool}

open Counter SortedMaps

/-- What the volume cannot hold; the last is an assertion of the builder that fails, which is no
answer.
-/
inductive ModelError where
  | names (error : Names.ModelError)
  | hardlinkTargetMissing (path target : Bytes)
  | hardlinkTargetIsDirectory (path target : Bytes)
  | hardlinkCycle (path : Bytes)
  | linkCarriesXattrs (path : Bytes)
  | assertion
deriving DecidableEq

/-- What the walk made of a source. -/
structure ApfsModel (γ μ : Type) where
  root : Inode μ
  inodes : List (Inode μ)
  streams : List (Stream γ)
  nextObjectId : Nat
  counts : Counts
deriving DecidableEq

def expect {α : Type} : Option α → Except ModelError α
  | some a => .ok a
  | none => .error .assertion

/-- An entry whose name is held to UTF-8. -/
def namedEntry (entry : Entry γ μ) : Option Names.Entry :=
  if utf8 : (Utf.decode (Names.splitKey (canonicalKey entry.path)).2).isSome = true then
    some ⟨entry.path, utf8⟩
  else none

/-- The entry at each canonical key. -/
def byKey (entries : List (Entry γ μ)) (key : Bytes) : Option (Entry γ μ) :=
  (entries.filter fun entry => canonicalKey entry.path = key).getLast?

/-- Two sets of attributes that are one, whatever order each is in. -/
def sameXattrs (a b : List Xattr) : Bool :=
  let sorted (list : List Xattr) := list.insertionSort fun x y => Key.mk x.name ≤ Key.mk y.name
  a.length == b.length && ((sorted a).zip (sorted b)).all fun pair => pair.1 == pair.2

/-- What is declared at a path, as far as following a link is concerned. -/
def linkStep (classes : SortedMap Key Names.Class) (key : Key) : LinkStep Bytes :=
  match classes.get? key with
  | none => .missing
  | some .directory => .directory
  | some .object => .file key.bytes
  | some (.link next) => .link ⟨next⟩

/-- What one hard link names, at the end of its chain. -/
def addObject (classes : SortedMap Key Names.Class) (entries : List (Entry γ μ))
    (objects : SortedMap Key Bytes) (entry : Entry γ μ)
    : Except ModelError (SortedMap Key Bytes) :=
  let key := canonicalKey entry.path
  match classes.get? ⟨key⟩ with
  | some (.link target) =>
      match followHardLink target classes.entries.length (linkStep classes) with
      | .file object => do
          if entry.xattrs ≠ [] then
            let named ← expect (byKey entries object)
            if !sameXattrs entry.xattrs named.xattrs then .error (.linkCarriesXattrs entry.path)
            else .ok (objects.insert ⟨key⟩ object)
          else .ok (objects.insert ⟨key⟩ object)
      | .missing | .unrepresentable => .error (.hardlinkTargetMissing entry.path target)
      | .directory => .error (.hardlinkTargetIsDirectory entry.path target)
      | .cycle => .error (.hardlinkCycle entry.path)
  | _ => .ok objects

/-- What each hard link names. -/
def objectsOf (classes : SortedMap Key Names.Class) (entries : List (Entry γ μ))
    : Except ModelError (SortedMap Key Bytes) :=
  entries.foldlM (addObject classes entries) .empty

/-- Each directory's entries in record order. -/
def inRecordOrder (children : Names.Children unicode fold) : Names.Children unicode fold where
  entries := children.entries.map fun directory =>
    (directory.1, directory.2.insertionSort Names.Planned.Before)
  sorted := List.pairwise_map.mpr children.sorted

/-- The walk before its first turn: the root, whose attributes' streams take the first identifiers,
is entered.
-/
def start (entry : Option (Entry γ μ)) (rootMetadata : μ) (children : Names.Children unicode fold)
    (first : Nat) : Walk unicode fold γ μ :=
  let builder : Builder γ μ := ⟨first, [], [], [], ⟨0, 0, 0, 0⟩⟩
  let given := builder.xattrs rootNumber ((entry.map SourceEntry.xattrs).getD []) false
  { builder := given.1
    root :=
      { id := rootNumber, parent := rootParent, name := "root".toUTF8.toList
        kind := .directory [], metadata := (entry.map SourceEntry.metadata).getD rootMetadata
        xattrs := given.2, links := 1, siblings := []
        bsdFlags := ((entry.bind SourceEntry.darwin).map Darwin.statedFlags).getD 0
        compressed := false }
    placed := .empty
    firstEntry := []
    stack := [⟨.root, children.of [], 0⟩]
    children := children.keep (· ≠ ⟨[]⟩) }

/-- The model a walk leaves, its streams the files' own and then the attributes' in order. -/
def Walk.model (self : Walk unicode fold γ μ) : ApfsModel γ μ where
  root := self.root
  inodes := self.builder.inodes
  streams := self.builder.streams
    ++ self.builder.attributeStreams.insertionSort fun a b => a.id ≤ b.id
  nextObjectId := self.builder.next
  counts := self.builder.counts

variable (unicode fold) in
/-- The model of a source whose paths are of the classes given. -/
def build (len : γ → Nat) (classes : SortedMap Key Names.Class) (entries : List (Entry γ μ))
    (rootMetadata : μ) (first : FirstId) : Except ModelError (ApfsModel γ μ) := do
  let named ← expect (entries.mapM namedEntry)
  let children ← (Names.childrenOf unicode fold (fun key => classes.get? ⟨key⟩) named).mapError
    .names
  (Names.checkNames named children).mapError .names
  let objects ← objectsOf classes entries
  let walk := start (byKey entries []) rootMetadata (inRecordOrder children) first
  let walk ← expect (walk.walked len (fun key => objects.get? ⟨key⟩) (byKey entries))
  .ok walk.model

namespace ApfsModel

/-- Every inode, the root first. -/
def nodes (self : ApfsModel γ μ) : List (Inode μ) := self.root :: self.inodes

def dataStreams (self : ApfsModel γ μ) : List (Stream γ) := self.streams.filter Stream.isData

def attributeStreams (self : ApfsModel γ μ) : List (Stream γ) :=
  self.streams.filter fun stream => !stream.isData

/-- The names that reach an inode, with the directory each is in. -/
def names (self : ApfsModel γ μ) (id : Nat) : List (Nat × Child) := namesOf self.nodes id

end ApfsModel

-----------------------------------------------------------------------------------------
-- What a model holds
-----------------------------------------------------------------------------------------

/-- What is promised of a model's identifiers, of its searches and of the names of each inode. -/
structure Identified (first : Nat) (model : ApfsModel γ μ) : Prop where
  root : model.root.id = rootNumber
  numbered : Drawn first model.nextObjectId
    (model.inodes.flatMap Inode.taken ++ model.attributeStreams.map Stream.id)
  dataStreams : (model.dataStreams.map fun stream => (stream.id, stream.owner)).Perm
    (model.inodes.flatMap Inode.data)
  ownStream : ∀ inode ∈ model.inodes,
    inode.kind.stream = none ∨ inode.kind.stream = some inode.id
  streamsApart : (model.streams.map Stream.id).Nodup
  sorted : (model.nodes.map Inode.id).Pairwise (· < ·)
  found : ∀ id place, findInode model.inodes id = some place
    ↔ ∃ inode, model.inodes[place]? = some inode ∧ inode.id = id
  links : ∀ inode ∈ model.inodes, inode.links = (model.names inode.id).length
  entries : ∀ inode ∈ model.nodes, inode.kind.isDirectory = true → inode.linksOrChildren
    = ((entriesOf model.nodes).filter (·.1 = inode.id)).length
  several : ∀ inode ∈ model.inodes, inode.siblings ≠ [] ↔ 1 < inode.links
  siblings : ∀ inode ∈ model.inodes, 1 < inode.links →
    (inode.siblings.map fun sibling => (sibling.parent, sibling.name, some sibling.id)).Perm
      ((model.names inode.id).map fun entry => (entry.1, entry.2.name, entry.2.sibling))
  before : ∀ inode ∈ model.inodes,
    (∃ directory ∈ model.nodes, directory.id = inode.parent ∧ directory.id < inode.id
      ∧ ∃ child ∈ directory.children, child.inode = inode.id ∧ child.name = inode.name)
    ∧ ∀ sibling ∈ inode.siblings, sibling.parent < sibling.id

/-- A search by halves finds each inode, as they are in the order of their numbers. -/
theorem findInode_iff {inodes : List (Inode μ)} (sorted : (inodes.map Inode.id).Pairwise (· < ·))
    {id place : Nat}
    : findInode inodes id = some place
      ↔ ∃ inode, inodes[place]? = some inode ∧ inode.id = id := by
  refine ⟨exists_of_findInode, ?_⟩
  rintro ⟨inode, there, rfl⟩
  have within := (List.getElem?_eq_some_iff.mp there).1
  have cut : Bisect.bisect (fun i => (.ok ((inodes[i]?).any (·.id < inode.id)) : Except Unit Bool))
      inodes.length 0 inodes.length = .ok place := by
    refine Bisect.bisect_eq _ _ _ (fun i _ high => congrArg _ ?_) (Nat.zero_le _)
      (Nat.le_of_lt within) (le_refl _)
    rw [List.getElem?_eq_getElem high, Option.any_some]
    refine decide_eq_decide.mpr ?_
    have goesUp := List.pairwise_map.mp sorted
    rw [List.pairwise_iff_getElem] at goesUp
    rw [← (List.getElem?_eq_some_iff.mp there).2]
    rcases Nat.lt_trichotomy i place with less | rfl | more
    · exact iff_of_true (goesUp i place high within less) less
    · exact iff_of_false (Nat.lt_irrefl _) (Nat.lt_irrefl _)
    · exact iff_of_false (Nat.not_lt.mpr (Nat.le_of_lt (goesUp place i within high more)))
        (Nat.not_lt.mpr (Nat.le_of_lt more))
  rw [findInode, cut, Except.toOption, Option.filter_some, there, Option.any_some, beq_self_eq_true,
    if_pos rfl]

/-- A directory has as many entries as it holds, by induction on the inodes. -/
theorem length_filter_entriesOf {nodes : List (Inode μ)} (nodup : (nodes.map Inode.id).Nodup)
    {inode : Inode μ} (member : inode ∈ nodes)
    : ((entriesOf nodes).filter (·.1 = inode.id)).length = inode.children.length := by
  induction nodes with
  | nil => cases member
  | cons node nodes ih =>
      obtain ⟨apart, nodup⟩ := List.nodup_cons.mp nodup
      have cons : entriesOf (node :: nodes)
          = node.children.map (node.id, ·) ++ entriesOf nodes := List.flatMap_cons
      rw [cons, List.filter_append, List.length_append, List.filter_map, List.length_map]
      rcases List.mem_cons.mp member with rfl | member
      · have others : (entriesOf nodes).filter (·.1 = inode.id) = [] := by
          refine List.filter_eq_nil_iff.mpr fun entry inside same => ?_
          obtain ⟨other, listed, inside⟩ := List.mem_flatMap.mp inside
          obtain ⟨child, -, rfl⟩ := List.mem_map.mp inside
          exact apart (of_decide_eq_true same ▸ List.mem_map_of_mem listed)
        have all : inode.children.filter ((fun entry : Nat × Child =>
            decide (entry.1 = inode.id)) ∘ (inode.id, ·)) = inode.children :=
          List.filter_eq_self.mpr fun _ _ => decide_eq_true rfl
        rw [others, all]
        rfl
      · have none_ : node.children.filter ((fun entry : Nat × Child => decide (entry.1 = inode.id))
            ∘ (node.id, ·)) = [] := by
          refine List.filter_eq_nil_iff.mpr fun child _ same => apart ?_
          have same : node.id = inode.id := of_decide_eq_true same
          exact same ▸ List.mem_map_of_mem member
        rw [none_, ih nodup member]
        exact Nat.zero_add _

/-- What the first directory is entered with is kept. -/
theorem kept_start (entry : Option (Entry γ μ)) (rootMetadata : μ)
    (children : Names.Children unicode fold) (first : Nat)
    : Kept first (start entry rootMetadata children first) := by
  let builder : Builder γ μ := ⟨first, [], [], [], ⟨0, 0, 0, 0⟩⟩
  obtain ⟨added, next, ids, attr⟩ := Builder.foldl_xattr
    (((entry.map SourceEntry.xattrs).getD []).insertionSort
      fun a b => Key.mk a.name ≤ Key.mk b.name)
    rootNumber false (builder, [])
  have next : (start entry rootMetadata children first).builder
      = { builder with next := first + added.length, attributeStreams := added } := next
  have none_ : entriesOf (start entry rootMetadata children first).nodes = [] := by
    rw [Walk.nodes, next]
    rfl
  refine ⟨⟨rfl, ?_, ?_, ?_, ?_, ?_, ?_⟩, ?_, fun place inode _ at_ => ?_⟩
  · rw [next]
    exact ⟨added.length, rfl, ids ▸ .refl _⟩
  · rw [Walk.nodes, next]
    exact List.pairwise_singleton _ _
  · rw [none_]
    exact fun _ member => absurd member List.not_mem_nil
  · rw [next]
    exact .refl _
  · rw [next]
    exact fun _ member => absurd member List.not_mem_nil
  · rw [next]
    exact fun stream member => (attr stream member).1
  · rw [next]
    rfl
  · rw [next] at at_
    cases at_

/-- What the walk keeps is what is promised of its model. -/
theorem Kept.identified {first : Nat} {walk : Walk unicode fold γ μ} (kept : Kept first walk)
    : Identified first walk.model := by
  have sound := kept.sound
  have sorted := List.perm_insertionSort (fun a b : Stream γ => a.id ≤ b.id)
    walk.builder.attributeStreams
  have held : ∀ stream ∈ walk.builder.attributeStreams.insertionSort fun a b => a.id ≤ b.id,
      stream.isData = false :=
    fun stream member => sound.attributes stream (sorted.mem_iff.mp member)
  have data : walk.model.dataStreams = walk.builder.streams := by
    rw [ApfsModel.dataStreams, Walk.model, List.filter_append, List.filter_eq_self.mpr sound.files,
      List.filter_eq_nil_iff.mpr fun stream member =>
        (held stream member).symm ▸ Bool.false_ne_true, List.append_nil]
  have attributes : walk.model.attributeStreams
      = walk.builder.attributeStreams.insertionSort fun a b => a.id ≤ b.id := by
    rw [ApfsModel.attributeStreams, Walk.model, List.filter_append,
      List.filter_eq_nil_iff.mpr fun stream member => by rw [sound.files stream member]; decide,
      List.nil_append, List.filter_eq_self.mpr fun stream member => by rw [held stream member]; rfl]
  have numbered : Drawn first walk.model.nextObjectId
      (walk.model.inodes.flatMap Inode.taken ++ walk.model.attributeStreams.map Stream.id) := by
    rw [attributes]
    exact sound.drawn.perm ((sorted.map _).append_left _)
  have named (inode : Inode μ) (member : inode ∈ walk.model.inodes)
      : ∃ index, Named walk.nodes 2 inode index := by
    obtain ⟨place, at_⟩ := List.mem_iff_getElem?.mp member
    obtain ⟨index, -, named⟩ := kept.named place inode not_false at_
    exact ⟨index, named⟩
  have several (inode : Inode μ) (member : inode ∈ walk.model.inodes)
      : inode.siblings ≠ [] ↔ 1 < inode.links := by
    obtain ⟨index, named⟩ := named inode member
    obtain ⟨child, -, -, -, alone⟩ := named.first
    rcases named.siblings with none_ | ⟨some_, linked, -⟩
    · rw [named.links, (alone none_).2.length_eq]
      exact iff_of_false (fun some_ => some_ none_) (Nat.lt_irrefl _)
    · have length := linked.length_eq
      rw [List.length_map, List.length_map] at length
      rw [named.links, ← length]
      exact iff_of_true (fun none_ => by rw [none_] at some_; cases some_) some_
  have own (inode : Inode μ) (member : inode ∈ walk.model.inodes)
      : (inode.data.map Prod.fst).Sublist inode.taken := by
    obtain ⟨index, named⟩ := named inode member
    rw [Inode.data, Inode.taken]
    rcases named.stream with none_ | some_
    · rw [none_]
      exact List.nil_sublist _
    · rw [some_]
      exact (List.nil_sublist _).cons_cons _
  -- a file's stream bears its file's number, so the streams' numbers are among those taken
  have apart : (walk.model.streams.map Stream.id).Nodup := by
    have files := sound.data.map Prod.fst
    rw [List.map_map, List.map_flatMap] at files
    have some_ : ((walk.model.inodes.flatMap fun inode => inode.data.map Prod.fst)
        ++ walk.model.attributeStreams.map Stream.id).Nodup :=
      numbered.nodup.sublist ((List.Sublist.flatMap_right _ own).append_right _)
    rw [attributes] at some_
    rw [Walk.model, List.map_append]
    exact (files.append_right _).nodup_iff.mpr some_
  exact {
    root := sound.root
    numbered := numbered
    dataStreams := by
      rw [data]
      exact sound.data
    ownStream := fun inode member => (named inode member).elim fun _ named => named.stream
    streamsApart := apart
    sorted := sound.sorted
    found := fun id place => findInode_iff (List.pairwise_cons.mp sound.sorted).2
    links := fun inode member => (named inode member).elim fun _ named => named.links
    entries := by
      intro inode member isDirectory
      refine .trans ?_ (length_filter_entriesOf sound.nodup member).symm
      rw [Inode.linksOrChildren, Inode.children]
      cases kind : inode.kind with
      | directory children => rfl
      | _ =>
          rw [kind] at isDirectory
          exact absurd isDirectory Bool.false_ne_true
    several := several
    siblings := by
      intro inode member more
      have some_ := (several inode member).mpr more
      obtain ⟨index, named⟩ := named inode member
      exact (named.siblings.resolve_left some_).2.1
    before := by
      intro inode member
      obtain ⟨index, named⟩ := named inode member
      obtain ⟨child, ⟨directory, listed, parent, at_⟩, of, name, -⟩ := named.first
      refine ⟨⟨directory, listed, parent, parent ▸ named.below, child,
        List.mem_of_getElem? at_, of, name⟩, fun sibling inside => ?_⟩
      rcases named.siblings with none_ | ⟨-, -, below⟩
      · rw [none_] at inside
        exact absurd inside List.not_mem_nil
      · exact below sibling inside }

/-- A model is numbered from one counter: each inode, each name of an inode that has several and
each attribute's stream takes an identifier of its own, and a file's stream its file's. The inodes
are in that order, so each is found by it; each counts the names that reach it, a directory its
entries, and has siblings, one for each name, exactly where it has several; and what holds an inode
is numbered before it.
-/
theorem identifiers_taken (len : γ → Nat) (classes : SortedMap Key Names.Class)
    (entries : List (Entry γ μ)) (rootMetadata : μ) (first : FirstId) (model : ApfsModel γ μ)
    (built : build unicode fold len classes entries rootMetadata first = .ok model)
    : Identified first model := by
  obtain ⟨named, -, built⟩ := Checked.bind_eq_ok.mp built
  obtain ⟨children, -, built⟩ := Checked.bind_eq_ok.mp built
  obtain ⟨⟨⟩, -, built⟩ := Checked.bind_eq_ok.mp built
  obtain ⟨objects, -, built⟩ := Checked.bind_eq_ok.mp built
  obtain ⟨walk, walked, built⟩ := Checked.bind_eq_ok.mp built
  obtain rfl := Except.ok.inj built
  have ended : Walk.walked len (fun key => objects.get? ⟨key⟩) (byKey entries)
      (start (byKey entries []) rootMetadata (inRecordOrder children) first) = some walk := by
    generalize Walk.walked _ _ _ _ = ended at walked
    cases ended with
    | none => cases walked
    | some _ => exact congrArg some (Except.ok.inj walked)
  have above : rootNumber < first.1 := Nat.lt_of_succ_lt first.2
  exact ((kept_start _ _ _ _).walked above ended).identified

/-- A file of one byte at `a`, and a link to it at `b`. -/
def linkedFile : List (Entry Bytes Unit) :=
  [⟨[0x61], .file [1], (), [], none⟩, ⟨[0x62], .hardLink [0x61], (), [], none⟩]

def linkedClasses : SortedMap Key Names.Class :=
  (SortedMap.empty.insert ⟨[0x61]⟩ .object).insert ⟨[0x62]⟩ (.link [0x61])

theorem privateNumber_lt_firstUser : privateNumber < firstUser := by decide

def linkedModel : Except ModelError (ApfsModel Bytes Unit) :=
  build Names.unicode17 true List.length linkedClasses linkedFile ()
    ⟨firstUser, privateNumber_lt_firstUser⟩

/-- The file with two names is numbered once, and its names after it. -/
theorem identifiers_taken_linked
    : ∃ model, linkedModel = .ok model ∧ Identified firstUser model
      ∧ model.inodes.map Inode.taken = [[16, 17, 18]] := by
  have built : (linkedModel.toOption.map fun model => model.inodes.map Inode.taken)
      = some [[16, 17, 18]] := by decide +kernel
  cases made : linkedModel with
  | error error =>
      rw [made] at built
      cases built
  | ok model =>
      rw [made] at built
      exact ⟨model, rfl, identifiers_taken _ _ _ _ _ _ made, Option.some.inj built⟩

/-- A file's stream takes the number its file has. -/
theorem identifiers_shared
    : ∃ model, linkedModel = .ok model
      ∧ ¬ (model.inodes.map Inode.id ++ model.streams.map Stream.id).Nodup := by
  have shared : (linkedModel.toOption.map fun model =>
      model.inodes.map Inode.id ++ model.streams.map Stream.id) = some [16, 16] := by
    decide +kernel
  cases made : linkedModel with
  | error error =>
      rw [made] at shared
      cases shared
  | ok model =>
      rw [made] at shared
      have same : model.inodes.map Inode.id ++ model.streams.map Stream.id = [16, 16] :=
        Option.some.inj shared
      refine ⟨model, rfl, ?_⟩
      rw [same]
      decide

end Ferrosys.Apfs.Model
