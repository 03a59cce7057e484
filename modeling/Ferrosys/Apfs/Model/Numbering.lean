import Ferrosys.Apfs.Model
import Ferrosys.Library.Counter

/-! What the walk has numbered: each identifier taken once, and each inode with the names the walk
has met of it.
-/

namespace Ferrosys.Apfs.Model

variable {γ μ : Type} {unicode : Names.Unicode} {fold : Bool}

open Counter SortedMaps

-----------------------------------------------------------------------------------------
-- What a new inode takes
-----------------------------------------------------------------------------------------

/-- One attribute takes an identifier for its stream, or nothing. -/
theorem Builder.xattr_fst (self : Builder γ μ) (id : Nat) (compressed : Bool) (xattr : Xattr)
    : ∃ added : List (Stream γ), (self.xattr id compressed xattr).1
        = { self with
            next := self.next + added.length
            attributeStreams := self.attributeStreams ++ added }
      ∧ added.map Stream.id = List.range' self.next added.length
      ∧ ∀ stream ∈ added, stream.isData = false ∧ stream.owner = id := by
  rw [Builder.xattr]
  dsimp only
  generalize (compressed && xattr.name == decmpfsXattr) = header
  generalize (xattr.name == resourceForkXattr || header) = fork
  by_cases inRecord : ((header || !fork) && decide (xattr.value.length
      ≤ if header then maxEmbeddedHeader else maxEmbeddedXattr)) = true
  · rw [if_pos inRecord]
    exact ⟨[], by rw [List.append_nil]; rfl, rfl, fun _ member => absurd member List.not_mem_nil⟩
  · rw [if_neg inRecord]
    refine ⟨[⟨self.next, id, _, .held _, _⟩], rfl, rfl, fun stream member => ?_⟩
    rw [List.mem_singleton.mp member]
    exact ⟨rfl, rfl⟩

/-- Each attribute kept in a stream takes an identifier, in order, by induction on them. -/
theorem Builder.foldl_xattr (given : List Xattr) (id : Nat) (compressed : Bool)
    (held : Builder γ μ × List ModelXattr)
    : ∃ added : List (Stream γ),
      (given.foldl (fun held xattr =>
          let placed := held.1.xattr id compressed xattr
          (placed.1, held.2 ++ [placed.2])) held).1
        = { held.1 with
            next := held.1.next + added.length
            attributeStreams := held.1.attributeStreams ++ added }
      ∧ added.map Stream.id = List.range' held.1.next added.length
      ∧ ∀ stream ∈ added, stream.isData = false ∧ stream.owner = id := by
  induction given generalizing held with
  | nil =>
      exact ⟨[], by rw [List.append_nil]; rfl, rfl,
        fun _ member => absurd member List.not_mem_nil⟩
  | cons xattr given ih =>
      obtain ⟨first, next, ids, attr⟩ := held.1.xattr_fst id compressed xattr
      obtain ⟨rest, next', ids', attr'⟩ :=
        ih ((held.1.xattr id compressed xattr).1, held.2 ++ [(held.1.xattr id compressed xattr).2])
      refine ⟨first ++ rest, ?_, ?_, fun stream member => ?_⟩
      · rw [List.foldl_cons]
        dsimp only
        rw [next', next]
        dsimp only
        rw [List.length_append, List.append_assoc, Nat.add_assoc]
      · rw [List.map_append, ids, ids', next, List.length_append]
        exact List.range'_append_1
      · exact (List.mem_append.mp member).elim (attr stream) (attr' stream)

/-- What numbering an inode by its first name leaves. -/
structure Created (before after : Builder γ μ) (inode : Inode μ) (parent : Nat) (name : Bytes)
    : Prop where
  inodes : after.inodes = before.inodes ++ [inode]
  id : inode.id = before.next
  parent : inode.parent = parent
  name : inode.name = name
  links : inode.links = 1
  siblings : inode.siblings = []
  children : inode.children = []
  stream : inode.kind.stream = none ∨ inode.kind.stream = some inode.id
  streams : ∃ added, after.streams = before.streams ++ added
    ∧ added.map (fun stream => (stream.id, stream.owner))
      = inode.kind.stream.toList.map (fun stream => (stream, inode.id))
    ∧ ∀ stream ∈ added, stream.isData = true
  attributeStreams : ∃ added, after.attributeStreams = before.attributeStreams ++ added
    ∧ after.next = before.next + 1 + added.length
    ∧ added.map Stream.id = List.range' (before.next + 1) added.length
    ∧ ∀ stream ∈ added, stream.isData = false ∧ stream.owner = inode.id

/-- An entry's inode holds nothing yet, and its bytes go in a stream of its own number if in any. -/
theorem kindOf_eq_some {len : γ → Nat} {id : Nat} {compressed : Bool} {kind : EntryKind γ}
    {made : InodeKind × Option (Stream γ)} (placed : kindOf len id compressed kind = some made)
    : made.1.children = [] ∧ (made.1.stream = none ∨ made.1.stream = some id)
      ∧ made.2.toList.map (fun stream => (stream.id, stream.owner))
        = made.1.stream.toList.map (fun stream => (stream, id))
      ∧ ∀ stream ∈ made.2.toList, stream.isData = true := by
  cases kind with
  | file content =>
      rw [kindOf] at placed
      split at placed
      · obtain rfl := Option.some.inj placed
        exact ⟨rfl, .inl rfl, rfl, fun _ member => absurd member List.not_mem_nil⟩
      · obtain rfl := Option.some.inj placed
        refine ⟨rfl, .inr rfl, rfl, fun stream member => ?_⟩
        rw [List.mem_singleton.mp member]
        rfl
  | hardLink target => cases placed
  | _ =>
      obtain rfl := Option.some.inj placed
      exact ⟨rfl, .inl rfl, rfl, fun _ member => absurd member List.not_mem_nil⟩

theorem Builder.create_eq_some {len : γ → Nat} {before after : Builder γ μ} {entry : Entry γ μ}
    {parent : Nat} {name : Bytes} {inode : Inode μ}
    (created : before.create len entry parent name = some (after, inode))
    : Created before after inode parent name := by
  obtain ⟨made, placed, same⟩ := Option.map_eq_some_iff.mp created
  obtain ⟨children, stream, own, data⟩ := kindOf_eq_some placed
  obtain ⟨rfl, rfl⟩ := Prod.mk.inj same
  obtain ⟨added, next, ids, attr⟩ := Builder.foldl_xattr
    ((givenXattrs entry).insertionSort fun a b => Key.mk a.name ≤ Key.mk b.name) before.next
    (entry.darwin.bind Darwin.compressed).isSome
    (({ before.take.2 with
        streams := before.streams ++ made.2.toList
        counts := before.counts.count made.1 } : Builder γ μ), [])
  exact {
    inodes := congrArg (· ++ _) ((congrArg Builder.inodes next).trans rfl)
    id := rfl
    parent := rfl
    name := rfl
    links := rfl
    siblings := rfl
    children := children
    stream := stream
    streams := ⟨made.2.toList, congrArg Builder.streams next, own, data⟩
    attributeStreams := ⟨added, congrArg Builder.attributeStreams next,
      congrArg Builder.next next, ids, attr⟩ }

-----------------------------------------------------------------------------------------
-- What the directories hold
-----------------------------------------------------------------------------------------

/-- Every entry of `nodes`, with the directory it is in. -/
def entriesOf (nodes : List (Inode μ)) : List (Nat × Child) :=
  nodes.flatMap fun inode => inode.children.map (inode.id, ·)

/-- The names that reach inode `id`. -/
def namesOf (nodes : List (Inode μ)) (id : Nat) : List (Nat × Child) :=
  (entriesOf nodes).filter (·.2.inode = id)

/-- Entry `index` of directory `parent` is `child`. -/
def Holds (nodes : List (Inode μ)) (parent index : Nat) (child : Child) : Prop :=
  ∃ directory ∈ nodes, directory.id = parent ∧ directory.children[index]? = some child

def Slot.index : Slot → Nat
  | .root => 0
  | .inode place => place + 1

/-- Every inode, the root first. -/
def Walk.nodes (self : Walk unicode fold γ μ) : List (Inode μ) := self.root :: self.builder.inodes

theorem Walk.inode_eq (self : Walk unicode fold γ μ) (slot : Slot)
    : self.inode slot = self.nodes[slot.index]? := by
  cases slot <;> rfl

theorem Walk.nodes_modify (self : Walk unicode fold γ μ) (slot : Slot)
    (change : Inode μ → Inode μ)
    : (self.modify slot change).nodes = self.nodes.modify slot.index change := by
  cases slot <;> rfl

@[simp] theorem InodeKind.stream_mapChildren (kind : InodeKind) (change : List Child → List Child)
    : (kind.mapChildren change).stream = kind.stream := by
  cases kind <;> rfl

/-- A directory's entries are changed, and nothing else has any. -/
theorem Inode.children_mapChildren {inode : Inode μ} (change : List Child → List Child)
    (none_ : inode.kind.isDirectory = true ∨ change [] = [])
    : (inode.mapChildren change).children = change inode.children := by
  rw [Inode.mapChildren, Inode.children, Inode.children]
  cases kind : inode.kind with
  | directory children => rfl
  | _ => exact (none_.resolve_left (by rw [kind]; exact Bool.false_ne_true)).symm

/-- A new inode holds no entries. -/
theorem entriesOf_append {nodes : List (Inode μ)} {inode : Inode μ} (empty : inode.children = [])
    : entriesOf (nodes ++ [inode]) = entriesOf nodes := by
  rw [entriesOf, List.flatMap_append, List.flatMap_singleton, empty, List.map_nil,
    List.append_nil, entriesOf]

/-- A directory given one more entry. -/
theorem entriesOf_push {nodes : List (Inode μ)} {place : Nat} {directory : Inode μ}
    (found : nodes[place]? = some directory) (entered : directory.kind.isDirectory = true)
    (child : Child)
    : (entriesOf (nodes.modify place (.mapChildren (· ++ [child])))).Perm
      ((directory.id, child) :: entriesOf nodes) := by
  obtain ⟨rest, before, after⟩ := exists_flatMap_modify found (.mapChildren (· ++ [child]))
    fun inode => inode.children.map (inode.id, ·)
  refine after.trans (.trans ?_ (before.symm.cons _))
  rw [Inode.children_mapChildren _ (.inl entered), List.map_append, List.map_singleton,
    List.append_assoc]
  exact List.perm_middle

/-- One entry of a directory changed. -/
theorem exists_entriesOf_mark {nodes : List (Inode μ)} {place index : Nat} {directory : Inode μ}
    {child : Child} (found : nodes[place]? = some directory)
    (held : directory.children[index]? = some child) (change : Child → Child)
    : ∃ rest, (entriesOf nodes).Perm ((directory.id, child) :: rest)
      ∧ (entriesOf (nodes.modify place (.mapChildren fun children =>
          children.modify index change))).Perm ((directory.id, change child) :: rest) := by
  obtain ⟨rest, before, after⟩ := exists_flatMap_modify found
    (.mapChildren fun children => children.modify index change)
    fun inode => inode.children.map (inode.id, ·)
  obtain ⟨others, alone, changed⟩ := exists_flatMap_modify held change
    fun child => [(directory.id, child)]
  rw [← List.map_eq_flatMap] at alone changed
  refine ⟨others ++ rest, before.trans (alone.append_right rest), after.trans ?_⟩
  rw [Inode.children_mapChildren (fun children => children.modify index change)
    (.inr (List.modify_nil _ _))]
  exact changed.append_right rest

theorem perm_namesOf_of_cons {nodes nodes' : List (Inode μ)} {entry : Nat × Child}
    (more : (entriesOf nodes').Perm (entry :: entriesOf nodes)) (id : Nat)
    : (namesOf nodes' id).Perm
      (if entry.2.inode = id then entry :: namesOf nodes id else namesOf nodes id) := by
  have filtered := more.filter (·.2.inode = id)
  rw [List.filter_cons] at filtered
  simpa only [namesOf, decide_eq_true_eq] using filtered

/-- What a change of one inode keeps of its entries is held as before. -/
theorem Holds.modify {nodes : List (Inode μ)} {parent index place : Nat} {child : Child}
    {change : Inode μ → Inode μ} (held : Holds nodes parent index child)
    (same : ∀ inode, (change inode).id = inode.id)
    (kept : ∀ inode, nodes[place]? = some inode → inode.id = parent →
      inode.children[index]? = some child → (change inode).children[index]? = some child)
    : Holds (nodes.modify place change) parent index child := by
  obtain ⟨directory, member, rfl, found⟩ := held
  obtain ⟨i, at_⟩ := List.mem_iff_getElem?.mp member
  by_cases here : place = i
  · subst here
    have there : (nodes.modify place change)[place]? = some (change directory) := by
      rw [List.getElem?_modify_eq, at_, Option.map_eq_map, Option.map_some]
    exact ⟨change directory, List.mem_of_getElem? there, same directory,
      kept directory at_ rfl found⟩
  · have there := (List.getElem?_modify_ne change nodes here).trans at_
    exact ⟨directory, List.mem_of_getElem? there, rfl, found⟩

theorem Holds.append {nodes : List (Inode μ)} {parent index : Nat} {child : Child}
    (held : Holds nodes parent index child) (added : List (Inode μ))
    : Holds (nodes ++ added) parent index child := by
  obtain ⟨directory, member, found⟩ := held
  exact ⟨directory, List.mem_append_left _ member, found⟩

-----------------------------------------------------------------------------------------
-- What has been numbered
-----------------------------------------------------------------------------------------

/-- The identifiers an inode has taken for itself and for its names. -/
def Inode.taken (self : Inode μ) : List Nat := self.id :: self.siblings.map Sibling.id

/-- The stream of a file's own bytes, and whose it is. -/
def Inode.data (self : Inode μ) : List (Nat × Nat) := self.kind.stream.toList.map (·, self.id)

/-- Each identifier is taken once: by an inode, by one of its names or by an attribute's stream. -/
structure Sound (first : Nat) (walk : Walk unicode fold γ μ) : Prop where
  root : walk.root.id = rootNumber
  drawn : Drawn first walk.builder.next (walk.builder.inodes.flatMap Inode.taken
    ++ walk.builder.attributeStreams.map Stream.id)
  sorted : (walk.nodes.map Inode.id).Pairwise (· < ·)
  known : ∀ entry ∈ entriesOf walk.nodes, entry.2.inode < walk.builder.next
  data : (walk.builder.streams.map fun stream => (stream.id, stream.owner)).Perm
    (walk.builder.inodes.flatMap Inode.data)
  files : ∀ stream ∈ walk.builder.streams, stream.isData = true
  attributes : ∀ stream ∈ walk.builder.attributeStreams, stream.isData = false

section

variable {first : Nat} {walk : Walk unicode fold γ μ}

/-- An inode is numbered before the next identifier. -/
theorem Sound.id_lt (sound : Sound first walk) (above : rootNumber < first) {inode : Inode μ}
    (member : inode ∈ walk.nodes) : inode.id < walk.builder.next := by
  rcases List.mem_cons.mp member with rfl | member
  · rw [sound.root]
    exact Nat.lt_of_lt_of_le above sound.drawn.le
  · refine (sound.drawn.mem_iff.mp (List.mem_append_left _ ?_)).2
    exact List.mem_flatMap.mpr ⟨inode, member, List.mem_cons_self⟩

/-- A new inode takes the next identifiers. -/
theorem Sound.create (sound : Sound first walk) (above : rootNumber < first)
    {walk' : Walk unicode fold γ μ} {inode : Inode μ} {parent : Nat} {name : Bytes}
    (created : Created walk.builder walk'.builder inode parent name) (root : walk'.root = walk.root)
    : Sound first walk' := by
  obtain ⟨added, attributes, next, ids, attr⟩ := created.attributeStreams
  obtain ⟨data, streams, own, file⟩ := created.streams
  have nodes : walk'.nodes = walk.nodes ++ [inode] := by
    rw [Walk.nodes, root, created.inodes, Walk.nodes, List.cons_append]
  have later : walk.builder.next ≤ walk'.builder.next := by omega
  refine ⟨root ▸ sound.root, ?_, ?_, ?_, ?_, ?_, ?_⟩
  · have taken := (sound.drawn.take).takeMany added.length
    rw [← next] at taken
    refine taken.perm ?_
    rw [created.inodes, attributes, List.flatMap_append, List.flatMap_singleton, Inode.taken,
      created.siblings, created.id, List.map_append, ids, List.map_nil]
    refine ((List.perm_append_comm.append_right _).trans ?_).trans List.perm_append_comm
    simp only [List.append_assoc, List.cons_append]
    rfl
  · rw [nodes, List.map_append, List.pairwise_append]
    refine ⟨sound.sorted, List.pairwise_singleton _ _, fun id member id' last => ?_⟩
    obtain ⟨other, inside, rfl⟩ := List.mem_map.mp member
    rw [List.mem_singleton.mp last, created.id]
    exact sound.id_lt above inside
  · rw [nodes, entriesOf_append created.children]
    exact fun entry member => Nat.lt_of_lt_of_le (sound.known entry member) later
  · rw [streams, created.inodes, List.map_append, List.flatMap_append, List.flatMap_singleton,
      own]
    exact sound.data.append_right _
  · rw [streams]
    exact fun stream member => (List.mem_append.mp member).elim (sound.files stream) (file stream)
  · rw [attributes]
    exact fun stream member => (List.mem_append.mp member).elim (sound.attributes stream)
      fun new => (attr stream new).1

/-- A change to one inode that keeps its number and its stream. -/
theorem Sound.change (sound : Sound first walk) {walk' : Walk unicode fold γ μ} {slot : Slot}
    {change : Inode μ → Inode μ} (nodes : walk'.nodes = walk.nodes.modify slot.index change)
    (streams : walk'.builder.streams = walk.builder.streams)
    (attributes : walk'.builder.attributeStreams = walk.builder.attributeStreams)
    (id : ∀ inode, (change inode).id = inode.id)
    (stream : ∀ inode, (change inode).kind.stream = inode.kind.stream)
    (drawn : Drawn first walk'.builder.next (walk'.builder.inodes.flatMap Inode.taken
      ++ walk.builder.attributeStreams.map Stream.id))
    (known : ∀ entry ∈ entriesOf walk'.nodes, entry.2.inode < walk'.builder.next)
    : Sound first walk' := by
  have split : walk'.root.id = walk.root.id
      ∧ (walk'.builder.inodes.flatMap Inode.data).Perm
        (walk.builder.inodes.flatMap Inode.data) := by
    cases slot with
    | root =>
        obtain ⟨root, inodes⟩ := List.cons.inj nodes
        exact ⟨root ▸ id _, inodes ▸ .refl _⟩
    | inode place =>
        obtain ⟨root, inodes⟩ := List.cons.inj nodes
        refine ⟨congrArg Inode.id root, inodes ▸ flatMap_modify_perm fun inode _ => ?_⟩
        rw [Inode.data, stream, id, Inode.data]
  refine ⟨split.1.trans sound.root, attributes ▸ drawn, ?_, known, ?_, ?_, ?_⟩
  · rw [nodes, map_modify id]
    exact sound.sorted
  · rw [streams]
    exact sound.data.trans split.2.symm
  · rw [streams]
    exact sound.files
  · rw [attributes]
    exact sound.attributes

/-- A directory's entries are changed. -/
theorem Sound.mapChildren (sound : Sound first walk) {slot : Slot}
    {change : List Child → List Child}
    (known : ∀ entry ∈ entriesOf (walk.nodes.modify slot.index (.mapChildren change)),
      entry.2.inode < walk.builder.next)
    : Sound first (walk.modify slot (.mapChildren change)) := by
  cases slot with
  | root =>
      exact sound.change (walk.nodes_modify .root _) rfl rfl (fun _ => rfl)
        (fun inode => inode.kind.stream_mapChildren change) sound.drawn known
  | inode place =>
      have taken : ((walk.builder.inodes.modify place (.mapChildren change)).flatMap
          Inode.taken).Perm (walk.builder.inodes.flatMap Inode.taken) :=
        flatMap_modify_perm fun _ _ => .refl _
      exact sound.change (walk.nodes_modify (.inode place) _) rfl rfl (fun _ => rfl)
        (fun inode => inode.kind.stream_mapChildren change)
        (sound.drawn.perm (taken.append_right _)) known

/-- A change of one inode that keeps its number and its entries changes nothing of what the
directories hold.
-/
theorem entriesOf_modify_perm {nodes : List (Inode μ)} {place : Nat} {change : Inode μ → Inode μ}
    (id : ∀ inode, (change inode).id = inode.id)
    (kind : ∀ inode, (change inode).kind = inode.kind)
    : (entriesOf (nodes.modify place change)).Perm (entriesOf nodes) :=
  flatMap_modify_perm fun inode _ => by rw [Inode.children, id, kind, Inode.children]

/-- One more name of an inode takes the next identifier. -/
theorem Sound.link (sound : Sound first walk) {place : Nat} {inode : Inode μ}
    {change : Inode μ → Inode μ} (found : walk.builder.inodes[place]? = some inode)
    (id : ∀ inode, (change inode).id = inode.id)
    (kind : ∀ inode, (change inode).kind = inode.kind)
    (siblings : (change inode).siblings.map Sibling.id
      = inode.siblings.map Sibling.id ++ [walk.builder.next])
    : Sound first (walk.take.2.modify (.inode place) change) := by
  refine sound.change (walk.take.2.nodes_modify (.inode place) change) rfl rfl id
    (fun inode => congrArg _ (kind inode)) (sound.drawn.take.perm ?_) fun entry member => ?_
  · obtain ⟨rest, before, after⟩ := exists_flatMap_modify found change Inode.taken
    have taken : (Inode.taken (change inode)).Perm (walk.builder.next :: inode.taken) := by
      rw [Inode.taken, siblings, id, Inode.taken, ← List.cons_append]
      exact List.perm_append_singleton _ _
    rw [← List.cons_append]
    exact (after.trans ((taken.append_right rest).trans (before.symm.cons _))).append_right _
  · rw [Walk.nodes_modify] at member
    have inside := (entriesOf_modify_perm id kind).mem_iff.mp member
    exact Nat.lt_succ_of_lt (sound.known entry inside)

end

end Ferrosys.Apfs.Model
