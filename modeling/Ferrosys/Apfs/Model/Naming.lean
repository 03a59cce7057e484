import Ferrosys.Apfs.Model.Numbering

/-! What the walk keeps of each inode it has numbered: the names it has met of it are counted, and
where there are several there is a sibling for each.
-/

namespace Ferrosys.Apfs.Model

variable {γ μ : Type} {unicode : Names.Unicode} {fold : Bool}

open Counter SortedMaps

/-- An inode's siblings are one for each of its names, later than the directory the name is in. -/
def Linked (nodes : List (Inode μ)) (inode : Inode μ) : Prop :=
  (inode.siblings.map fun sibling => (sibling.parent, sibling.name, some sibling.id)).Perm
      ((namesOf nodes inode.id).map fun entry => (entry.1, entry.2.name, entry.2.sibling))
    ∧ ∀ sibling ∈ inode.siblings, sibling.parent < sibling.id

/-- The names of an inode: the first is where it says, in a directory numbered before it, and is the
only one while the inode has no siblings; else it has at least so many.
-/
structure Named (nodes : List (Inode μ)) (least : Nat) (inode : Inode μ) (index : Nat) : Prop where
  below : inode.parent < inode.id
  stream : inode.kind.stream = none ∨ inode.kind.stream = some inode.id
  first : ∃ child, Holds nodes inode.parent index child ∧ child.inode = inode.id
    ∧ child.name = inode.name
    ∧ (inode.siblings = [] → child.sibling = none
      ∧ (namesOf nodes inode.id).Perm [(inode.parent, child)])
  links : inode.links = (namesOf nodes inode.id).length
  siblings : inode.siblings = [] ∨ least ≤ inode.siblings.length ∧ Linked nodes inode

section

variable {nodes nodes' : List (Inode μ)} {least index place : Nat} {inode : Inode μ}

/-- An inode is named as before where its names and the first of them are. -/
theorem Named.keep (named : Named nodes least inode index)
    (names : (namesOf nodes' inode.id).Perm (namesOf nodes inode.id))
    (holds : ∀ child, child.inode = inode.id → Holds nodes inode.parent index child →
      Holds nodes' inode.parent index child)
    : Named nodes' least inode index := by
  obtain ⟨child, held, ofInode, name, alone⟩ := named.first
  refine ⟨named.below, named.stream, ⟨child, holds child ofInode held, ofInode, name, ?_⟩,
    named.links.trans names.length_eq.symm, named.siblings.imp_right fun several => ?_⟩
  · exact fun none_ => ⟨(alone none_).1, names.trans (alone none_).2⟩
  · exact ⟨several.1, several.2.1.trans (names.symm.map _), several.2.2⟩

/-- What an inode holds is not what it is named. -/
theorem Named.mapChildren (named : Named nodes least inode index)
    (change : List Child → List Child) : Named nodes least (inode.mapChildren change) index :=
  ⟨named.below, (inode.kind.stream_mapChildren change).symm ▸ named.stream, named.first,
    named.links, named.siblings⟩

/-- A directory given one more entry holds what it did. -/
theorem Holds.push {parent at_ : Nat} {child added : Child} (held : Holds nodes parent at_ child)
    {directory : Inode μ} (found : nodes[place]? = some directory)
    (entered : directory.kind.isDirectory = true)
    : Holds (nodes.modify place (.mapChildren (· ++ [added]))) parent at_ child := by
  refine held.modify (fun _ => rfl) fun inode there _ here => ?_
  obtain rfl := Option.some.inj (found.symm.trans there)
  rw [Inode.children_mapChildren _ (.inl entered)]
  exact (List.getElem?_append_left (List.getElem?_eq_some_iff.mp here).1).trans here

/-- The entry a directory is given is its last. -/
theorem holds_push {directory : Inode μ} (found : nodes[place]? = some directory)
    (entered : directory.kind.isDirectory = true) (child : Child)
    : Holds (nodes.modify place (.mapChildren (· ++ [child]))) directory.id
      directory.children.length child := by
  have there : (nodes.modify place (.mapChildren (· ++ [child])))[place]?
      = some (directory.mapChildren (· ++ [child])) := by
    rw [List.getElem?_modify_eq, found, Option.map_eq_map, Option.map_some]
  refine ⟨directory.mapChildren (· ++ [child]), List.mem_of_getElem? there, rfl, ?_⟩
  rw [Inode.children_mapChildren _ (.inl entered), List.getElem?_concat_length]

/-- A name of another inode changes nothing for this. -/
theorem Named.push (named : Named nodes least inode index) {directory : Inode μ}
    (found : nodes[place]? = some directory) (entered : directory.kind.isDirectory = true)
    {child : Child} (other : child.inode ≠ inode.id)
    : Named (nodes.modify place (.mapChildren (· ++ [child]))) least inode index := by
  refine named.keep ?_ fun _ _ held => held.push found entered
  have names := perm_namesOf_of_cons (entriesOf_push found entered child) inode.id
  rwa [if_neg other] at names

/-- A sibling more, for a name more. -/
theorem Linked.push (linked : Linked nodes inode) {entry : Nat × Child} {sibling : Sibling}
    (more : (entriesOf nodes').Perm (entry :: entriesOf nodes)) (of : entry.2.inode = inode.id)
    (same : (entry.1, entry.2.name, entry.2.sibling)
      = (sibling.parent, sibling.name, some sibling.id))
    (below : sibling.parent < sibling.id) {after : Inode μ} (id : after.id = inode.id)
    (siblings : after.siblings = inode.siblings ++ [sibling])
    : Linked nodes' after := by
  have names := perm_namesOf_of_cons more inode.id
  rw [if_pos of] at names
  refine ⟨?_, fun other member => ?_⟩
  · rw [siblings, id, List.map_append, List.map_singleton]
    refine (List.perm_append_singleton _ _).trans (.trans ?_ (names.map _).symm)
    rw [List.map_cons, same]
    exact linked.1.cons _
  · rw [siblings] at member
    exact (List.mem_append.mp member).elim (linked.2 other) fun last =>
      List.mem_singleton.mp last ▸ below

end

/-- Each inode but perhaps one is named. -/
def NamedBut (walk : Walk unicode fold γ μ) (but : Nat → Prop) : Prop :=
  ∀ place inode, ¬ but place → walk.builder.inodes[place]? = some inode →
    ∃ index, walk.firstEntry[place]? = some index ∧ Named walk.nodes 2 inode index

/-- What the walk keeps. -/
structure Kept (first : Nat) (walk : Walk unicode fold γ μ) : Prop where
  sound : Sound first walk
  aligned : walk.firstEntry.length = walk.builder.inodes.length
  named : NamedBut walk fun _ => False

section

variable {first : Nat} {walk walk' : Walk unicode fold γ μ}

/-- No two inodes have one number. -/
theorem Sound.nodup (sound : Sound first walk) : (walk.nodes.map Inode.id).Nodup :=
  sound.sorted.imp Nat.ne_of_lt

theorem Sound.eq_of_id (sound : Sound first walk) {a b : Inode μ} (inA : a ∈ walk.nodes)
    (inB : b ∈ walk.nodes) (same : a.id = b.id) : a = b :=
  List.inj_on_of_nodup_map sound.nodup inA inB same

theorem Sound.id_ne (sound : Sound first walk) {i j : Nat} {a b : Inode μ} (apart : i ≠ j)
    (atI : walk.builder.inodes[i]? = some a) (atJ : walk.builder.inodes[j]? = some b)
    : a.id ≠ b.id := by
  intro same
  have nodup : (walk.builder.inodes.map Inode.id).Nodup := (List.nodup_cons.mp sound.nodup).2
  refine apart ((List.getElem?_inj ?_ nodup).mp ?_)
  · rw [List.length_map]
    exact (List.getElem?_eq_some_iff.mp atI).1
  · rw [List.getElem?_map, List.getElem?_map, atI, atJ, Option.map_some, Option.map_some, same]

/-- What is at a place once one inode has changed. -/
theorem Walk.inodes_modify {slot : Slot} {change : Inode μ → Inode μ} {place : Nat}
    {after : Inode μ} (found : (walk.modify slot change).builder.inodes[place]? = some after)
    : ∃ inode, walk.builder.inodes[place]? = some inode
      ∧ after = if slot = .inode place then change inode else inode := by
  cases slot with
  | root => exact ⟨after, found, rfl⟩
  | inode other =>
      have found : (walk.builder.inodes.modify other change)[place]? = some after := found
      by_cases here : other = place
      · subst here
        rw [List.getElem?_modify_eq] at found
        obtain ⟨inode, there, rfl⟩ := Option.map_eq_some_iff.mp found
        exact ⟨inode, there, (if_pos rfl).symm⟩
      · rw [List.getElem?_modify_ne _ _ here] at found
        exact ⟨after, found, (if_neg fun same => here (Slot.inode.inj same)).symm⟩

/-- A directory given the entry of the one inode not yet named is the walk kept. -/
theorem Sound.record (sound : Sound first walk)
    (aligned : walk.firstEntry.length = walk.builder.inodes.length) {place index : Nat}
    (others : NamedBut walk (· = place)) {inode : Inode μ}
    (found : walk.builder.inodes[place]? = some inode)
    (reached : walk.firstEntry[place]? = some index) {slot : Slot} {child : Child}
    (of : child.inode = inode.id) (recorded : walk.record slot child = some walk')
    (named : ∀ directory, walk.nodes[slot.index]? = some directory →
      directory.kind.isDirectory = true →
      Named (walk.nodes.modify slot.index (.mapChildren (· ++ [child]))) 2 inode index)
    : Kept first walk' := by
  obtain ⟨directory, there, recorded⟩ := Option.bind_eq_some_iff.mp recorded
  rw [Walk.inode_eq] at there
  split at recorded
  next entered =>
    obtain rfl := Option.some.inj recorded
    have sound' : Sound first (walk.modify slot (.mapChildren (· ++ [child]))) := by
      refine sound.mapChildren fun entry member => ?_
      rcases List.mem_cons.mp ((entriesOf_push there entered child).mem_iff.mp member) with
        rfl | member
      · dsimp only
        rw [of]
        exact (sound.drawn.mem_iff.mp (List.mem_append_left _ (List.mem_flatMap.mpr
          ⟨inode, List.mem_of_getElem? found, List.mem_cons_self⟩))).2
      · exact sound.known entry member
    refine ⟨sound', ?_, fun other after _ at_ => ?_⟩
    · cases slot with
      | root => exact aligned
      | inode other => exact aligned.trans (List.length_modify _ _ _).symm
    · obtain ⟨before, stood, rfl⟩ := Walk.inodes_modify at_
      have firstEntry : (walk.modify slot (.mapChildren (· ++ [child]))).firstEntry
          = walk.firstEntry := by cases slot <;> rfl
      rw [firstEntry, Walk.nodes_modify]
      obtain ⟨index, reached, named⟩ : ∃ index, walk.firstEntry[other]? = some index
          ∧ Named (walk.nodes.modify slot.index (.mapChildren (· ++ [child]))) 2 before index := by
        by_cases here : other = place
        · subst here
          obtain rfl := Option.some.inj (found.symm.trans stood)
          exact ⟨index, reached, named directory there entered⟩
        · obtain ⟨index, reached, named⟩ := others other before here stood
          exact ⟨index, reached, named.push there entered
            (of ▸ sound.id_ne (Ne.symm here) found stood)⟩
      refine ⟨index, reached, ?_⟩
      split
      · exact named.mapChildren _
      · exact named
  next => cases recorded

/-- What the walk keeps is of what it has numbered, not of where it is. -/
theorem Kept.of_eq (kept : Kept first walk) (builder : walk'.builder = walk.builder)
    (root : walk'.root = walk.root) (firstEntry : walk'.firstEntry = walk.firstEntry)
    : Kept first walk' := by
  have nodes : walk'.nodes = walk.nodes := by rw [Walk.nodes, builder, root, Walk.nodes]
  obtain ⟨⟨rootIs, drawn, sorted, known, data, files, attributes⟩, aligned, named⟩ := kept
  refine ⟨⟨root ▸ rootIs, builder ▸ drawn, nodes ▸ sorted, ?_, builder ▸ data, builder ▸ files,
    builder ▸ attributes⟩, ?_, ?_⟩
  · rw [nodes, builder]
    exact known
  · rw [firstEntry, builder]
    exact aligned
  · rw [NamedBut, firstEntry, builder, nodes]
    exact named

theorem setFirst_length (firstEntry : List Nat) (entry : Nat)
    : setFirst firstEntry firstEntry.length entry = firstEntry ++ [entry] := by
  rw [setFirst, Nat.add_sub_cancel_left, List.replicate_one, List.set_append_right _ _ (le_refl _),
    Nat.sub_self, List.set_cons_zero]

/-- What numbering an inode by its first name leaves of the walk. -/
theorem Walk.nameFirst_eq_some {len : γ → Nat} {byKey : Bytes → Option (Entry γ μ)}
    {object : Bytes} {parent : Nat} {planned : Names.Planned unicode fold} {child : Child}
    (named : walk.nameFirst len byKey object parent planned = some (walk', child))
    : ∃ inode, Created walk.builder walk'.builder inode parent planned.name
      ∧ walk'.root = walk.root ∧ walk'.firstEntry = walk.firstEntry
      ∧ child = ⟨planned.name, planned.hash, inode.id, inode.kind.entryType, none⟩ := by
  obtain ⟨entry, -, named⟩ := Option.bind_eq_some_iff.mp named
  obtain ⟨⟨builder, inode⟩, created, named⟩ := Option.bind_eq_some_iff.mp named
  obtain ⟨rfl, rfl⟩ := Prod.mk.inj (Option.some.inj named)
  refine ⟨inode, ?_, ?_, ?_, rfl⟩ <;> split
  · exact Builder.create_eq_some created
  · exact Builder.create_eq_some created
  all_goals rfl

/-- The first name of an object is kept. -/
theorem Kept.nameFirst (kept : Kept first walk) (above : rootNumber < first) {slot : Slot}
    {directory : Inode μ} (there : walk.inode slot = some directory) {len : γ → Nat}
    {byKey : Bytes → Option (Entry γ μ)} {object : Bytes} {planned : Names.Planned unicode fold}
    {child : Child} {named : Walk unicode fold γ μ}
    (took : walk.nameFirst len byKey object directory.id planned = some (named, child))
    (recorded : named.recordFirst slot child = some walk')
    : Kept first walk' := by
  obtain ⟨inode, created, root, firstEntry, rfl⟩ := Walk.nameFirst_eq_some took
  have nodes : named.nodes = walk.nodes ++ [inode] := by
    rw [Walk.nodes, root, created.inodes, Walk.nodes, List.cons_append]
  have places : named.builder.inodes.length - 1 = walk.firstEntry.length := by
    rw [created.inodes, List.length_append, List.length_singleton, Nat.add_sub_cancel,
      kept.aligned]
  rw [Walk.inode_eq] at there
  have there' : named.nodes[slot.index]? = some directory := by
    rw [nodes]
    exact (List.getElem?_append_left (List.getElem?_eq_some_iff.mp there).1).trans there
  rw [Walk.recordFirst, Walk.inode_eq, there', Option.bind_eq_bind, Option.bind_some, firstEntry,
    places, setFirst_length] at recorded
  have sound := kept.sound.create above created root
  have sound' : Sound first { named with
      firstEntry := walk.firstEntry ++ [directory.children.length] } :=
    ⟨sound.root, sound.drawn, sound.sorted, sound.known, sound.data, sound.files,
      sound.attributes⟩
  have last : named.builder.inodes[walk.firstEntry.length]? = some inode := by
    rw [created.inodes, kept.aligned, List.getElem?_concat_length]
  -- nothing the walk has met names the number just taken
  have unnamed : namesOf named.nodes inode.id = [] := by
    rw [namesOf, nodes, entriesOf_append created.children, List.filter_eq_nil_iff]
    intro entry member
    rw [decide_eq_true_eq, created.id]
    exact Nat.ne_of_lt (kept.sound.known entry member)
  refine sound'.record ?_ (fun place other apart at_ => ?_) last
    (List.getElem?_concat_length) rfl recorded fun directory' found entered => ?_
  · rw [List.length_append, created.inodes, List.length_append, kept.aligned]
    rfl
  · have before : walk.builder.inodes[place]? = some other := by
      have at_ : named.builder.inodes[place]? = some other := at_
      rw [created.inodes] at at_
      have within := (List.getElem?_eq_some_iff.mp at_).1
      rw [List.length_append, List.length_singleton, ← kept.aligned] at within
      have less : place < walk.builder.inodes.length :=
        kept.aligned ▸ Nat.lt_of_le_of_ne (Nat.le_of_lt_succ within) apart
      exact (List.getElem?_append_left less).symm.trans at_
    obtain ⟨index, reached, isNamed⟩ := kept.named place other not_false before
    refine ⟨index, (List.getElem?_append_left (List.getElem?_eq_some_iff.mp reached).1).trans
      reached, ?_⟩
    refine isNamed.keep ?_ fun _ _ held => ?_
    · rw [namesOf, namesOf]
      change (List.filter _ (entriesOf named.nodes)).Perm _
      rw [nodes, entriesOf_append created.children]
    · exact (nodes ▸ held.append [inode] : Holds named.nodes _ _ _)
  · obtain rfl := Option.some.inj (there'.symm.trans found)
    let child : Child := ⟨planned.name, planned.hash, inode.id, inode.kind.entryType, none⟩
    have names := perm_namesOf_of_cons (entriesOf_push there' entered child) inode.id
    rw [if_pos rfl, unnamed] at names
    refine ⟨?_, created.stream, ⟨child, ?_, rfl, created.name.symm, fun _ => ⟨rfl, ?_⟩⟩, ?_,
      .inl created.siblings⟩
    · rw [created.parent, created.id]
      exact kept.sound.id_lt above (List.mem_of_getElem? there)
    · rw [created.parent]
      exact holds_push there' entered child
    · rw [created.parent]
      exact names
    · rw [created.links]
      exact names.length_eq.symm

end

end Ferrosys.Apfs.Model
