import Ferrosys.Apfs.Model.Naming

/-! Another name of an inode the walk has met: the first time it does, the name it had is given its
sibling where its directory holds it, and then the new name one of its own.
-/

namespace Ferrosys.Apfs.Model

variable {γ μ : Type} {unicode : Names.Unicode} {fold : Bool}

open Counter SortedMaps

section

variable {nodes : List (Inode μ)} {least index place : Nat} {inode : Inode μ}

/-- A change of an inode that keeps its number and its entries keeps what every other is named. -/
theorem Named.touch (named : Named nodes least inode index) {change : Inode μ → Inode μ}
    (id : ∀ inode, (change inode).id = inode.id)
    (kind : ∀ inode, (change inode).kind = inode.kind)
    : Named (nodes.modify place change) least inode index := by
  refine named.keep ((entriesOf_modify_perm id kind).filter _) fun child _ held => ?_
  exact held.modify id fun inode _ _ here => by rwa [Inode.children, kind]

/-- One entry changed and not what it names: the names of an inode are as many, and the same but
for that one.
-/
theorem exists_namesOf_mark {nodes' : List (Inode μ)} {entry entry' : Nat × Child}
    {rest : List (Nat × Child)} (before : (entriesOf nodes).Perm (entry :: rest))
    (after : (entriesOf nodes').Perm (entry' :: rest))
    (same : entry'.2.inode = entry.2.inode) (id : Nat)
    : ∃ others,
      (namesOf nodes id).Perm (if entry.2.inode = id then entry :: others else others)
      ∧ (namesOf nodes' id).Perm (if entry.2.inode = id then entry' :: others else others) := by
  have before := before.filter (·.2.inode = id)
  have after := after.filter (·.2.inode = id)
  rw [List.filter_cons] at before after
  rw [same] at after
  simp only [decide_eq_true_eq] at before after
  exact ⟨_, before, after⟩

/-- A directory's other entries are held where one is changed. -/
theorem Holds.mark {parent at_ : Nat} {child marked : Child} (held : Holds nodes parent at_ child)
    {directory : Inode μ} (found : nodes[place]? = some directory)
    (here : directory.children[index]? = some marked) (other : child ≠ marked)
    (change : Child → Child)
    : Holds (nodes.modify place (.mapChildren fun children => children.modify index change))
      parent at_ child := by
  refine held.modify (fun _ => rfl) fun inode there _ stands => ?_
  obtain rfl := Option.some.inj (found.symm.trans there)
  rw [Inode.children_mapChildren (fun children => children.modify index change)
    (.inr (List.modify_nil _ _)), List.getElem?_modify_ne _ _ ?_]
  · exact stands
  · rintro rfl
    exact other (Option.some.inj (stands.symm.trans here))

/-- The entry changed is where it was. -/
theorem holds_mark {child : Child} {directory : Inode μ} (found : nodes[place]? = some directory)
    (here : directory.children[index]? = some child) (change : Child → Child)
    : Holds (nodes.modify place (.mapChildren fun children => children.modify index change))
      directory.id index (change child) := by
  have there : (nodes.modify place (.mapChildren fun children =>
      children.modify index change))[place]?
      = some (directory.mapChildren fun children => children.modify index change) := by
    rw [List.getElem?_modify_eq, found, Option.map_eq_map, Option.map_some]
  refine ⟨_, List.mem_of_getElem? there, rfl, ?_⟩
  rw [Inode.children_mapChildren (fun children => children.modify index change)
    (.inr (List.modify_nil _ _)), List.getElem?_modify_eq, here, Option.map_eq_map,
    Option.map_some]

/-- A change of an entry that names another inode changes nothing for this. -/
theorem Named.mark {at_ : Nat} (named : Named nodes least inode at_) {child : Child}
    {directory : Inode μ} (found : nodes[place]? = some directory)
    (here : directory.children[index]? = some child) (other : child.inode ≠ inode.id)
    {change : Child → Child} (same : (change child).inode = child.inode)
    : Named (nodes.modify place (.mapChildren fun children => children.modify index change))
      least inode at_ := by
  obtain ⟨rest, before, after⟩ := exists_entriesOf_mark found here change
  obtain ⟨others, names, names'⟩ := exists_namesOf_mark before after same inode.id
  rw [if_neg other] at names names'
  refine named.keep (names'.trans names.symm) fun child' of held => ?_
  exact held.mark found here (fun equal => other (equal ▸ of)) change

end

/-- The inode a search finds is the one of the number it looks for. -/
theorem exists_of_findInode {inodes : List (Inode μ)} {id place : Nat}
    (found : findInode inodes id = some place)
    : ∃ inode, inodes[place]? = some inode ∧ inode.id = id := by
  have holds := (Option.filter_eq_some_iff.mp found).2
  cases there : inodes[place]? with
  | none =>
      rw [there] at holds
      exact absurd holds Bool.false_ne_true
  | some inode =>
      rw [there, Option.any_some, beq_iff_eq] at holds
      exact ⟨inode, rfl, holds⟩

section

variable {first : Nat} {walk walk' : Walk unicode fold γ μ}

/-- The inode at a place once one has changed. -/
theorem Walk.getElem?_modify {slot : Slot} {change : Inode μ → Inode μ} {place : Nat}
    {inode : Inode μ} (found : walk.builder.inodes[place]? = some inode)
    : (walk.modify slot change).builder.inodes[place]?
      = some (if slot = .inode place then change inode else inode) := by
  cases slot with
  | root => exact found
  | inode other =>
      change (walk.builder.inodes.modify other change)[place]? = _
      by_cases here : other = place
      · subst here
        rw [List.getElem?_modify_eq, found, Option.map_eq_map, Option.map_some, if_pos rfl]
      · rw [List.getElem?_modify_ne _ _ here, found,
          if_neg fun same => here (Slot.inode.inj same)]

theorem exists_of_childAt (root : walk.root.id = rootNumber) {parent index : Nat} {slot : Slot}
    {child : Child} (found : walk.childAt parent index = some (slot, child))
    : ∃ directory, walk.nodes[slot.index]? = some directory ∧ directory.id = parent
      ∧ directory.children[index]? = some child := by
  obtain ⟨slot', placed, found⟩ := Option.bind_eq_some_iff.mp found
  obtain ⟨directory, there, found⟩ := Option.bind_eq_some_iff.mp found
  obtain ⟨child', held, found⟩ := Option.bind_eq_some_iff.mp found
  obtain ⟨rfl, rfl⟩ := Prod.mk.inj (Option.some.inj found)
  refine ⟨directory, walk.inode_eq _ ▸ there, ?_, held⟩
  rw [Walk.slotOf] at placed
  split at placed
  next isRoot =>
    obtain rfl := Option.some.inj placed
    obtain rfl := Option.some.inj there
    exact root.trans isRoot.symm
  next =>
    obtain ⟨place, searched, rfl⟩ := Option.map_eq_some_iff.mp placed
    obtain ⟨inode, stands, id⟩ := exists_of_findInode searched
    obtain rfl := Option.some.inj (stands.symm.trans there)
    exact id

@[simp] theorem Walk.firstEntry_modify (slot : Slot) (change : Inode μ → Inode μ)
    : (walk.modify slot change).firstEntry = walk.firstEntry := by
  cases slot <;> rfl

@[simp] theorem Walk.length_modify (slot : Slot) (change : Inode μ → Inode μ)
    : (walk.modify slot change).builder.inodes.length = walk.builder.inodes.length := by
  cases slot with
  | root => rfl
  | inode place => exact List.length_modify _ _ _

/-- The inodes named stay so where the one not named is changed. -/
theorem NamedBut.touch {place : Nat} (others : NamedBut walk (· = place))
    {change : Inode μ → Inode μ} (id : ∀ inode, (change inode).id = inode.id)
    (kind : ∀ inode, (change inode).kind = inode.kind)
    : NamedBut (walk.take.2.modify (.inode place) change) (· = place) := by
  intro other after apart at_
  obtain ⟨inode, stood, rfl⟩ := Walk.inodes_modify at_
  obtain ⟨index, reached, named⟩ := others other inode apart stood
  refine ⟨index, reached, ?_⟩
  rw [if_neg fun same => apart (Slot.inode.inj same).symm, Walk.nodes_modify]
  exact named.touch id kind

/-- The inodes named stay so where an entry that names the one not named is changed. -/
theorem NamedBut.mark {place index : Nat} (others : NamedBut walk (· = place)) {slot : Slot}
    {directory : Inode μ} {child : Child} (there : walk.nodes[slot.index]? = some directory)
    (here : directory.children[index]? = some child)
    (apart : ∀ other inode, other ≠ place → walk.builder.inodes[other]? = some inode →
      child.inode ≠ inode.id)
    {change : Child → Child} (same : (change child).inode = child.inode)
    : NamedBut (walk.modify slot (.mapChildren fun children => children.modify index change))
      (· = place) := by
  intro other after ne at_
  obtain ⟨inode, stood, rfl⟩ := Walk.inodes_modify at_
  obtain ⟨first, reached, named⟩ := others other inode ne stood
  refine ⟨first, (Walk.firstEntry_modify _ _).symm ▸ reached, ?_⟩
  rw [Walk.nodes_modify]
  have marked := named.mark there here (apart other inode ne stood) same
  split
  · exact marked.mapChildren _
  · exact marked

/-- The only name of an inode marked with the only sibling it has. -/
theorem named_of_mark {nodes : List (Inode μ)} {inode directory : Inode μ}
    {place index id : Nat} {child : Child} (there : nodes[place]? = some directory)
    (here : directory.children[index]? = some child) (of : child.inode = inode.id)
    (parent : directory.id = inode.parent) (name : child.name = inode.name)
    (only : (namesOf nodes inode.id).Perm [(directory.id, child)])
    (below : inode.parent < inode.id) (later : inode.parent < id) (links : inode.links = 1)
    (stream : inode.kind.stream = none ∨ inode.kind.stream = some inode.id)
    (siblings : inode.siblings = [⟨id, inode.parent, inode.name⟩])
    : Named (nodes.modify place (.mapChildren fun children =>
        children.modify index ({ · with sibling := some id }))) 1 inode index := by
  let mark : Child → Child := ({ · with sibling := some id })
  obtain ⟨rest, before, after⟩ := exists_entriesOf_mark there here mark
  obtain ⟨others, names, names'⟩ := exists_namesOf_mark before after rfl inode.id
  rw [if_pos of] at names names'
  obtain rfl : others = [] :=
    List.length_eq_zero_iff.mp (Nat.succ.inj (names.symm.trans only).length_eq)
  refine ⟨below, stream, ⟨mark child, parent ▸ holds_mark there here mark, of, name, ?_⟩,
    links.trans names'.length_eq.symm, .inr ⟨?_, ?_, fun sibling member => ?_⟩⟩
  · exact fun none_ => absurd (siblings.symm.trans none_) (List.cons_ne_nil _ _)
  · rw [siblings]
    exact le_refl _
  · refine .trans ?_ (names'.map _).symm
    rw [siblings, List.map_singleton, List.map_singleton, parent, ← name]
  · rw [siblings] at member
    rw [List.mem_singleton.mp member]
    exact later

/-- An inode about to be given another name has a sibling for each it has. -/
structure Linking (first : Nat) (walk walk' : Walk unicode fold γ μ) (place : Nat)
    (inode : Inode μ) : Prop where
  sound : Sound first walk'
  ids : walk'.nodes.map Inode.id = walk.nodes.map Inode.id
  aligned : walk'.firstEntry.length = walk'.builder.inodes.length
  others : NamedBut walk' (· = place)
  named : ∃ after index, walk'.builder.inodes[place]? = some after ∧ after.id = inode.id
    ∧ walk'.firstEntry[place]? = some index ∧ after.siblings ≠ []
    ∧ Named walk'.nodes 1 after index

/-- One that has several names has them already. -/
theorem Kept.linking (kept : Kept first walk) {place : Nat} {inode : Inode μ}
    (found : walk.builder.inodes[place]? = some inode) (several : inode.siblings ≠ [])
    : Linking first walk walk place inode := by
  obtain ⟨index, reached, named⟩ := kept.named place inode not_false found
  refine ⟨kept.sound, rfl, kept.aligned, fun other inode _ => kept.named other inode not_false,
    inode, index, found, rfl, reached, several, ⟨named.below, named.stream, named.first,
      named.links, named.siblings.imp_right fun some_ => ⟨?_, some_.2⟩⟩⟩
  exact Nat.le_of_succ_le some_.1

/-- The first name of an inode about to have a second is given its sibling where it is held. -/
theorem Kept.linkFirst (kept : Kept first walk) {place : Nat} {inode : Inode μ}
    (found : walk.builder.inodes[place]? = some inode) (alone : inode.siblings = [])
    (above : rootNumber < first) (linked : walk.linkFirst place inode = some walk')
    : Linking first walk walk' place inode := by
  obtain ⟨index, reached, linked⟩ := Option.bind_eq_some_iff.mp linked
  obtain ⟨⟨slot, child⟩, at_, linked⟩ := Option.bind_eq_some_iff.mp linked
  dsimp only at linked at_
  split at linked
  next name =>
    obtain rfl := Option.some.inj linked
    let sibling : Sibling := ⟨walk.builder.next, inode.parent, inode.name⟩
    let middle := walk.take.2.modify (.inode place) (.addSibling sibling)
    let mark : Child → Child := ({ · with sibling := some walk.builder.next })
    change Linking first walk (middle.modify slot
      (.mapChildren fun children => children.modify index mark)) place inode
    have at_ : middle.childAt inode.parent index = some (slot, child) := at_
    have sound : Sound first middle :=
      kept.sound.link found (fun _ => rfl) (fun _ => rfl) (List.map_append)
    obtain ⟨directory, there, parent, here⟩ := exists_of_childAt sound.root at_
    obtain ⟨index', reached', named⟩ := kept.named place inode not_false found
    obtain rfl := Option.some.inj (reached.symm.trans reached')
    obtain ⟨child', held, of, -, single⟩ := named.first
    obtain ⟨-, only⟩ := single alone
    have nodes : middle.nodes = walk.nodes.modify (place + 1) (.addSibling sibling) :=
      walk.take.2.nodes_modify (.inode place) _
    -- numbers are apart, so the directory found is the one that holds the first name
    obtain rfl : child' = child := by
      have held' : Holds middle.nodes inode.parent index child' :=
        nodes ▸ held.modify (fun _ => rfl) fun _ _ _ stands => stands
      obtain ⟨directory', member, parent', here'⟩ := held'
      obtain rfl := sound.eq_of_id member (List.mem_of_getElem? there) (parent'.trans parent.symm)
      exact Option.some.inj (here'.symm.trans here)
    have names : (namesOf middle.nodes inode.id).Perm [(directory.id, child')] := by
      have touched : (entriesOf (walk.nodes.modify (place + 1) (.addSibling sibling))).Perm
          (entriesOf walk.nodes) := entriesOf_modify_perm (fun _ => rfl) fun _ => rfl
      rw [parent, nodes]
      exact (touched.filter _).trans only
    have inside : inode ∈ walk.nodes := List.mem_cons_of_mem _ (List.mem_of_getElem? found)
    have isMarked : Named (middle.nodes.modify slot.index
        (.mapChildren fun children => children.modify index mark)) 1
        (inode.addSibling sibling) index := by
      refine named_of_mark there here of parent name names named.below ?_ ?_ named.stream ?_
      · exact named.below.trans (kept.sound.id_lt above inside)
      · exact named.links.trans only.length_eq
      · rw [Inode.addSibling, alone, List.nil_append]
    obtain ⟨rest, before, after⟩ := exists_entriesOf_mark there here mark
    refine ⟨sound.mapChildren fun entry member => ?_, ?_, ?_, ?_,
      ⟨_, index, Walk.getElem?_modify (Walk.getElem?_modify found), ?_, ?_, ?_, ?_⟩⟩
    · rcases List.mem_cons.mp (after.mem_iff.mp member) with rfl | member
      · exact Nat.lt_succ_of_lt (of ▸ kept.sound.id_lt above inside)
      · exact sound.known entry (before.mem_iff.mpr (List.mem_cons_of_mem _ member))
    · rw [Walk.nodes_modify, map_modify, nodes, map_modify] <;> exact fun _ => rfl
    · rw [Walk.firstEntry_modify, Walk.length_modify]
      have length : middle.builder.inodes.length = walk.builder.inodes.length :=
        Walk.length_modify (.inode place) (.addSibling sibling)
      exact kept.aligned.trans length.symm
    · have others : NamedBut middle (· = place) :=
        NamedBut.touch (fun other inode _ => kept.named other inode not_false) (fun _ => rfl)
          fun _ => rfl
      refine others.mark there here (fun other z ne at_ => ?_) rfl
      obtain ⟨x, stood, rfl⟩ := Walk.inodes_modify at_
      rw [if_neg fun same => ne (Slot.inode.inj same).symm, of]
      exact kept.sound.id_ne (Ne.symm ne) found stood
    · rw [if_pos rfl]
      split <;> rfl
    · rw [Walk.firstEntry_modify]
      exact reached
    · rw [if_pos rfl]
      split <;> exact List.append_ne_nil_of_right_ne_nil _ (List.cons_ne_nil _ _)
    · rw [Walk.nodes_modify, if_pos rfl]
      split
      · exact isMarked.mapChildren _
      · exact isMarked
  next => cases linked

/-- An inode has a sibling for each name it has before it is given another. -/
theorem Kept.linkAlone (kept : Kept first walk) (above : rootNumber < first) {place : Nat}
    {inode : Inode μ} (found : walk.builder.inodes[place]? = some inode)
    (linked : walk.linkAlone place inode = some walk')
    : Linking first walk walk' place inode := by
  rw [Walk.linkAlone] at linked
  split at linked
  next alone => exact kept.linkFirst found alone above linked
  next several =>
    obtain rfl := Option.some.inj linked
    exact kept.linking found several

/-- Another name of an inode, with its sibling, in the directory it is in. -/
theorem Named.more {nodes : List (Inode μ)} {inode directory : Inode μ} {place index : Nat}
    (named : Named nodes 1 inode index) (several : inode.siblings ≠ [])
    (found : nodes[place]? = some directory) (entered : directory.kind.isDirectory = true)
    {child : Child} {sibling : Sibling} (of : child.inode = inode.id)
    (same : (directory.id, child.name, child.sibling)
      = (sibling.parent, sibling.name, some sibling.id))
    (below : sibling.parent < sibling.id)
    : Named (nodes.modify place (.mapChildren (· ++ [child]))) 2
      { inode.addSibling sibling with links := inode.links + 1 } index := by
  obtain ⟨first, held, ofFirst, name, -⟩ := named.first
  have more := entriesOf_push found entered child
  have names := perm_namesOf_of_cons more inode.id
  rw [if_pos of] at names
  obtain ⟨some_, linked⟩ := named.siblings.resolve_left several
  refine ⟨named.below, named.stream, ⟨first, held.push found entered, ofFirst, name, ?_⟩, ?_,
    .inr ⟨?_, linked.push more of same below rfl rfl⟩⟩
  · exact fun none_ => absurd none_ (List.append_ne_nil_of_right_ne_nil _ (List.cons_ne_nil _ _))
  · exact (congrArg (· + 1) named.links).trans names.length_eq.symm
  · rw [Inode.addSibling, List.length_append]
    exact Nat.succ_le_succ some_

/-- Another name of an inode is kept. -/
theorem Kept.nameAgain (kept : Kept first walk) (above : rootNumber < first) {slot : Slot}
    {directory : Inode μ} (there : walk.inode slot = some directory) {place : Nat}
    {planned : Names.Planned unicode fold} {child : Child} {named : Walk unicode fold γ μ}
    (took : walk.nameAgain place directory.id planned = some (named, child))
    (recorded : named.record slot child = some walk')
    : Kept first walk' := by
  obtain ⟨inode, found, took⟩ := Option.bind_eq_some_iff.mp took
  obtain ⟨linked, linking, took⟩ := Option.bind_eq_some_iff.mp took
  obtain ⟨rfl, rfl⟩ := Prod.mk.inj (Option.some.inj took)
  have linking := kept.linkAlone above found linking
  obtain ⟨after, index, stood, same, reached, several, isNamed⟩ := linking.named
  rw [Walk.inode_eq] at there
  let sibling : Sibling := ⟨linked.builder.next, directory.id, planned.name⟩
  let change (inode : Inode μ) : Inode μ :=
    { inode.addSibling sibling with links := inode.links + 1 }
  have sound : Sound first (linked.take.2.modify (.inode place) change) :=
    linking.sound.link stood (fun _ => rfl) (fun _ => rfl) List.map_append
  have nodes : (linked.take.2.modify (.inode place) change).nodes
      = linked.nodes.modify (place + 1) change := linked.take.2.nodes_modify (.inode place) change
  have ids : (linked.nodes.modify (place + 1) change).map Inode.id = walk.nodes.map Inode.id := by
    rw [map_modify]
    · exact linking.ids
    · exact fun _ => rfl
  have others : NamedBut (linked.take.2.modify (.inode place) change) (· = place) :=
    linking.others.touch (fun _ => rfl) fun _ => rfl
  have now : (linked.take.2.modify (.inode place) change).builder.inodes[place]?
      = some (change after) := by
    have stood : linked.take.2.builder.inodes[place]? = some after := stood
    rw [Walk.getElem?_modify stood, if_pos rfl]
  have touched : Named (linked.nodes.modify (place + 1) change) 1 after index :=
    isNamed.touch (fun _ => rfl) fun _ => rfl
  have aligned : (linked.take.2.modify (.inode place) change).firstEntry.length
      = (linked.take.2.modify (.inode place) change).builder.inodes.length := by
    rw [Walk.firstEntry_modify, Walk.length_modify]
    exact linking.aligned
  have now' : (linked.take.2.modify (.inode place) change).firstEntry[place]? = some index := by
    rw [Walk.firstEntry_modify]
    exact reached
  refine sound.record aligned others now now' same.symm recorded
    fun directory' there' entered => ?_
  · rw [nodes] at there' ⊢
    have parent : directory'.id = directory.id := by
      have at_ := congrArg (·[slot.index]?) ids
      simp only [List.getElem?_map, there, there', Option.map_some, Option.some.injEq] at at_
      exact at_
    have inside : directory.id ∈ linked.nodes.map Inode.id :=
      linking.ids ▸ List.mem_map_of_mem (List.mem_of_getElem? there)
    obtain ⟨numbered, member, id⟩ := List.mem_map.mp inside
    have named : (directory'.id, planned.name, some linked.builder.next)
        = (sibling.parent, sibling.name, some sibling.id) := by rw [parent]
    exact touched.more several there' entered same.symm named
      (Nat.lt_of_le_of_lt (Nat.le_of_eq id.symm) (linking.sound.id_lt above member))

end

end Ferrosys.Apfs.Model
