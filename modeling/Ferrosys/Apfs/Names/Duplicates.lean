import Ferrosys.Apfs.Names
import Ferrosys.Library.Checked
import Ferrosys.Library.Groups
import Ferrosys.Library.SortedMap
import Ferrosys.Source
import Mathlib.Data.List.Sort

/-! What a directory is to hold, before anything is numbered: its entries in the order of their
records, refused where two of them have names the volume compares as one.
-/

namespace Ferrosys.Apfs.Names

open Checked SortedMaps

/-- What a path holds, decided before anything is numbered. -/
inductive Class where
  | directory
  | object
  | link (target : Bytes)
deriving DecidableEq

inductive ModelError where
  | parentMissing (path : Bytes)
  | parentNotDir (path : Bytes)
  | namesCompareEqual (first second : Bytes)
deriving DecidableEq

/-- The directory a canonical key is in, and the name it has there. -/
def splitKey (key : Bytes) : Bytes × Bytes :=
  let name := (key.reverse.takeWhile (· != slash)).reverse
  (key.take (key.length - name.length - 1), name)

/-- An entry of a source, its name held to UTF-8. -/
structure Entry where
  path : Bytes
  utf8 : (Utf.decode (splitKey (canonicalKey path)).2).isSome = true

namespace Entry

variable (self : Entry)

def key : Bytes := canonicalKey self.path

def parent : Bytes := (splitKey self.key).1

def name : Bytes := (splitKey self.key).2

end Entry

section

variable (unicode : Unicode) (fold : Bool)

/-- One entry a directory will hold: its canonical key, its name and the hash its record is keyed
by, which is that of its name.
-/
structure Planned where
  key : Bytes
  name : Bytes
  hash : Nat
  filed : ∃ form, Names.key unicode name fold = some form ∧ hash = Names.hash form

/-- An entry has the form its name is compared in. -/
theorem exists_key (entry : Entry) : ∃ form, Names.key unicode entry.name fold = some form := by
  obtain ⟨text, decoded⟩ := Option.isSome_iff_exists.mp entry.utf8
  exact ⟨_, by rw [Names.key, Entry.name, Entry.key, decoded, Option.map_some]⟩

def plan (entry : Entry) : Planned unicode fold where
  key := entry.key
  name := entry.name
  hash := hash ((Names.key unicode entry.name fold).getD [])
  filed := by
    obtain ⟨form, found⟩ := exists_key unicode fold entry
    exact ⟨form, found, by rw [found, Option.getD_some]⟩

/-- Every directory's entries, in the order they are met. -/
abbrev Children := SortedMap Key (List (Planned unicode fold))

variable {unicode fold} in
/-- What the directory is to hold so far. -/
def Children.of (children : Children unicode fold) (directory : Bytes)
    : List (Planned unicode fold) := (children.get? ⟨directory⟩).getD []

/-- What an entry is in, the root aside, is an entry and a directory. -/
def checkParent (classes : Bytes → Option Class) (entry : Entry) : Except ModelError Unit :=
  if entry.parent = [] then .ok ()
  else
    match classes entry.parent with
    | none => .error (.parentMissing entry.path)
    | some .directory => .ok ()
    | some _ => .error (.parentNotDir entry.path)

/-- One more of a source's entries is put in the directory it is in. -/
def addChild (classes : Bytes → Option Class) (children : Children unicode fold) (entry : Entry)
    : Except ModelError (Children unicode fold) :=
  if entry.key = [] then .ok children
  else do
    checkParent classes entry
    .ok (children.insert ⟨entry.parent⟩
      (children.of entry.parent ++ [plan unicode fold entry]))

def childrenOf (classes : Bytes → Option Class) (entries : List Entry)
    : Except ModelError (Children unicode fold) :=
  entries.foldlM (addChild unicode fold classes) .empty

end

variable {unicode : Unicode} {fold : Bool}

namespace Planned

/-- Record order: by the hash, and by the name where the hashes are equal. -/
def Before (a b : Planned unicode fold) : Prop :=
  a.hash < b.hash ∨ a.hash = b.hash ∧ Key.mk a.name ≤ Key.mk b.name

instance : DecidableRel (@Before unicode fold) :=
  fun _ _ => inferInstanceAs (Decidable (_ ∨ _ ∧ _))

/-- The form the name is compared in. -/
def form (self : Planned unicode fold) : Option (List Nat) := Names.key unicode self.name fold

end Planned

/-- The first two whose names are compared as one. -/
def firstEqual : List (Planned unicode fold) → Option (Planned unicode fold × Planned unicode fold)
  | [] => none
  | a :: rest =>
      match rest.find? fun b => a.form == b.form with
      | some b => some (a, b)
      | none => firstEqual rest

/-- The first two of a directory's entries whose names are compared as one, among those of one hash.
-/
def duplicate (list : List (Planned unicode fold))
    : Option (Planned unicode fold × Planned unicode fold) :=
  (Groups.groups Planned.hash (list.insertionSort Planned.Before)).findSome? firstEqual

/-- The path of the entry a canonical key is the key of. -/
def pathOf (entries : List Entry) (key : Bytes) : Bytes :=
  (((entries.filter (·.key = key)).getLast?).map Entry.path).getD []

def checkDirectory (entries : List Entry) (list : List (Planned unicode fold))
    : Except ModelError Unit :=
  match duplicate list with
  | some (a, b) => .error (.namesCompareEqual (pathOf entries a.key) (pathOf entries b.key))
  | none => .ok ()

/-- Every directory is held to names it compares apart. -/
def checkNames (entries : List Entry) (children : Children unicode fold) : Except ModelError Unit :=
  children.entries.forM fun directory => checkDirectory entries directory.2

/-- Names of one form are filed under one hash. -/
theorem Planned.hash_eq {a b : Planned unicode fold} (same : a.form = b.form)
    : a.hash = b.hash := by
  obtain ⟨formA, foundA, hashA⟩ := a.filed
  obtain ⟨formB, foundB, hashB⟩ := b.filed
  rw [Planned.form, Planned.form, foundA, foundB] at same
  rw [hashA, hashB, Option.some.inj same]

instance : Std.Total (@Planned.Before unicode fold) where
  total a b := by
    rcases Nat.lt_trichotomy a.hash b.hash with less | same | more
    · exact .inl (.inl less)
    · exact (le_total _ _).imp (fun upto => .inr ⟨same, upto⟩) fun upto => .inr ⟨same.symm, upto⟩
    · exact .inr (.inl more)

instance : IsTrans (Planned unicode fold) Planned.Before where
  trans a b c := by
    rintro (less | ⟨same, upto⟩) (less' | ⟨same', upto'⟩)
    · exact .inl (less.trans less')
    · exact .inl (same' ▸ less)
    · exact .inl (same ▸ less')
    · exact .inr ⟨same.trans same', upto.trans upto'⟩

/-- No two of a list are compared as one where none is found, by induction on it. -/
theorem firstEqual_eq_none {list : List (Planned unicode fold)}
    : firstEqual list = none ↔ list.Pairwise fun a b => a.form ≠ b.form := by
  induction list with
  | nil => exact iff_of_true rfl .nil
  | cons a rest ih =>
      rw [List.pairwise_cons, ← ih, firstEqual]
      cases found : rest.find? fun b => a.form == b.form with
      | some b =>
          have same : a.form = b.form := by simpa using List.find?_some found
          exact iff_of_false (Option.some_ne_none _) fun none_ =>
            none_.1 b (List.mem_of_find?_eq_some found) same
      | none =>
          have differ := List.find?_eq_none.mp found
          exact (and_iff_right fun b member => by simpa using differ b member).symm

/-- Comparing the names of one hash finds two compared as one exactly where there are any. -/
theorem duplicate_eq_none {list : List (Planned unicode fold)}
    : duplicate list = none ↔ list.Pairwise fun a b => a.form ≠ b.form := by
  have sorted := List.pairwise_insertionSort Planned.Before list
  have upto : (list.insertionSort Planned.Before).Pairwise fun a b => a.hash ≤ b.hash :=
    sorted.imp fun before => before.elim Nat.le_of_lt fun same => Nat.le_of_eq same.1
  calc duplicate list = none
    _ ↔ ∀ part ∈ Groups.groups Planned.hash (list.insertionSort Planned.Before),
          part.Pairwise fun a b => a.form ≠ b.form := by
        rw [duplicate, List.findSome?_eq_none_iff]
        exact forall₂_congr fun part _ => firstEqual_eq_none
    _ ↔ (list.insertionSort Planned.Before).Pairwise
          fun a b => a.hash = b.hash → a.form ≠ b.form := Groups.forall_groups_iff upto
    _ ↔ (list.insertionSort Planned.Before).Pairwise fun a b => a.form ≠ b.form :=
        List.Pairwise.iff (R := fun a b : Planned unicode fold =>
          a.hash = b.hash → a.form ≠ b.form) fun a b =>
          ⟨fun differ same => differ (Planned.hash_eq same) same, fun differ _ => differ⟩
    _ ↔ list.Pairwise fun a b => a.form ≠ b.form :=
        (List.perm_insertionSort Planned.Before list).pairwise_iff fun differ => Ne.symm differ

theorem checkNames_eq_ok {entries : List Entry} {children : Children unicode fold}
    : checkNames entries children = .ok () ↔ ∀ directory ∈ children.entries,
        directory.2.Pairwise fun a b => a.form ≠ b.form := by
  rw [checkNames, forM_eq_ok]
  refine forall₂_congr fun directory _ => ?_
  rw [← duplicate_eq_none, checkDirectory]
  cases duplicate directory.2 with
  | none => exact iff_of_true rfl rfl
  | some pair => exact iff_of_false (fun ok => by cases ok) (Option.some_ne_none _)

/-- What one more entry makes of the children. -/
theorem addChild_eq_ok {classes : Bytes → Option Class} {children children' : Children unicode fold}
    {entry : Entry} (added : addChild unicode fold classes children entry = .ok children')
    : (entry.key = [] ∧ children' = children) ∨ (entry.key ≠ [] ∧ children'
      = children.insert ⟨entry.parent⟩
        (children.of entry.parent ++ [plan unicode fold entry])) := by
  rw [addChild] at added
  split at added
  next root => exact .inl ⟨root, (Except.ok.inj added).symm⟩
  next named =>
    obtain ⟨-, -, added⟩ := bind_eq_ok.mp added
    exact .inr ⟨named, (Except.ok.inj added).symm⟩

/-- One entry more is in its own directory, behind what is there, and in no other. -/
theorem of_addChild {classes : Bytes → Option Class} {children children' : Children unicode fold}
    {entry : Entry} (added : addChild unicode fold classes children entry = .ok children')
    (directory : Bytes)
    : children'.of directory = children.of directory
      ++ (if entry.key ≠ [] ∧ entry.parent = directory then [plan unicode fold entry] else []) := by
  rcases addChild_eq_ok added with ⟨root, rfl⟩ | ⟨named, rfl⟩
  · rw [if_neg fun inside => inside.1 root, List.append_nil]
  · rw [Children.of, SortedMap.get?_insert]
    by_cases here : entry.parent = directory
    · rw [if_pos (congrArg Key.mk here.symm), if_pos ⟨named, here⟩, Option.getD_some, here]
    · rw [if_neg fun same => here (Key.mk.inj same).symm, if_neg fun inside => here inside.2,
        List.append_nil, Children.of]

/-- A directory holds what of the source is in it, in the source's order, by induction on it. -/
theorem of_foldlM {classes : Bytes → Option Class} {entries : List Entry}
    {children children' : Children unicode fold}
    (held : entries.foldlM (addChild unicode fold classes) children = .ok children')
    (directory : Bytes)
    : children'.of directory = children.of directory
      ++ (entries.filter fun entry => entry.key ≠ [] ∧ entry.parent = directory).map
        (plan unicode fold) := by
  induction entries generalizing children with
  | nil =>
      obtain rfl := Except.ok.inj held
      exact (List.append_nil _).symm
  | cons entry rest ih =>
      rw [List.foldlM_cons] at held
      obtain ⟨middle, added, held⟩ := bind_eq_ok.mp held
      rw [ih held, of_addChild added, List.append_assoc, List.filter_cons]
      congr 1
      by_cases inside : entry.key ≠ [] ∧ entry.parent = directory
      · rw [if_pos inside, if_pos (decide_eq_true inside)]
        rfl
      · rw [if_neg inside, if_neg (by simpa using inside)]
        rfl

theorem mem_of {children : Children unicode fold} {directory : Bytes}
    {list : List (Planned unicode fold)} (member : (⟨directory⟩, list) ∈ children.entries)
    : children.of directory = list := by
  rw [Children.of, children.mem_entries_iff.mp member, Option.getD_some]

/-- A source is accepted exactly where the names in each directory have forms of their own. -/
theorem checkNames_iff {classes : Bytes → Option Class} {entries : List Entry}
    {children : Children unicode fold}
    (held : childrenOf unicode fold classes entries = .ok children)
    : checkNames entries children = .ok () ↔ ∀ directory,
        ((entries.filter fun entry => entry.key ≠ [] ∧ entry.parent = directory).map
          Entry.name).Pairwise fun a b => key unicode a fold ≠ key unicode b fold := by
  have listed (directory : Bytes) : children.of directory
      = (entries.filter fun entry => entry.key ≠ [] ∧ entry.parent = directory).map
        (plan unicode fold) := of_foldlM held directory
  have apart (directory : Bytes)
      : ((entries.filter fun entry => entry.key ≠ [] ∧ entry.parent = directory).map
          Entry.name).Pairwise (fun a b => key unicode a fold ≠ key unicode b fold)
        ↔ (children.of directory).Pairwise fun a b => a.form ≠ b.form := by
    rw [listed, List.pairwise_map, List.pairwise_map]
    rfl
  rw [checkNames_eq_ok]
  constructor
  · intro each directory
    rw [apart]
    cases found : children.get? ⟨directory⟩ with
    | none => rw [Children.of, found]; exact .nil
    | some list =>
        have member := children.mem_entries_iff.mpr found
        rw [mem_of member]
        exact each _ member
  · rintro each ⟨⟨directory⟩, list⟩ member
    exact mem_of member ▸ (apart directory).mp (each directory)

variable (unicode fold) in
/-- The form a name is compared in is in canonical order, is its own form and is that of every name
made from it by exchanging neighbouring marks of different classes and by decomposing characters;
and a source is accepted exactly where the names in each directory have forms of their own, though
only those filed under one hash are compared.
-/
theorem names_identified
    : (∀ name text, Utf.decode name = some text → ∃ form, key unicode name fold = some form
        ∧ CanonicalOrder.Ordered (classOf unicode) form
        ∧ (∃ spelt : List Char, spelt.map Char.toNat = form
          ∧ key unicode (Utf.encodeUtf8 spelt) fold = some form)
        ∧ ∀ name' text', Utf.decode name' = some text' →
          Relation.ReflTransGen (Step unicode) (text.map Char.toNat) (text'.map Char.toNat) →
          key unicode name' fold = some form)
      ∧ ∀ classes entries (children : Children unicode fold),
        childrenOf unicode fold classes entries = .ok children →
        (checkNames entries children = .ok () ↔ ∀ directory,
          ((entries.filter fun entry => entry.key ≠ [] ∧ entry.parent = directory).map
            Entry.name).Pairwise fun a b => key unicode a fold ≠ key unicode b fold) := by
  refine ⟨fun name text decoded => ?_, fun classes entries children => checkNames_iff⟩
  have valid : ∀ cp ∈ text.map Char.toNat, cp.isValidChar := by
    intro cp member
    obtain ⟨ch, -, rfl⟩ := List.mem_map.mp member
    exact ch.valid
  refine ⟨_, by rw [key, decoded, Option.map_some], form_ordered _ fold,
    exists_key_form valid fold, fun name' text' decoded' steps => ?_⟩
  rw [key, decoded', Option.map_some, form_eq_of_steps steps]

end Ferrosys.Apfs.Names
