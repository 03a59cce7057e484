import Ferrosys.Library.SortedMap
import Ferrosys.Source
import Mathlib.Data.List.Perm.Subperm

/-! Several sources composed into one: a later entry replaces an earlier one at its path, what
cannot be beneath it goes, and a file one of whose names goes is kept under those that stay.
-/

namespace Ferrosys

open SortedMaps

/-- Entries by canonical path. -/
abbrev Layered (γ μ δ : Type) := SortedMap Key (SourceEntry γ μ δ)

namespace Layered

variable {γ μ δ : Type}

/-- What a chain of links finds at a path. -/
def stepAt (entries : Layered γ μ δ) (at_ : Key) : LinkStep Key :=
  match (entries.get? at_).map SourceEntry.kind with
  | none => .missing
  | some .directory => .directory
  | some (.hardLink target) => .link (.of target)
  | some _ => .file at_

/-- A removed name is among those a chain of links looks at. -/
def through (entries : Layered γ μ δ) (doomed : List Key) (target : Bytes) : Bool :=
  (Chase.visited (fun at_ => (entries.stepAt at_).turn) entries.entries.length (.of target)).any
    fun at_ => doomed.contains at_

/-- The file a surviving link reaches through a removed name. -/
def reachedBy (entries : Layered γ μ δ) (doomed : List Key) (item : Key × SourceEntry γ μ δ)
    : Option Key :=
  match item.2.kind with
  | .hardLink target =>
      if doomed.contains item.1 then none
      else
        match followHardLink target entries.entries.length entries.stepAt with
        | .file file => if entries.through doomed target then some file else none
        | _ => none
  | _ => none

/-- Each file a surviving link reaches through a removed name, with those links in path order. -/
def reached (entries : Layered γ μ δ) (doomed : List Key) : SortedMap Key (List Key) :=
  .gather (entries.reachedBy doomed) Prod.fst entries.entries

/-- A link of the surviving names is made to name what they do. -/
def retarget (target : Bytes) (entries : Layered γ μ δ) (link : Key) : Layered γ μ δ :=
  match entries.get? link with
  | some entry =>
      match entry.kind with
      | .hardLink _ => entries.insert link { entry with kind := .hardLink target }
      | _ => entries
  | none => entries

/-- The first surviving link to a file that goes takes the file's entry whole; the path it is at. -/
def takeWhole (entries : Layered γ μ δ) (file holder : Key) : Layered γ μ δ × Bytes :=
  match entries.get? file, entries.get? holder with
  | some held, some entry =>
      (entries.insert holder { held with path := entry.path }, entry.path)
  | _, _ => (entries, [])

/-- A file's surviving links name it where it stays, and the first of them where it goes. -/
def rehome (doomed : List Key) (entries : Layered γ μ δ) (group : Key × List Key)
    : Layered γ μ δ :=
  match group.2 with
  | [] => entries
  | holder :: _ =>
      let (entries, target) :=
        if doomed.contains group.1 then entries.takeWhole group.1 holder
        else (entries, ((entries.get? group.1).map SourceEntry.path).getD [])
      group.2.foldl (retarget target) entries

/-- Take names out, keeping each file they name that has a name outside them. -/
def dropNames (entries : Layered γ μ δ) (doomed : List Key) : Layered γ μ δ :=
  if doomed.isEmpty then entries
  else
    ((entries.reached doomed).entries.foldl (rehome doomed) entries).keep
      fun key => !doomed.contains key

/-- The keys strictly beneath one: the neighbours from `key/` on that begin with it. -/
def beneath (entries : Layered γ μ δ) (key : Key) : List Key :=
  let range := entries.entries.dropWhile fun item => item.1 < key.above
  ((range.takeWhile fun item => item.1.StartsWith key.above).filter
    fun item => item.1 ≠ key).map Prod.fst

/-- One entry over the ones already there. -/
def put (entries : Layered γ μ δ) (entry : SourceEntry γ μ δ) : Layered γ μ δ :=
  let key := Key.of entry.path
  let entries :=
    match entry.kind with
    | .directory => entries
    | _ => entries.dropNames (entries.beneath key)
  entries.insert key entry

/-- Add a layer over the ones already added. -/
def layer (entries : Layered γ μ δ) (source : List (SourceEntry γ μ δ)) : Layered γ μ δ :=
  source.foldl put entries

inductive RemovalError where
  | root
  | notHeld (path : Bytes)
deriving DecidableEq

/-- The names a removal of a path takes out. -/
def doomedBy (entries : Layered γ μ δ) (key : Key) : List Key :=
  entries.beneath key ++ if (entries.get? key).isSome then [key] else []

/-- Remove a path and everything beneath it. -/
def remove (entries : Layered γ μ δ) (path : Bytes) : Except RemovalError (Layered γ μ δ) :=
  let key := Key.of path
  if key.bytes.isEmpty then .error .root
  else
    let doomed := entries.doomedBy key
    if doomed.isEmpty then .error (.notHeld path) else .ok (entries.dropNames doomed)

/-- A step of a composition: an entry of a layer, or a removal. -/
inductive Step (γ μ δ : Type) where
  | put (entry : SourceEntry γ μ δ)
  | remove (path : Bytes)

def take (entries : Layered γ μ δ) : Step γ μ δ → Except RemovalError (Layered γ μ δ)
  | .put entry => .ok (entries.put entry)
  | .remove path => entries.remove path

/-- A composition, from no layers on. -/
def compose (steps : List (Step γ μ δ)) : Except RemovalError (Layered γ μ δ) :=
  steps.foldlM take .empty

end Layered

end Ferrosys

/-! The files the names of a composition reach: a chain of links that ends at a file passes no more
names than there are, so the walk that follows it comes to its end.
-/

namespace Ferrosys.Layered

open SortedMaps

variable {γ μ δ : Type} {entries : Layered γ μ δ} {key file : Key} {path : List Key}

/-- What is not a directory and not a link is what a chain of links ends at. -/
def IsFile (entry : SourceEntry γ μ δ) : Prop :=
  entry.kind ≠ .directory ∧ ∀ target, entry.kind ≠ .hardLink target

/-- The links from a name end at a file, by the names of `path`. -/
abbrev Ends (entries : Layered γ μ δ) (key file : Key) (path : List Key) : Prop :=
  Chase.Chain (fun at_ => (entries.stepAt at_).turn) key (.file file) path

/-- The file a name is a name of, by the walk a writer takes. -/
def reaches (entries : Layered γ μ δ) (key : Key) : Option Key :=
  match entries.get? key with
  | none => none
  | some entry =>
      match entry.kind with
      | .directory => none
      | .hardLink target =>
          match followHardLink target entries.entries.length entries.stepAt with
          | .file file => some file
          | _ => none
      | _ => some key

/-- A step ends at a file where one is at the path. -/
theorem turn_eq_file_iff
    : (entries.stepAt key).turn = .stop (.file file)
      ↔ file = key ∧ ∃ entry, entries.get? key = some entry ∧ IsFile entry := by
  unfold stepAt IsFile
  cases entries.get? key with
  | none => simp [LinkStep.turn]
  | some entry =>
      obtain ⟨path, kind, metadata, xattrs, darwin⟩ := entry
      cases kind <;> simp [LinkStep.turn, eq_comm]

theorem turn_eq_link_iff {next : Key}
    : (entries.stepAt key).turn = .link next
      ↔ ∃ entry target, entries.get? key = some entry ∧ entry.kind = .hardLink target
        ∧ next = .of target := by
  unfold stepAt
  cases entries.get? key with
  | none => simp [LinkStep.turn]
  | some entry =>
      obtain ⟨path, kind, metadata, xattrs, darwin⟩ := entry
      cases kind <;> simp [LinkStep.turn, eq_comm]

/-- A chain ends at a name of its own, where a file is. -/
theorem Ends.file_at (ends : entries.Ends key file path)
    : file ∈ path ∧ ∃ entry, entries.get? file = some entry ∧ IsFile entry := by
  unfold Ends at ends
  generalize found : LinkEnd.file file = end_ at ends
  induction ends with
  | stop stops =>
      subst found
      obtain ⟨rfl, isFile⟩ := turn_eq_file_iff.mp stops
      exact ⟨List.mem_cons_self, isFile⟩
  | link _ _ ih =>
      obtain ⟨member, isFile⟩ := ih found
      exact ⟨List.mem_cons_of_mem _ member, isFile⟩

/-- Every name of a chain is there. -/
theorem Ends.get?_isSome (ends : entries.Ends key file path)
    : ∀ other ∈ path, (entries.get? other).isSome = true := by
  unfold Ends at ends
  generalize found : LinkEnd.file file = end_ at ends
  induction ends with
  | stop stops =>
      subst found
      obtain ⟨rfl, entry, there, -⟩ := turn_eq_file_iff.mp stops
      intro other member
      rw [List.mem_singleton.mp member, there, Option.isSome_some]
  | link links _ ih =>
      intro other member
      rcases List.mem_cons.mp member with rfl | later
      · obtain ⟨entry, -, there, -⟩ := turn_eq_link_iff.mp links
        rw [there, Option.isSome_some]
      · exact ih found other later

/-- A chain passes no more names than there are. -/
theorem Ends.length_le (ends : entries.Ends key file path)
    : path.length ≤ entries.entries.length := by
  have among : path ⊆ entries.entries.map Prod.fst := by
    intro other member
    obtain ⟨entry, there⟩ := Option.isSome_iff_exists.mp (ends.get?_isSome other member)
    exact List.mem_map.mpr ⟨_, entries.mem_entries_iff.mpr there, rfl⟩
  have fewer := (Chase.Chain.nodup ends).subperm among |>.length_le
  rwa [List.length_map] at fewer

/-- The walk from a link comes to the file its chain ends at, and looks at its names. -/
theorem followHardLink_eq_file {target : Bytes}
    : followHardLink target entries.entries.length entries.stepAt = .file file
      ↔ ∃ path, entries.Ends (.of target) file path := by
  rw [followHardLink]
  constructor
  · intro follows
    cases found : Chase.follow (fun at_ => (entries.stepAt at_).turn) entries.entries.length
        (.of target) with
    | none => rw [found] at follows; cases follows
    | some end_ =>
        rw [found, Option.getD_some] at follows
        exact ⟨_, follows ▸ Chase.chain_of_follow found⟩
  · rintro ⟨path, ends⟩
    have enough : path.length ≤ entries.entries.length + 1 := Nat.le_succ_of_le ends.length_le
    rw [(Chase.Chain.follow_eq ends enough).1, Option.getD_some]

theorem through_iff {doomed : List Key} {target : Bytes}
    (ends : entries.Ends (.of target) file path)
    : entries.through doomed target = true ↔ ∃ other ∈ path, other ∈ doomed := by
  have enough : path.length ≤ entries.entries.length + 1 := Nat.le_succ_of_le ends.length_le
  rw [through, (Chase.Chain.follow_eq ends enough).2, List.any_eq_true]
  simp only [List.contains_iff_mem]

/-- A name reaches the file its chain ends at. -/
theorem reaches_iff : entries.reaches key = some file ↔ ∃ path, entries.Ends key file path := by
  unfold reaches
  constructor
  · intro found
    cases there : entries.get? key with
    | none => rw [there] at found; cases found
    | some entry =>
        rw [there] at found
        have isFile (plain : IsFile entry) (here : key = file)
            : ∃ path, entries.Ends key file path :=
          ⟨_, .stop (turn_eq_file_iff.mpr ⟨here.symm, entry, there, plain⟩)⟩
        cases kind : entry.kind with
        | directory => simp only [kind, reduceCtorEq] at found
        | hardLink target =>
            simp only [kind] at found
            split at found
            next other follows =>
              obtain rfl := Option.some.inj found
              obtain ⟨path, ends⟩ := followHardLink_eq_file.mp follows
              exact ⟨_, .link (turn_eq_link_iff.mpr ⟨entry, target, there, kind, rfl⟩) ends⟩
            next => cases found
        | _ =>
            simp only [kind, Option.some.injEq] at found
            exact isFile (by simp [IsFile, kind]) found
  · rintro ⟨path, ends⟩
    cases ends with
    | stop stops =>
        obtain ⟨rfl, entry, there, isFile⟩ := turn_eq_file_iff.mp stops
        obtain ⟨path, kind, metadata, xattrs, darwin⟩ := entry
        cases kind <;> simp_all [IsFile]
    | link links rest =>
        obtain ⟨entry, target, there, kind, rfl⟩ := turn_eq_link_iff.mp links
        simp only [there, kind, followHardLink_eq_file.mpr ⟨_, rest⟩]

end Ferrosys.Layered

/-! What is at each path once names are taken out: a link that reached a file through one of them
names the file, or the first such link where the file's own name goes, and that one holds the file.
-/

namespace Ferrosys.Layered

open SortedMaps

variable {γ μ δ : Type} {entries : Layered γ μ δ} {doomed : List Key}

/-- A surviving link reaches a file through a removed name. -/
theorem reachedBy_iff {key file : Key} {entry : SourceEntry γ μ δ}
    (there : entries.get? key = some entry)
    : entries.reachedBy doomed (key, entry) = some file
      ↔ (∃ target, entry.kind = .hardLink target) ∧ key ∉ doomed
        ∧ ∃ path, entries.Ends key file path ∧ ∃ other ∈ path, other ∈ doomed := by
  unfold reachedBy
  cases kind : entry.kind with
  | hardLink target =>
      simp only [List.contains_iff_mem]
      by_cases goes : key ∈ doomed
      · simp [goes]
      · have onward {path : List Key} (ends : entries.Ends key file path)
            : ∃ path', path = key :: path' ∧ entries.Ends (.of target) file path' := by
          cases ends with
          | stop stops =>
              obtain ⟨rfl, other, there', isFile⟩ := turn_eq_file_iff.mp stops
              obtain rfl := Option.some.inj (there.symm.trans there')
              exact absurd kind (isFile.2 target)
          | link links rest =>
              obtain ⟨other, target', there', kind', rfl⟩ := turn_eq_link_iff.mp links
              obtain rfl := Option.some.inj (there.symm.trans there')
              obtain rfl := EntryKind.hardLink.inj (kind.symm.trans kind')
              exact ⟨_, rfl, rest⟩
        rw [if_neg goes]
        constructor
        · intro found
          split at found
          next other follows =>
            obtain ⟨path, ends⟩ := followHardLink_eq_file.mp follows
            split at found
            next passes =>
              obtain rfl := Option.some.inj found
              obtain ⟨name, member, removed⟩ := (through_iff ends).mp passes
              exact ⟨⟨_, rfl⟩, goes, key :: path,
                .link (turn_eq_link_iff.mpr ⟨entry, target, there, kind, rfl⟩) ends,
                name, List.mem_cons_of_mem _ member, removed⟩
            next => cases found
          next => cases found
        · rintro ⟨-, -, path, ends, other, member, removed⟩
          obtain ⟨path', rfl, rest⟩ := onward ends
          rcases List.mem_cons.mp member with rfl | later
          · exact absurd removed goes
          · simp only [followHardLink_eq_file.mpr ⟨_, rest⟩,
              (through_iff rest).mpr ⟨other, later, removed⟩, if_true]
  | _ => simp

/-- The surviving links that reach a file through a removed name, in path order. -/
def linksTo (entries : Layered γ μ δ) (doomed : List Key) (file : Key) : List Key :=
  ((entries.reached doomed).get? file).getD []

theorem linksTo_eq (entries : Layered γ μ δ) (doomed : List Key) (file : Key)
    : entries.linksTo doomed file
      = (entries.entries.filter fun item => entries.reachedBy doomed item = some file).map
        Prod.fst := by
  rw [linksTo, reached, SortedMap.get?_gather]
  split
  next none_ => rw [none_]; rfl
  next => rfl

theorem mem_linksTo {key file : Key}
    : key ∈ entries.linksTo doomed file
      ↔ ∃ entry, entries.get? key = some entry
        ∧ entries.reachedBy doomed (key, entry) = some file := by
  rw [linksTo_eq]
  constructor
  · intro member
    obtain ⟨⟨key, entry⟩, listed, rfl⟩ := List.mem_map.mp member
    obtain ⟨there, counted⟩ := List.mem_filter.mp listed
    exact ⟨entry, entries.mem_entries_iff.mp there, of_decide_eq_true counted⟩
  · rintro ⟨entry, there, counted⟩
    exact List.mem_map.mpr ⟨(key, entry), List.mem_filter.mpr
      ⟨entries.mem_entries_iff.mpr there, decide_eq_true counted⟩, rfl⟩

/-- The name a file that goes is kept under. -/
def holder? (entries : Layered γ μ δ) (doomed : List Key) (file : Key) : Option Key :=
  (entries.linksTo doomed file).head?

/-- The name a file has once names are taken out. -/
def home (entries : Layered γ μ δ) (doomed : List Key) (file : Key) : Key :=
  if file ∈ doomed then (entries.holder? doomed file).getD file else file

/-- The path a file's links are made to name it by. -/
def homePath (entries : Layered γ μ δ) (doomed : List Key) (file : Key) : Bytes :=
  ((entries.get? (entries.home doomed file)).map SourceEntry.path).getD []

/-- What is at a path once links are retargeted and files kept, before any name goes. -/
def settled (entries : Layered γ μ δ) (doomed : List Key) (key : Key)
    : Option (SourceEntry γ μ δ) :=
  (entries.get? key).map fun entry =>
    match entries.reachedBy doomed (key, entry) with
    | none => entry
    | some file =>
        if file ∈ doomed ∧ key = entries.home doomed file then
          ((entries.get? file).map fun held => { held with path := entry.path }).getD entry
        else { entry with kind := .hardLink (entries.homePath doomed file) }

/-- A link made to name `target`, and anything else as it is. -/
def pointed (target : Bytes) (entry : SourceEntry γ μ δ) : SourceEntry γ μ δ :=
  match entry.kind with
  | .hardLink _ => { entry with kind := .hardLink target }
  | _ => entry

theorem pointed_pointed (target : Bytes) (entry : SourceEntry γ μ δ)
    : pointed target (pointed target entry) = pointed target entry := by
  obtain ⟨path, kind, metadata, xattrs, darwin⟩ := entry
  cases kind <;> rfl

theorem pointed_of_isFile {target : Bytes} {entry : SourceEntry γ μ δ} (isFile : IsFile entry)
    : pointed target entry = entry := by
  unfold pointed
  split
  next other kind => exact absurd kind (isFile.2 other)
  next => rfl

theorem get?_retarget (entries : Layered γ μ δ) (target : Bytes) (link key : Key)
    : (retarget target entries link).get? key
      = if key = link then (entries.get? key).map (pointed target) else entries.get? key := by
  unfold retarget pointed
  cases there : entries.get? link with
  | none =>
      dsimp only
      split
      next same => rw [same, there]; rfl
      next => rfl
  | some entry =>
      dsimp only
      split
      next kind =>
        rw [SortedMap.get?_insert]
        split
        next same => rw [same, there]; simp only [Option.map_some, kind]
        next => rfl
      next plain =>
        split
        next same =>
          rw [same, there, Option.map_some]
          split
          next kind => exact absurd kind (plain _)
          next => rfl
        next => rfl

/-- A file's links are retargeted and nothing else, by induction on them. -/
theorem get?_foldl_retarget (links : List Key) (entries : Layered γ μ δ) (target : Bytes)
    (key : Key)
    : (links.foldl (retarget target) entries).get? key
      = if key ∈ links then (entries.get? key).map (pointed target) else entries.get? key := by
  induction links generalizing entries with
  | nil => rfl
  | cons link rest ih =>
      rw [List.foldl_cons, ih, get?_retarget]
      by_cases here : key = link
      · rw [if_pos here, if_pos (List.mem_cons.mpr (.inl here)), Option.map_map]
        split
        next =>
          congr 1
          exact funext fun entry => pointed_pointed target entry
        next => rfl
      · rw [if_neg here]
        simp only [List.mem_cons, here, false_or]

theorem get?_takeWhole {file holder : Key} {held entry : SourceEntry γ μ δ}
    (fileThere : entries.get? file = some held) (holderThere : entries.get? holder = some entry)
    : (entries.takeWhole file holder).2 = entry.path ∧ ∀ key,
      (entries.takeWhole file holder).1.get? key
        = if key = holder then some { held with path := entry.path } else entries.get? key := by
  unfold takeWhole
  rw [fileThere, holderThere]
  dsimp only
  exact ⟨rfl, fun key => entries.get?_insert holder _ key⟩

/-- A file's links once it is rehomed: what is at them is settled, and all else is as it was. -/
theorem get?_rehome {base : Layered γ μ δ} {file : Key} (some_ : base.linksTo doomed file ≠ [])
    (fileSame : entries.get? file = base.get? file)
    (linksSame : ∀ link ∈ base.linksTo doomed file, entries.get? link = base.get? link) (key : Key)
    : (rehome doomed entries (file, base.linksTo doomed file)).get? key
      = if key ∈ base.linksTo doomed file then base.settled doomed key else entries.get? key := by
  obtain ⟨holder, others, list⟩ := List.exists_cons_of_ne_nil some_
  have holderMem : holder ∈ base.linksTo doomed file := list ▸ List.mem_cons_self
  obtain ⟨entry, there, counted⟩ := mem_linksTo.mp holderMem
  obtain ⟨-, -, path, ends, -⟩ := (reachedBy_iff there).mp counted
  obtain ⟨-, held, fileThere, isFile⟩ := ends.file_at
  have settles {link : Key} (member : link ∈ base.linksTo doomed file)
      : ∃ other target, base.get? link = some other ∧ other.kind = .hardLink target
        ∧ base.settled doomed link = some
          (if file ∈ doomed ∧ link = base.home doomed file then { held with path := other.path }
            else { other with kind := .hardLink (base.homePath doomed file) }) := by
    obtain ⟨other, linkThere, linkCounted⟩ := mem_linksTo.mp member
    obtain ⟨⟨target, kind⟩, -⟩ := (reachedBy_iff linkThere).mp linkCounted
    refine ⟨other, target, linkThere, kind, ?_⟩
    rw [settled, linkThere, Option.map_some, linkCounted]
    simp only [fileThere, Option.map_some, Option.getD_some]
  have unfolded : rehome doomed entries (file, base.linksTo doomed file)
      = (base.linksTo doomed file).foldl
        (retarget (if doomed.contains file then (entries.takeWhole file holder).2
          else ((entries.get? file).map SourceEntry.path).getD []))
        (if doomed.contains file then (entries.takeWhole file holder).1 else entries) := by
    unfold rehome
    rw [list]
    dsimp only
    split <;> rfl
  rw [unfolded, get?_foldl_retarget]
  by_cases goes : file ∈ doomed
  · have homeIs : base.home doomed file = holder := by
      rw [home, if_pos goes, holder?, list, List.head?_cons, Option.getD_some]
    have pathIs : base.homePath doomed file = entry.path := by
      rw [homePath, homeIs, there, Option.map_some, Option.getD_some]
    obtain ⟨target, taken⟩ := get?_takeWhole (fileSame.trans fileThere)
      ((linksSame holder holderMem).trans there)
    simp only [List.contains_iff_mem, if_pos goes, target, taken]
    split
    next member =>
      obtain ⟨other, named, linkThere, kind, settled_⟩ := settles member
      rw [settled_, pathIs, homeIs]
      by_cases first : key = holder
      · obtain rfl := first
        obtain rfl := Option.some.inj (there.symm.trans linkThere)
        rw [if_pos rfl, if_pos ⟨goes, rfl⟩, Option.map_some]
        exact congrArg some (pointed_of_isFile isFile)
      · rw [if_neg first, if_neg fun both => first both.2, linksSame key member, linkThere,
          Option.map_some, pointed, kind]
    next outside =>
      rw [if_neg fun same => outside (by rw [same]; exact holderMem)]
  · have homeIs : base.home doomed file = file := if_neg goes
    have pathIs : base.homePath doomed file = held.path := by
      rw [homePath, homeIs, fileThere, Option.map_some, Option.getD_some]
    simp only [List.contains_iff_mem, if_neg goes, fileSame, fileThere, Option.map_some,
      Option.getD_some]
    split
    next member =>
      obtain ⟨other, named, linkThere, kind, settled_⟩ := settles member
      rw [settled_, pathIs, if_neg fun both => goes both.1, linksSame key member, linkThere,
        Option.map_some, pointed, kind]
    next => rfl

/-- A link is among those of one file, and a file is none of its own. -/
theorem linksTo_unique {key file file' : Key} (member : key ∈ entries.linksTo doomed file)
    (member' : key ∈ entries.linksTo doomed file') : file' = file := by
  obtain ⟨entry, there, counted⟩ := mem_linksTo.mp member
  obtain ⟨entry', there', counted'⟩ := mem_linksTo.mp member'
  obtain rfl := Option.some.inj (there.symm.trans there')
  exact Option.some.inj (counted'.symm.trans counted)

theorem file_notMem_linksTo {key file file' : Key} (member : key ∈ entries.linksTo doomed file)
    : file ∉ entries.linksTo doomed file' := by
  intro again
  obtain ⟨entry, there, counted⟩ := mem_linksTo.mp member
  obtain ⟨-, -, path, ends, -⟩ := (reachedBy_iff there).mp counted
  obtain ⟨-, held, fileThere, isFile⟩ := ends.file_at
  obtain ⟨other, there', counted'⟩ := mem_linksTo.mp again
  obtain rfl := Option.some.inj (fileThere.symm.trans there')
  obtain ⟨⟨target, kind⟩, -⟩ := (reachedBy_iff fileThere).mp counted'
  exact isFile.2 target kind

/-- Rehoming files one by one settles their links, by induction on the files: what is at a file and
at its links is untouched until it is its turn.
-/
theorem get?_foldl_rehome {base : Layered γ μ δ} (files : List Key) (distinct : files.Nodup)
    (some_ : ∀ file ∈ files, base.linksTo doomed file ≠ [])
    (fresh : ∀ file ∈ files, entries.get? file = base.get? file
      ∧ ∀ link ∈ base.linksTo doomed file, entries.get? link = base.get? link) (key : Key)
    : ((files.map fun file => (file, base.linksTo doomed file)).foldl (rehome doomed)
        entries).get? key
      = if ∃ file ∈ files, key ∈ base.linksTo doomed file then base.settled doomed key
        else entries.get? key := by
  induction files generalizing entries with
  | nil => simp
  | cons file rest ih =>
      obtain ⟨notAgain, distinct⟩ := List.nodup_cons.mp distinct
      obtain ⟨fileSame, linksSame⟩ := fresh file List.mem_cons_self
      have rehomed := get?_rehome (some_ file List.mem_cons_self) fileSame linksSame
      have someLink := List.exists_mem_of_ne_nil _ (some_ file List.mem_cons_self)
      rw [List.map_cons, List.foldl_cons, ih distinct
        (fun other later => some_ other (List.mem_cons_of_mem _ later)) fun other later => ?_]
      · simp only [rehomed, List.mem_cons, exists_eq_or_imp]
        by_cases here : key ∈ base.linksTo doomed file
        · simp [here]
        · simp [here]
      · obtain ⟨otherSame, otherLinks⟩ := fresh other (List.mem_cons_of_mem _ later)
        obtain ⟨link, member⟩ :=
          List.exists_mem_of_ne_nil _ (some_ other (List.mem_cons_of_mem _ later))
        refine ⟨?_, fun link member => ?_⟩
        · rw [rehomed, if_neg (file_notMem_linksTo member), otherSame]
        · have elsewhere : link ∉ base.linksTo doomed file := by
            intro inside
            rw [linksTo_unique inside member] at later
            exact notAgain later
          rw [rehomed, if_neg elsewhere, otherLinks link member]

/-- The files reached through removed names, each with its links. -/
theorem reached_eq (entries : Layered γ μ δ) (doomed : List Key)
    : (entries.reached doomed).entries
      = ((entries.reached doomed).entries.map Prod.fst).map fun file =>
        (file, entries.linksTo doomed file) := by
  rw [List.map_map]
  refine (List.map_id _).symm.trans (List.map_congr_left fun item member => ?_)
  obtain ⟨file, links⟩ := item
  have found := (SortedMap.mem_entries_iff _).mp member
  exact Prod.ext rfl (by rw [Function.comp_apply, linksTo, found]; rfl)

theorem mem_reached {file : Key}
    : file ∈ (entries.reached doomed).entries.map Prod.fst ↔ entries.linksTo doomed file ≠ [] := by
  have here : file ∈ (entries.reached doomed).entries.map Prod.fst
      ↔ ∃ links, (entries.reached doomed).get? file = some links := by
    simp only [List.mem_map, Prod.exists, exists_and_right, exists_eq_right,
      SortedMap.mem_entries_iff]
  rw [here, linksTo, reached, SortedMap.get?_gather]
  split
  next => simp
  next more => simp [more]

/-- What is at each path once names are taken out. -/
theorem get?_dropNames (entries : Layered γ μ δ) (doomed : List Key) (key : Key)
    : (entries.dropNames doomed).get? key
      = if key ∈ doomed then none else entries.settled doomed key := by
  have untouched (outside : ∀ file, key ∉ entries.linksTo doomed file)
      : entries.settled doomed key = entries.get? key := by
    unfold settled
    cases there : entries.get? key with
    | none => rfl
    | some entry =>
        rw [Option.map_some]
        split
        next => rfl
        next file counted => exact absurd (mem_linksTo.mpr ⟨entry, there, counted⟩) (outside file)
  unfold dropNames
  split
  next nothing =>
    rw [List.isEmpty_iff.mp nothing, if_neg List.not_mem_nil, ← List.isEmpty_iff.mp nothing]
    refine (untouched fun file member => ?_).symm
    obtain ⟨entry, there, counted⟩ := mem_linksTo.mp member
    obtain ⟨-, -, path, -, other, -, removed⟩ := (reachedBy_iff there).mp counted
    rw [List.isEmpty_iff.mp nothing] at removed
    exact List.not_mem_nil removed
  next =>
    rw [SortedMap.get?_keep, reached_eq,
      get?_foldl_rehome _ _ (fun file member => mem_reached.mp member)
        (fun file member => ⟨rfl, fun link inside => rfl⟩)]
    · simp only [Bool.not_eq_true', List.contains_eq_mem, decide_eq_false_iff_not]
      by_cases goes : key ∈ doomed
      · simp [goes]
      · rw [if_pos goes, if_neg goes]
        split
        next => rfl
        next outside =>
          refine (untouched fun file member => outside ⟨file, ?_, member⟩).symm
          exact mem_reached.mpr fun none_ => List.not_mem_nil (none_ ▸ member)
    · exact (List.pairwise_map.mpr ((entries.reached doomed).sorted.imp fun below => below.ne))

end Ferrosys.Layered
