import Ferrosys.Source.Layers

/-! A composition holds what the last layer to name a path says of it, and a file one of whose names
goes is kept under the others: all of them still reach one file, and it holds what it held.
-/

namespace Ferrosys.Layered

open SortedMaps

variable {γ μ δ : Type} {entries entries' : Layered γ μ δ} {doomed : List Key}

/-- One key is strictly beneath another. -/
def Beneath (key above : Key) : Prop := key.StartsWith above.above ∧ key ≠ above

instance (key above : Key) : Decidable (Beneath key above) := inferInstanceAs (Decidable (_ ∧ _))

/-- Neighbours from where a run begins on, by induction on a list in order: what begins with a key
is taken whole.
-/
theorem takeWhile_dropWhile_eq_filter {α : Type} {list : List (Key × α)} (first : Key)
    (sorted : list.Pairwise (·.1 < ·.1))
    : ((list.dropWhile fun item => item.1 < first).takeWhile fun item => item.1.StartsWith first)
      = list.filter fun item => item.1.StartsWith first := by
  induction list with
  | nil => rfl
  | cons item rest ih =>
      obtain ⟨least, tail⟩ := List.pairwise_cons.mp sorted
      by_cases low : item.1 < first
      · rw [List.dropWhile_cons_of_pos (by simpa using low), ih tail, List.filter_cons_of_neg]
        exact fun begins => absurd (of_decide_eq_true begins).le (not_le.mpr low)
      · rw [List.dropWhile_cons_of_neg (by simpa using low)]
        by_cases begins : item.1.StartsWith first
        · rw [List.takeWhile_cons_of_pos (by simpa using begins),
            List.filter_cons_of_pos (by simpa using begins), ← ih tail]
          congr 1
          have none_ : rest.dropWhile (fun item => item.1 < first) = rest := by
            cases rest with
            | nil => rfl
            | cons next rest =>
                have above := (not_lt.mp low).trans (least next List.mem_cons_self).le
                exact List.dropWhile_cons_of_neg (by simpa using above)
          rw [none_]
        · rw [List.takeWhile_cons_of_neg (by simpa using begins),
            List.filter_cons_of_neg (by simpa using begins)]
          refine (List.filter_eq_nil_iff.mpr fun other member later => ?_).symm
          have between := (least other member).le
          exact begins ((of_decide_eq_true later).of_between (not_lt.mp low) between)

/-- What is beneath a key is every name that is, and no other. -/
theorem mem_beneath {key above : Key}
    : key ∈ entries.beneath above ↔ (entries.get? key).isSome ∧ Beneath key above := by
  unfold beneath Beneath
  dsimp only
  rw [takeWhile_dropWhile_eq_filter above.above entries.sorted, Option.isSome_iff_exists]
  simp only [List.mem_map, List.mem_filter, decide_eq_true_eq, Prod.exists, exists_and_right,
    exists_eq_right, SortedMap.mem_entries_iff]
  tauto

/-- Every entry is at the key its path is compared as. -/
def Keyed (entries : Layered γ μ δ) : Prop :=
  ∀ key entry, entries.get? key = some entry → Key.of entry.path = key

theorem settled_path {key : Key} {entry : SourceEntry γ μ δ}
    (there : entries.settled doomed key = some entry)
    : ∃ before, entries.get? key = some before ∧ entry.path = before.path := by
  unfold settled at there
  obtain ⟨before, found, rfl⟩ := Option.map_eq_some_iff.mp there
  refine ⟨before, found, ?_⟩
  split
  next => rfl
  next file counted =>
    split
    next => cases entries.get? file <;> rfl
    next => rfl

theorem Keyed.dropNames (keyed : entries.Keyed) (doomed : List Key)
    : (entries.dropNames doomed).Keyed := by
  intro key entry there
  rw [get?_dropNames] at there
  split at there
  next => cases there
  next =>
    obtain ⟨before, found, same⟩ := settled_path there
    rw [same]
    exact keyed key before found

theorem Keyed.insert (keyed : entries.Keyed) (entry : SourceEntry γ μ δ)
    : Keyed (entries.insert (Key.of entry.path) entry) := by
  intro key other there
  rw [SortedMap.get?_insert] at there
  split at there
  next same =>
    obtain rfl := Option.some.inj there
    exact same.symm
  next => exact keyed key other there

/-- The names a step takes out, and the one whose entry it replaces. -/
def Step.dooms (entries : Layered γ μ δ) : Step γ μ δ → List Key
  | .put entry =>
      match entry.kind with
      | .directory => []
      | _ => entries.beneath (.of entry.path)
  | .remove path => entries.doomedBy (.of path)

def Step.replaced : Step γ μ δ → Option Key
  | .put entry => some (.of entry.path)
  | .remove _ => none

/-- Either step takes its names out and then puts its entry, if it has one. -/
theorem take_eq_ok {step : Step γ μ δ} (taken : entries.take step = .ok entries')
    : entries' = match step with
      | .put entry => (entries.dropNames (step.dooms entries)).insert (.of entry.path) entry
      | .remove _ => entries.dropNames (step.dooms entries) := by
  cases step with
  | put entry =>
      obtain rfl := Except.ok.inj taken
      obtain ⟨path, kind, metadata, xattrs, darwin⟩ := entry
      cases kind <;> rfl
  | remove path =>
      unfold take remove at taken
      dsimp only at taken
      split at taken
      next => cases taken
      next =>
        split at taken
        next => cases taken
        next => exact (Except.ok.inj taken).symm

theorem Keyed.take (keyed : entries.Keyed) {step : Step γ μ δ}
    (taken : entries.take step = .ok entries') : entries'.Keyed := by
  rw [take_eq_ok taken]
  cases step with
  | put entry => exact (keyed.dropNames _).insert entry
  | remove path => exact keyed.dropNames _

/-- What a step does not keep a link to: the name it replaces is the one the link reached, one its
chain passes through, or the one the file it reached is to be kept under.
-/
def Excepted (entries : Layered γ μ δ) (doomed : List Key) (replaced : Option Key) (key file : Key)
    : Prop :=
  ∃ other, replaced = some other ∧ (file = other
    ∨ (∃ path, entries.Ends key file path ∧ other ∈ path ∧ ∀ name ∈ path, name ∉ doomed)
    ∨ (file ∈ doomed ∧ entries.holder? doomed file = some other))

/-- What a name is a name of: a kind, metadata and attributes. -/
def held (entries : Layered γ μ δ) (key : Key)
    : Option (EntryKind γ × μ × List Xattr × Option δ) :=
  (entries.get? key).map fun entry => (entry.kind, entry.metadata, entry.xattrs, entry.darwin)

/-- Once names are taken out, a name that stays reaches where its file is kept, and the file holds
what it held; where no name of its chain goes the chain is the one it was, and otherwise it passes
no name but those two.
-/
theorem Ends.dropNames (keyed : entries.Keyed) {key file : Key} {path : List Key}
    (ends : entries.Ends key file path) (stays : key ∉ doomed)
    : ∃ path', (entries.dropNames doomed).Ends key (entries.home doomed file) path'
      ∧ (entries.dropNames doomed).held (entries.home doomed file) = entries.held file
      ∧ (((∀ name ∈ path, name ∉ doomed) ∧ path' = path)
        ∨ (path' ⊆ [key, entries.home doomed file]
          ∧ (file ∈ doomed → entries.holder? doomed file = some (entries.home doomed file)))) := by
  obtain ⟨fileMem, fileEntry, fileThere, isFile⟩ := ends.file_at
  have fileAlone (other : Key) : entries.reachedBy doomed (file, fileEntry) ≠ some other := by
    intro counted
    obtain ⟨⟨target, kind⟩, -⟩ := (reachedBy_iff fileThere).mp counted
    exact isFile.2 target kind
  have fileStays (survives : file ∉ doomed)
      : (entries.dropNames doomed).get? file = some fileEntry := by
    rw [get?_dropNames, if_neg survives, settled, fileThere, Option.map_some]
    split
    next => rfl
    next other counted => exact absurd counted (fileAlone other)
  by_cases whole : ∀ name ∈ path, name ∉ doomed
  · have homeIs : entries.home doomed file = file := if_neg (whole file fileMem)
    have same : ∀ other ∈ path, (entries.dropNames doomed).get? other = entries.get? other := by
      intro other member
      obtain ⟨entry, there⟩ := Option.isSome_iff_exists.mp (ends.get?_isSome other member)
      rw [get?_dropNames, if_neg (whole other member), settled, there, Option.map_some]
      split
      next => rfl
      next file' counted =>
        obtain ⟨-, -, path', ends', name, inside, removed⟩ := (reachedBy_iff there).mp counted
        obtain ⟨before, rest, rfl, chain⟩ := Chase.Chain.suffix ends member
        obtain ⟨-, rfl⟩ := Chase.Chain.unique chain ends'
        exact absurd removed (whole name (List.mem_append_right _ inside))
    rw [homeIs]
    refine ⟨path, ends.congr fun other member => ?_, ?_, .inl ⟨whole, rfl⟩⟩
    · simp only [stepAt, same other member]
    · rw [held, held, same file fileMem]
  · push Not at whole
    obtain ⟨name, inside, removed⟩ := whole
    obtain ⟨entry, there⟩ := Option.isSome_iff_exists.mp
      (ends.get?_isSome key (Chase.Chain.head_mem ends))
    have isLink : ∃ target, entry.kind = .hardLink target := by
      cases ends with
      | stop => exact absurd (List.mem_singleton.mp inside ▸ removed) stays
      | link links rest =>
          obtain ⟨other, target, there', kind, -⟩ := turn_eq_link_iff.mp links
          obtain rfl := Option.some.inj (there.symm.trans there')
          exact ⟨target, kind⟩
    have counted : entries.reachedBy doomed (key, entry) = some file :=
      (reachedBy_iff there).mpr ⟨isLink, stays, path, ends, name, inside, removed⟩
    have settledKey : (entries.dropNames doomed).get? key = some
        (if file ∈ doomed ∧ key = entries.home doomed file then
          { fileEntry with path := entry.path }
        else { entry with kind := .hardLink (entries.homePath doomed file) }) := by
      rw [get?_dropNames, if_neg stays, settled, there, Option.map_some]
      simp only [counted, fileThere, Option.map_some, Option.getD_some]
    -- where the file is kept, and what is there
    have kept : (file ∈ doomed → entries.holder? doomed file = some (entries.home doomed file))
        ∧ ∃ homeEntry, (entries.dropNames doomed).get? (entries.home doomed file) = some homeEntry
          ∧ IsFile homeEntry ∧ Key.of (entries.homePath doomed file) = entries.home doomed file
          ∧ (entries.dropNames doomed).held (entries.home doomed file) = entries.held file := by
      by_cases goes : file ∈ doomed
      · have member := mem_linksTo.mpr ⟨entry, there, counted⟩
        obtain ⟨holder, others, list⟩ := List.exists_cons_of_ne_nil (List.ne_nil_of_mem member)
        have holderIs : entries.holder? doomed file = some holder := by
          rw [holder?, list, List.head?_cons]
        have homeIs : entries.home doomed file = holder := by
          rw [home, if_pos goes, holderIs, Option.getD_some]
        obtain ⟨holderEntry, holderThere, holderCounted⟩ :=
          mem_linksTo.mp (list ▸ List.mem_cons_self : holder ∈ entries.linksTo doomed file)
        have holderStays := ((reachedBy_iff holderThere).mp holderCounted).2.1
        have settledHolder : (entries.dropNames doomed).get? holder
            = some { fileEntry with path := holderEntry.path } := by
          rw [get?_dropNames, if_neg holderStays, settled, holderThere, Option.map_some]
          simp only [holderCounted, homeIs, goes, and_self, if_true, fileThere, Option.map_some,
            Option.getD_some]
        rw [homeIs]
        refine ⟨fun _ => holderIs, _, settledHolder, isFile, ?_, ?_⟩
        · rw [homePath, homeIs, holderThere, Option.map_some, Option.getD_some]
          exact keyed holder holderEntry holderThere
        · rw [held, held, settledHolder, fileThere, Option.map_some, Option.map_some]
      · have homeIs : entries.home doomed file = file := if_neg goes
        rw [homeIs]
        refine ⟨fun no => absurd no goes, fileEntry, fileStays goes, isFile, ?_, ?_⟩
        · rw [homePath, homeIs, fileThere, Option.map_some, Option.getD_some]
          exact keyed file fileEntry fileThere
        · rw [held, held, fileStays goes, fileThere]
    obtain ⟨holderIs, homeEntry, homeThere, homeIsFile, homeKey, homeHeld⟩ := kept
    have atHome : (entries.dropNames doomed).Ends (entries.home doomed file)
        (entries.home doomed file) [entries.home doomed file] :=
      .stop (turn_eq_file_iff.mpr ⟨rfl, homeEntry, homeThere, homeIsFile⟩)
    by_cases here : file ∈ doomed ∧ key = entries.home doomed file
    · refine ⟨[entries.home doomed file], ?_, homeHeld, .inr ⟨?_, holderIs⟩⟩
      · rw [here.2]
        exact atHome
      · exact fun other member => List.mem_cons_of_mem _ member
    · rw [if_neg here] at settledKey
      refine ⟨_, .link (turn_eq_link_iff.mpr ⟨_, _, settledKey, rfl, homeKey.symm⟩) atHome,
        homeHeld, .inr ⟨fun other member => member, holderIs⟩⟩

/-- What a step keeps of a name that stays: one that reached a file reaches one that holds what it
held, and with it all that reached the file; a link that reached none is left as written.
-/
def Keeps (entries entries' : Layered γ μ δ) (doomed : List Key) (replaced : Option Key) : Prop :=
  (∀ file, ∃ home, ∀ key, key ∉ doomed → replaced ≠ some key → entries.reaches key = some file →
      ¬entries.Excepted doomed replaced key file →
      entries'.reaches key = some home ∧ entries'.held home = entries.held file)
    ∧ ∀ key entry, key ∉ doomed → replaced ≠ some key → entries.get? key = some entry →
      (∃ target, entry.kind = .hardLink target) → entries.reaches key = none →
      entries'.get? key = some entry

/-- A link that reaches no file is left as written. -/
theorem get?_dropNames_of_broken {key : Key} {entry : SourceEntry γ μ δ} (stays : key ∉ doomed)
    (there : entries.get? key = some entry) (broken : entries.reaches key = none)
    : (entries.dropNames doomed).get? key = some entry := by
  rw [get?_dropNames, if_neg stays, settled, there, Option.map_some]
  split
  next => rfl
  next file counted =>
    obtain ⟨-, -, path, ends, -⟩ := (reachedBy_iff there).mp counted
    rw [reaches_iff.mpr ⟨path, ends⟩] at broken
    cases broken

/-- Taking names out keeps what the names that stay reach. -/
theorem Keyed.keeps_dropNames (keyed : entries.Keyed) (doomed : List Key)
    : entries.Keeps (entries.dropNames doomed) doomed none := by
  refine ⟨fun file => ⟨entries.home doomed file, fun key stays _ reached _ => ?_⟩,
    fun key entry stays _ there _ broken => get?_dropNames_of_broken stays there broken⟩
  obtain ⟨path, ends⟩ := reaches_iff.mp reached
  obtain ⟨path', ends', same, -⟩ := ends.dropNames keyed stays
  exact ⟨reaches_iff.mpr ⟨path', ends'⟩, same⟩

/-- Putting an entry where no chain of what was kept passes keeps it. -/
theorem Keyed.keeps_insert (keyed : entries.Keyed) (doomed : List Key)
    (entry : SourceEntry γ μ δ)
    : entries.Keeps ((entries.dropNames doomed).insert (.of entry.path) entry) doomed
      (some (.of entry.path)) := by
  refine ⟨fun file => ⟨entries.home doomed file, fun key stays kept reached clear => ?_⟩,
    fun key other stays kept there _ broken => ?_⟩
  · obtain ⟨path, ends⟩ := reaches_iff.mp reached
    obtain ⟨path', ends', same, passes⟩ := ends.dropNames keyed stays
    have aside : Key.of entry.path ∉ path' := by
      intro member
      rcases passes with ⟨whole, rfl⟩ | ⟨short, holderIs⟩
      · exact clear ⟨_, rfl, .inr (.inl ⟨_, ends, member, whole⟩)⟩
      · rcases List.mem_cons.mp (short member) with own | second
        · exact kept (congrArg some own)
        · have homeIs := List.mem_singleton.mp second
          by_cases goes : file ∈ doomed
          · exact clear ⟨_, rfl, .inr (.inr ⟨goes, homeIs ▸ holderIs goes⟩)⟩
          · exact clear ⟨_, rfl, .inl (homeIs.trans (if_neg goes)).symm⟩
    have apart {other : Key} (member : other ∈ path') : other ≠ Key.of entry.path :=
      fun same => aside (same ▸ member)
    constructor
    · refine reaches_iff.mpr ⟨path', Chase.Chain.congr ends' fun other member => ?_⟩
      simp only [stepAt, SortedMap.get?_insert, if_neg (apart member)]
    · rw [← same, held, held, SortedMap.get?_insert, if_neg (apart (Ends.file_at ends').1)]
  · rw [SortedMap.get?_insert, if_neg fun same => kept (congrArg some same.symm)]
    exact get?_dropNames_of_broken stays there broken

/-- Every step keeps what the names that stay reach. -/
theorem Keyed.keeps_take (keyed : entries.Keyed) {step : Step γ μ δ}
    (taken : entries.take step = .ok entries')
    : entries.Keeps entries' (step.dooms entries) step.replaced := by
  rw [take_eq_ok taken]
  cases step with
  | put entry => exact keyed.keeps_insert _ entry
  | remove path => exact keyed.keeps_dropNames _

/-- What a composition is to hold after a step: the last entry put at a path, nothing beneath what
is not a directory, and nothing at or beneath what is removed.
-/
def refer (tree : Key → Option (SourceEntry γ μ δ)) : Step γ μ δ → Key → Option (SourceEntry γ μ δ)
  | .put entry, key =>
      if key = .of entry.path then some entry
      else
        match entry.kind with
        | .directory => tree key
        | _ => if Beneath key (.of entry.path) then none else tree key
  | .remove path, key => if key = .of path ∨ Beneath key (.of path) then none else tree key

def reference (steps : List (Step γ μ δ)) : Key → Option (SourceEntry γ μ δ) :=
  steps.foldl refer fun _ => none

/-- An entry is the one put at its path, but for a link: one may name its file by another path, or
hold the file.
-/
structure Alike (entry put : SourceEntry γ μ δ) : Prop where
  path : entry.path = put.path
  other : (∀ target, put.kind ≠ .hardLink target) → entry = put
  link : ∀ target, entry.kind = .hardLink target → entry = { put with kind := .hardLink target }

theorem Alike.refl (entry : SourceEntry γ μ δ) : Alike entry entry where
  path := rfl
  other _ := rfl
  link target kind := by rw [← kind]

/-- A composition holds the paths a map does, and what the map holds at each. -/
def Tracks (entries : Layered γ μ δ) (tree : Key → Option (SourceEntry γ μ δ)) : Prop :=
  ∀ key, ((entries.get? key).isSome ↔ (tree key).isSome)
    ∧ ∀ entry put, entries.get? key = some entry → tree key = some put → Alike entry put

/-- Retargeting and keeping files changes links alone. -/
theorem alike_settled {key : Key} {entry before put : SourceEntry γ μ δ}
    (there : entries.settled doomed key = some entry) (found : entries.get? key = some before)
    (alike : Alike before put) : Alike entry put := by
  unfold settled at there
  rw [found, Option.map_some, Option.some.injEq] at there
  split at there
  next => exact there ▸ alike
  next file counted =>
    obtain ⟨⟨target, kind⟩, -, path, ends, -⟩ := (reachedBy_iff found).mp counted
    obtain ⟨-, held, fileThere, isFile⟩ := ends.file_at
    have wasLink : ¬∀ target, put.kind ≠ .hardLink target := by
      intro plain
      rw [alike.other plain] at kind
      exact plain target kind
    rw [fileThere, Option.map_some, Option.getD_some] at there
    split at there
    next =>
      refine ⟨there ▸ alike.path, fun plain => absurd plain wasLink, fun target' kind' => ?_⟩
      rw [← there] at kind'
      exact absurd kind' (isFile.2 target')
    next =>
      refine ⟨there ▸ alike.path, fun plain => absurd plain wasLink, fun target' kind' => ?_⟩
      rw [← there] at kind' ⊢
      rw [alike.link target kind, ← kind']

/-- Taking names out of a composition takes them out of the map it tracks. -/
theorem Tracks.dropNames {tree : Key → Option (SourceEntry γ μ δ)} (tracks : entries.Tracks tree)
    {cut : Key → Prop} [DecidablePred cut]
    (cuts : ∀ key, (entries.get? key).isSome → (key ∈ doomed ↔ cut key))
    : (entries.dropNames doomed).Tracks fun key => if cut key then none else tree key := by
  intro key
  obtain ⟨both, alike⟩ := tracks key
  rw [get?_dropNames]
  cases found : entries.get? key with
  | none =>
      have nothing : entries.settled doomed key = none := by rw [settled, found, Option.map_none]
      have none_ : tree key = none := by
        rw [found] at both
        exact Option.not_isSome_iff_eq_none.mp fun some_ => by simpa using both.mpr some_
      simp [nothing, none_]
  | some before =>
      rw [found] at both alike
      obtain ⟨put, isPut⟩ := Option.isSome_iff_exists.mp (both.mp rfl)
      have same := cuts key (by rw [found]; rfl)
      by_cases goes : key ∈ doomed
      · simp [goes, same.mp goes]
      · have settles : (entries.settled doomed key).isSome = true := by
          rw [settled, found, Option.map_some, Option.isSome_some]
        simp only [if_neg goes, if_neg fun cut_ => goes (same.mpr cut_)]
        refine ⟨iff_of_true settles (by rw [isPut, Option.isSome_some]), ?_⟩
        intro entry put there isPut
        exact alike_settled there found (alike before put rfl isPut)

theorem Tracks.insert {tree : Key → Option (SourceEntry γ μ δ)} (tracks : entries.Tracks tree)
    (entry : SourceEntry γ μ δ)
    : Tracks (entries.insert (.of entry.path) entry)
      fun key => if key = .of entry.path then some entry else tree key := by
  intro key
  rw [SortedMap.get?_insert]
  by_cases here : key = .of entry.path
  · simp only [if_pos here]
    refine ⟨trivial, fun first second isFirst isSecond => ?_⟩
    obtain rfl := Option.some.inj isFirst
    obtain rfl := Option.some.inj isSecond
    exact .refl entry
  · simp only [if_neg here]
    exact tracks key

/-- The names a removal takes out are those at its path and beneath it. -/
theorem mem_doomedBy {key above : Key}
    : key ∈ entries.doomedBy above
      ↔ (entries.get? key).isSome ∧ (key = above ∨ Beneath key above) := by
  unfold doomedBy
  rw [List.mem_append, mem_beneath]
  by_cases there : (entries.get? above).isSome
  · rw [if_pos there, List.mem_singleton]
    constructor
    · rintro (⟨some_, beneath⟩ | rfl)
      · exact ⟨some_, .inr beneath⟩
      · exact ⟨there, .inl rfl⟩
    · rintro ⟨some_, same | beneath⟩
      · exact .inr same
      · exact .inl ⟨some_, beneath⟩
  · rw [if_neg there]
    constructor
    · rintro (⟨some_, beneath⟩ | none_)
      · exact ⟨some_, .inr beneath⟩
      · exact absurd none_ List.not_mem_nil
    · rintro ⟨some_, rfl | beneath⟩
      · exact absurd some_ there
      · exact .inl ⟨some_, beneath⟩

/-- A step does to a composition what it does to the map the composition tracks. -/
theorem Tracks.take {tree : Key → Option (SourceEntry γ μ δ)} (tracks : entries.Tracks tree)
    {step : Step γ μ δ} (taken : entries.take step = .ok entries')
    : entries'.Tracks (refer tree step) := by
  rw [take_eq_ok taken]
  cases step with
  | put entry =>
      have cuts : ∀ key, (entries.get? key).isSome →
          (key ∈ entries.beneath (.of entry.path) ↔ Beneath key (.of entry.path)) :=
        fun key some_ => mem_beneath.trans (and_iff_right some_)
      have beneath := (tracks.dropNames cuts).insert entry
      obtain ⟨path, kind, metadata, xattrs, darwin⟩ := entry
      cases kind with
      | directory => exact tracks.insert _
      | _ => exact beneath
  | remove path =>
      exact tracks.dropNames fun key some_ => mem_doomedBy.trans (and_iff_right some_)

/-- A composition tracks its map and keeps its entries at their paths, by induction on the steps. -/
theorem compose_invariant {steps : List (Step γ μ δ)}
    {tree : Key → Option (SourceEntry γ μ δ)} (tracks : entries.Tracks tree)
    (keyed : entries.Keyed) (composed : steps.foldlM take entries = .ok entries')
    : entries'.Tracks (steps.foldl refer tree) ∧ entries'.Keyed := by
  induction steps generalizing entries tree with
  | nil =>
      obtain rfl := Except.ok.inj composed
      exact ⟨tracks, keyed⟩
  | cons step rest ih =>
      rw [List.foldlM_cons] at composed
      obtain ⟨middle, taken, composed⟩ := Checked.bind_eq_ok.mp composed
      exact ih (tracks.take taken) (keyed.take taken) composed

/-- A removal fails for the root, and where nothing is at its path or beneath it. -/
theorem remove_eq_error {path : Bytes} {error : RemovalError}
    : entries.remove path = .error error
      ↔ ((Key.of path).bytes = [] ∧ error = .root)
        ∨ ((Key.of path).bytes ≠ [] ∧ error = .notHeld path
          ∧ ∀ key, key = Key.of path ∨ Beneath key (Key.of path) → entries.get? key = none) := by
  have nothing : (entries.doomedBy (.of path)).isEmpty = true
      ↔ ∀ key, key = Key.of path ∨ Beneath key (Key.of path) → entries.get? key = none := by
    rw [List.isEmpty_iff, List.eq_nil_iff_forall_not_mem]
    refine forall_congr' fun key => ?_
    rw [mem_doomedBy, not_and, ← Option.not_isSome_iff_eq_none]
    exact ⟨fun outside inside some_ => outside some_ inside,
      fun outside some_ inside => outside inside some_⟩
  unfold remove
  dsimp only
  split
  next root =>
    have empty := List.isEmpty_iff.mp root
    simp only [Except.error.injEq, empty, true_and, ne_eq, not_true_eq_false, false_and, or_false]
    exact eq_comm
  next named =>
    have some_ : (Key.of path).bytes ≠ [] := fun empty => named (List.isEmpty_iff.mpr empty)
    rw [← nothing]
    split
    next none_ => simp [some_, none_, eq_comm]
    next held => simp [some_, held]

/-- A composition holds the paths a map of its layers does and what the map holds at each, links
aside; a removal fails for the root and for what is not held, and no other; and every step keeps
what the names that stay reach, but where the name it replaces is one a link's chain needs.
-/
theorem layers_composed
    : (∀ (steps : List (Step γ μ δ)) entries, compose steps = .ok entries →
        entries.Tracks (reference steps)
        ∧ ∀ step entries', entries.take step = .ok entries' →
          entries.Keeps entries' (step.dooms entries) step.replaced)
      ∧ ∀ (entries : Layered γ μ δ) path error, entries.remove path = .error error
        ↔ ((Key.of path).bytes = [] ∧ error = .root)
          ∨ ((Key.of path).bytes ≠ [] ∧ error = .notHeld path
            ∧ ∀ key, key = Key.of path ∨ Beneath key (Key.of path) → entries.get? key = none) := by
  refine ⟨fun steps entries composed => ?_, fun entries path error => remove_eq_error⟩
  have none_ (key : Key) : (SortedMap.empty : Layered γ μ δ).get? key = none := rfl
  have first : Tracks (SortedMap.empty : Layered γ μ δ) fun _ => none :=
    fun key => ⟨Iff.rfl, fun entry put there => by rw [none_] at there; cases there⟩
  have keys : Keyed (SortedMap.empty : Layered γ μ δ) :=
    fun key entry there => by rw [none_] at there; cases there
  obtain ⟨tracks, keyed⟩ := compose_invariant first keys composed
  exact ⟨tracks, fun step entries' taken => keyed.keeps_take taken⟩

section

/-- A step that takes names out loses no file but the one at the path it replaces. -/
def LosesNone (entries entries' : Layered γ μ δ) (doomed : List Key) (replaced : Option Key)
    : Prop :=
  doomed ≠ [] → ∀ key file, key ∉ doomed → replaced ≠ some key → replaced ≠ some file →
    entries.reaches key = some file →
    ∃ home, entries'.reaches key = some home ∧ entries'.held home = entries.held file

/-- `/a`, `/a/x` and `/b`, the first and the last links to the file between them. -/
def beneathLink : List (Step Nat Unit Unit) :=
  [.put ⟨[0x2F, 0x61], .hardLink [0x2F, 0x61, 0x2F, 0x78], (), [], none⟩,
    .put ⟨[0x2F, 0x61, 0x2F, 0x78], .file 1, (), [], none⟩,
    .put ⟨[0x2F, 0x62], .hardLink [0x2F, 0x61, 0x2F, 0x78], (), [], none⟩]

/-- `/a`, `/a/x`, `/b` and `/f`, where `/b` links to `/f` through `/a`. -/
def alongLink : List (Step Nat Unit Unit) :=
  [.put ⟨[0x2F, 0x61], .hardLink [0x2F, 0x66], (), [], none⟩,
    .put ⟨[0x2F, 0x61, 0x2F, 0x78], .file 3, (), [], none⟩,
    .put ⟨[0x2F, 0x62], .hardLink [0x2F, 0x61], (), [], none⟩,
    .put ⟨[0x2F, 0x66], .file 1, (), [], none⟩]

def composed (steps : List (Step Nat Unit Unit)) : Layered Nat Unit Unit :=
  (compose steps).toOption.getD .empty

/-- A file put over `/a`. -/
def overLink : SourceEntry Nat Unit Unit := ⟨[0x2F, 0x61], .file 2, (), [], none⟩

/-- A name that stays reaches a file that is not the one it reached. -/
theorem not_losesNone {steps : List (Step Nat Unit Unit)} (key file home : Key)
    (drops : (Step.put overLink).dooms (composed steps) ≠ [])
    (stays : key ∉ (Step.put overLink).dooms (composed steps))
    (key_ne : (Step.put overLink).replaced ≠ some key)
    (file_ne : (Step.put overLink).replaced ≠ some file)
    (before : (composed steps).reaches key = some file)
    (after : ((composed steps).put overLink).reaches key = some home)
    (differ : ((composed steps).put overLink).held home ≠ (composed steps).held file)
    : ¬(composed steps).LosesNone ((composed steps).put overLink)
      ((Step.put overLink).dooms (composed steps)) (Step.put overLink).replaced := by
  intro loses
  obtain ⟨home', reached, same⟩ := loses drops key file stays key_ne file_ne before
  rw [after, Option.some.injEq] at reached
  exact differ (reached ▸ same)

/-- A file is kept under `/a`, which the step then replaces, so `/b` holds the other file; and a
link through `/a` reaches what is put there.
-/
theorem layers_lose
    : (compose beneathLink = .ok (composed beneathLink)
        ∧ ¬(composed beneathLink).LosesNone ((composed beneathLink).put overLink)
          ((Step.put overLink).dooms (composed beneathLink)) (Step.put overLink).replaced)
      ∧ compose alongLink = .ok (composed alongLink)
        ∧ ¬(composed alongLink).LosesNone ((composed alongLink).put overLink)
          ((Step.put overLink).dooms (composed alongLink)) (Step.put overLink).replaced := by
  refine ⟨⟨rfl, ?_⟩, rfl, ?_⟩
  · exact not_losesNone ⟨[0x62]⟩ ⟨[0x61, 0x2F, 0x78]⟩ ⟨[0x61]⟩
      (by decide +kernel) (by decide +kernel) (by decide +kernel) (by decide +kernel)
      (by decide +kernel) (by decide +kernel) (by decide +kernel)
  · exact not_losesNone ⟨[0x62]⟩ ⟨[0x66]⟩ ⟨[0x61]⟩
      (by decide +kernel) (by decide +kernel) (by decide +kernel) (by decide +kernel)
      (by decide +kernel) (by decide +kernel) (by decide +kernel)

end

end Ferrosys.Layered
