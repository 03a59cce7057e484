import Ferrosys.Host.Sink.Log
import Mathlib.Data.List.TakeWhile

/-! The directories a run has open, as a chain down to the one the next entry goes into, and what a
step of a run does where an entry is placed.
-/

namespace Ferrosys.Host

open Effects

section

variable {ε : Type} {parent name path : Bytes}

/-- A name a directory can hold has no separator in it. -/
theorem slash_not_mem (fine : isHostileComponent name = false) : slash ∉ name := by
  intro member
  have holds : name.contains 0x2F = true := List.contains_iff_mem.mpr member
  simp only [isHostileComponent, Bool.or_eq_false_iff] at fine
  rw [fine.1.1.1.2] at holds
  cases holds

/-- A path is split at its last separator. -/
theorem split_child (bare : slash ∉ name)
    : split (ε := ε) (parent ++ slash :: name)
      = (checkName name (parent ++ slash :: name)).map fun _ => (parent, name) := by
  have taken : (parent ++ slash :: name).reverse.takeWhile (· != slash) = name.reverse := by
    rw [List.reverse_append, List.reverse_cons, List.append_assoc,
      List.takeWhile_append_of_pos (by
        intro byte member
        exact bne_iff_ne.mpr fun same => bare (same ▸ List.mem_reverse.mp member))]
    simp
  have dropped : (parent ++ slash :: name).reverse.dropWhile (· != slash)
      = slash :: parent.reverse := by
    rw [List.reverse_append, List.reverse_cons, List.append_assoc,
      List.dropWhile_append_of_pos (by
        intro byte member
        exact bne_iff_ne.mpr fun same => bare (same ▸ List.mem_reverse.mp member))]
    simp
  rw [split, dropped, taken]
  simp only [List.reverse_reverse]
  cases checkName (ε := ε) name (parent ++ slash :: name) <;> rfl

theorem checkName_eq_ok
    : checkName (ε := ε) name path = .ok () ↔ isHostileComponent name = false := by
  unfold checkName
  cases isHostileComponent name <;> simp

/-- A path with a separator has a last one. -/
theorem exists_split (separated : slash ∈ path)
    : ∃ front back, path = front ++ slash :: back ∧ slash ∉ back := by
  obtain ⟨back, front, same, bare⟩ := List.eq_append_cons_of_mem (List.mem_reverse.mpr separated)
  refine ⟨front.reverse, back.reverse, ?_, fun member => bare (List.mem_reverse.mp member)⟩
  have := congrArg List.reverse same
  simpa using this

theorem split_bare (bare : slash ∉ path) : split (ε := ε) path = .error (.hostileName path) := by
  have none_ : path.reverse.dropWhile (· != slash) = [] := by
    rw [List.dropWhile_eq_nil_iff]
    intro byte member
    exact bne_iff_ne.mpr fun same => bare (same ▸ List.mem_reverse.mp member)
  rw [split, none_]
  rfl

/-- What a path is split into makes it up, and the name is one a directory can hold. -/
theorem split_eq_ok (parts : split (ε := ε) path = .ok (parent, name))
    : path = parent ++ slash :: name ∧ isHostileComponent name = false := by
  by_cases separated : slash ∈ path
  · obtain ⟨front, back, rfl, bare⟩ := exists_split separated
    rw [split_child bare] at parts
    cases checked : checkName (ε := ε) back (front ++ slash :: back) with
    | error e =>
        rw [checked] at parts
        cases parts
    | ok done =>
        rw [checked] at parts
        cases parts
        exact ⟨rfl, checkName_eq_ok.mp checked⟩
  · rw [split_bare separated] at parts
    cases parts

theorem joined_append (first second : List Bytes)
    : joined (first ++ second) = joined first ++ joined second :=
  List.flatMap_append

theorem joined_snoc (names : List Bytes) (name : Bytes)
    : joined (names ++ [name]) = joined names ++ slash :: name := by
  rw [joined_append]
  simp [joined]

theorem intercalate_slash (first : Bytes) (rest : List Bytes)
    : [slash].intercalate (first :: rest) = first ++ joined rest := by
  induction rest generalizing first with
  | nil => simp [joined]
  | cons next rest ih =>
      rw [List.intercalate_cons_cons, ih]
      simp [joined]

/-- The components of a path made of names are the names. -/
theorem components_joined {names : List Bytes} (fine : ∀ n ∈ names, isHostileComponent n = false)
    : ((joined names).splitOn slash).filter (fun component => !component.isEmpty) = names := by
  have bare : ∀ n ∈ [] :: names, slash ∉ n := by
    intro n member
    rcases List.mem_cons.mp member with rfl | member
    · exact List.not_mem_nil
    · exact slash_not_mem (fine n member)
  have full : ∀ n ∈ names, (!n.isEmpty) = true := by
    intro n member
    have := fine n member
    simp only [isHostileComponent, Bool.or_eq_false_iff] at this
    rw [this.1.1.1.1]
    rfl
  have same : joined names = [slash].intercalate ([] :: names) := by
    rw [intercalate_slash, List.nil_append]
  rw [same, List.splitOn_intercalate slash bare (List.cons_ne_nil _ _),
    List.filter_cons_of_neg (by simp), List.filter_eq_self.mpr full]

end

/-- The directories a run has open, innermost first: each is the one below it and a name, down to
the destination itself, and its handle was opened by those names.
-/
inductive Stacked (log : List Event) : List OpenDir → List (Handle × Bytes) → Prop
  | root {dir : OpenDir} (path : dir.path = []) (opened : Opened log dir.fd [])
    : Stacked log [dir] []
  | push {dir below : OpenDir} {rest : List OpenDir} {trail : List (Handle × Bytes)} {name : Bytes}
    (stacked : Stacked log (below :: rest) trail)
    (path : dir.path = below.path ++ slash :: name) (fine : isHostileComponent name = false)
    (opened : Opened log dir.fd (trail ++ [(below.fd, name)]))
    : Stacked log (dir :: below :: rest) (trail ++ [(below.fd, name)])

/-- What a run rests on between two entries. -/
structure Ready {σ : Type} (s : Extraction σ) : Prop where
  kept : Kept s.log s.named (s.openDirs ++ s.held)
  stacked : ∃ trail, Stacked s.log s.openDirs trail

/-- The run has come to an entry: the directory its path is in is the innermost open one. -/
structure Placed {σ : Type} (name path : Bytes) (s : Extraction σ) : Prop where
  ready : Ready s
  fine : isHostileComponent name = false
  top : ∃ dir rest, s.openDirs = dir :: rest ∧ path = dir.path ++ slash :: name

/-- A step has left alone what a run keeps between entries. -/
structure Same {σ : Type} (s s' : Extraction σ) : Prop where
  openDirs : s'.openDirs = s.openDirs
  held : s'.held = s.held
  named : s'.named = s.named
  leftOut : s'.leftOut = s.leftOut
  grows : s.log <+: s'.log

/-- A call that names the entry at a place, and neither makes a directory nor a link there. -/
inductive Call.Names (dir : Handle) (name : Bytes) : Call → Prop
  | createat : Names dir name (.createat dir name)
  | symlinkat {target : Bytes} : Names dir name (.symlinkat target dir name)
  | mknodat {fileType : FileType} {mode major minor : Nat}
    : Names dir name (.mknodat dir name fileType mode major minor)
  | unlinkat : Names dir name (.unlinkat dir name)
  | set {nofollow : Bool} {setting : Setting}
    : Names dir name (.set (.name dir name nofollow) setting)
  | stat {nofollow : Bool} : Names dir name (.stat (.name dir name nofollow))

namespace Stacked

variable {log : List Event} {dir below : OpenDir} {rest openDirs : List OpenDir}
  {trail : List (Handle × Bytes)}

theorem grown (stacked : Stacked log openDirs trail) (more : List Event)
    : Stacked (log ++ more) openDirs trail := by
  induction stacked with
  | root path opened => exact .root path (opened.grown more)
  | push _ path fine opened ih => exact .push ih path fine (opened.grown more)

theorem below_ (stacked : Stacked log (dir :: below :: rest) trail)
    : ∃ trail, Stacked log (below :: rest) trail := by
  cases stacked with
  | push stacked _ _ _ => exact ⟨_, stacked⟩

/-- The innermost directory's path is the names its handle was opened by, each one a directory can
hold, and the handles it was opened through are those of the directories below it.
-/
theorem top (stacked : Stacked log (dir :: rest) trail)
    : Opened log dir.fd trail ∧ dir.path = joined (trail.map Prod.snd)
      ∧ (∀ n ∈ trail.map Prod.snd, isHostileComponent n = false)
      ∧ ∀ fd ∈ dir.fd :: trail.map Prod.fst, fd ∈ (dir :: rest).map OpenDir.fd := by
  induction rest generalizing dir trail with
  | nil =>
      cases stacked with
      | root path opened =>
          refine ⟨opened, path, ?_, fun fd member => member⟩
          intro n member
          cases member
  | cons below rest ih =>
      cases stacked with
      | push stacked path fine opened =>
          obtain ⟨_, path_eq, names, handles⟩ := ih stacked
          refine ⟨opened, ?_, ?_, ?_⟩
          · rw [path, path_eq, List.map_append, List.map_singleton, joined_snoc]
          · intro n member
            rw [List.map_append, List.mem_append] at member
            rcases member with member | member
            · exact names n member
            · rw [List.mem_singleton.mp member]
              exact fine
          · intro fd member
            rw [List.map_cons]
            rcases List.mem_cons.mp member with rfl | member
            · exact List.mem_cons_self
            · refine List.mem_cons_of_mem _ ?_
              rw [List.map_append, List.mem_append] at member
              rcases member with member | member
              · exact handles fd (List.mem_cons_of_mem _ member)
              · rw [List.mem_singleton.mp member]
                exact List.mem_cons_self

end Stacked

namespace Same

variable {σ : Type} {s s' s'' : Extraction σ}

theorem refl (s : Extraction σ) : Same s s := ⟨rfl, rfl, rfl, rfl, List.prefix_rfl⟩

theorem trans (first : Same s s') (second : Same s' s'') : Same s s'' :=
  ⟨second.openDirs.trans first.openDirs, second.held.trans first.held,
    second.named.trans first.named, second.leftOut.trans first.leftOut,
    first.grows.trans second.grows⟩

/-- The run makes a call. -/
theorem called (s : Extraction σ) (event : Event) : Same s { s with log := s.log ++ [event] } :=
  ⟨rfl, rfl, rfl, rfl, List.prefix_append _ _⟩

end Same

namespace Placed

variable {σ : Type} {name path : Bytes} {s s' : Extraction σ}

/-- What was read and reported is nothing a place rests on. -/
theorem of_same (placed : Placed name path s) (same : Same s s') (log : s'.log = s.log)
    : Placed name path s' := by
  refine ⟨⟨?_, ?_⟩, placed.fine, ?_⟩
  · rw [log, same.named, same.openDirs, same.held]
    exact placed.ready.kept
  · rw [log, same.openDirs]
    exact placed.ready.stacked
  · rw [same.openDirs]
    exact placed.top

theorem stopped (placed : Placed name path s) : Stopped s.log := placed.ready.kept.stopped

/-- The entry's name in the innermost open directory is what its path names. -/
theorem into (placed : Placed name path s) : ∃ trail, Into s.log s.dir name path trail := by
  obtain ⟨dir, rest, open_, path_eq⟩ := placed.top
  obtain ⟨trail, stacked⟩ := placed.ready.stacked
  rw [open_] at stacked
  obtain ⟨opened, dirPath, names, handles⟩ := stacked.top
  have here : s.dir = dir.fd := by
    rw [Extraction.dir, open_]
    rfl
  refine ⟨trail, here ▸ opened, ?_, ?_, ?_⟩
  · rw [path_eq, dirPath, joined_snoc]
  · intro n member
    rcases List.mem_append.mp member with member | member
    · exact names n member
    · rw [List.mem_singleton.mp member]
      exact placed.fine
  · intro fd member
    rw [here] at member
    obtain ⟨other, there, rfl⟩ := List.mem_map.mp (handles fd member)
    exact placed.ready.kept.unset other (List.mem_append_left _ (open_ ▸ there))

/-- A call that finishes no directory leaves the run where it is. -/
theorem called (placed : Placed name path s) {event : Event} (plain : Plain s.log event)
    : Placed name path { s with log := s.log ++ [event] } := by
  refine ⟨⟨placed.ready.kept.snoc plain, ?_⟩, placed.fine, placed.top⟩
  obtain ⟨trail, stacked⟩ := placed.ready.stacked
  exact ⟨trail, stacked.grown _⟩

/-- A call that names the entry finishes no directory. -/
theorem names (placed : Placed name path s) {c : Call} (names : c.Names s.dir name)
    (answer : Except Errno Answer) : Plain s.log ⟨path, c, answer⟩ := by
  have into := placed.into
  have fills : ∀ e : Event, e.call = c → ¬ e.Fills := by
    rintro e same ⟨_, filled | ⟨_, _, filled⟩⟩ <;> rw [same] at filled <;> cases names <;>
      cases filled
  refine ⟨⟨?_, fills _ rfl, ?_⟩, ?_⟩
  · cases names <;> exact into
  · intro fd _
    cases names <;> rfl
  · rintro path' dir name' answer' same
    cases names <;> cases same

end Placed

/-- What a call sets, whatever it sets it of. -/
def Event.setting (event : Event) : Option Setting :=
  match event.call with
  | .set _ setting => some setting
  | _ => none

/-- A call sets or looks at what is aimed at, for a path. -/
structure Event.At (path : Bytes) (aims : Target → Prop) (event : Event) : Prop where
  path_eq : event.path = path
  aimed : ∃ target, aims target
    ∧ ((∃ setting, event.call = .set target setting) ∨ event.call = .stat target)

/-- An error is not that an entry arrived before the directory that holds it. -/
def HostError.InOrder {ε : Type} : HostError ε → Prop
  | .outOfOrder _ => False
  | _ => True

/-- Between two states of a run these have been set of what is aimed at, and nothing else done. -/
structure Touched {σ : Type} (path : Bytes) (aims : Target → Prop) (s s' : Extraction σ)
    (list : List Setting) : Prop where
  same : Same s s'
  calls : ∃ new, s'.log = s.log ++ new ∧ (∀ event ∈ new, event.At path aims)
    ∧ new.filterMap Event.setting = list

/-- A step sets these of what is aimed at, or the first of them where the run stops. -/
def Touches {σ ε α : Type} (path : Bytes) (aims : Target → Prop) (m : Run σ ε α)
    (list : List Setting) : Prop :=
  ∀ s, Ends m s (fun _ s' => Touched path aims s s' list)
    fun e s' => e.InOrder ∧ ∃ part, part <+: list ∧ Touched path aims s s' part

/-- A step makes no call, and leaves alone what a run keeps between entries. -/
def Quiet {σ ε α : Type} (m : Run σ ε α) : Prop :=
  ∀ s, Ends m s (fun _ s' => Same s s' ∧ s'.log = s.log)
    fun e s' => e.InOrder ∧ Same s s' ∧ s'.log = s.log

section

variable {σ ε α β : Type} {path name : Bytes} {aims : Target → Prop} {list list' : List Setting}

theorem Touched.trans {s s' s'' : Extraction σ} (first : Touched path aims s s' list)
    (second : Touched path aims s' s'' list') : Touched path aims s s'' (list ++ list') := by
  obtain ⟨new, grown, at_, set_⟩ := first.calls
  obtain ⟨new', grown', at_', set_'⟩ := second.calls
  refine ⟨first.same.trans second.same, new ++ new', ?_, ?_, ?_⟩
  · rw [grown', grown, List.append_assoc]
  · intro event member
    rcases List.mem_append.mp member with member | member
    · exact at_ event member
    · exact at_' event member
  · rw [List.filterMap_append, set_, set_']

theorem Touches.bind {m : Run σ ε β} {rest : β → Run σ ε α} (first : Touches path aims m list)
    (second : ∀ b, Touches path aims (rest b) list')
    : Touches path aims (m >>= rest) (list ++ list') := by
  intro s
  refine ends_bind.mpr ((first s).mono ?_ ?_)
  · intro b s' touched
    refine (second b s').mono (fun _ _ touched' => touched.trans touched') ?_
    rintro _ s'' ⟨other, part, begins, touched'⟩
    exact ⟨other, list ++ part, (List.prefix_append_right_inj list).mpr begins,
      touched.trans touched'⟩
  · rintro _ s' ⟨other, part, begins, touched⟩
    exact ⟨other, part, begins.trans (List.prefix_append _ _), touched⟩

/-- Steps in a row, what they set told together. -/
theorem Touches.seq {m : Run σ ε β} {rest : β → Run σ ε α} {list'' : List Setting}
    (first : Touches path aims m list) (second : ∀ b, Touches path aims (rest b) list')
    (together : list ++ list' = list'') : Touches path aims (m >>= rest) list'' :=
  together ▸ first.bind second

theorem Touched.none {s s' : Extraction σ} (same : Same s s') (log : s'.log = s.log)
    : Touched path aims s s' [] :=
  ⟨same, [], by rw [log, List.append_nil], fun _ member => absurd member List.not_mem_nil, rfl⟩

theorem Quiet.touches {m : Run σ ε α} (quiet : Quiet m) : Touches path aims m [] := fun s =>
  (quiet s).mono (fun _ _ still => .none still.1 still.2)
    fun _ _ still => ⟨still.1, [], List.prefix_rfl, .none still.2.1 still.2.2⟩

theorem quiet_pure (a : α) : Quiet (pure a : Run σ ε α) := fun s => ⟨.refl s, rfl⟩

theorem quiet_throw {e : HostError ε} (other : e.InOrder) : Quiet (throw e : Run σ ε α) := fun s =>
  ⟨other, .refl s, rfl⟩

theorem quiet_modify {f : Extraction σ → Extraction σ}
    (only : ∀ s, Same s (f s) ∧ (f s).log = s.log) : Quiet (modify f : Run σ ε PUnit) :=
  only

theorem quiet_ite {c : Prop} [Decidable c] {yes no : Run σ ε α} (first : Quiet yes)
    (second : Quiet no) : Quiet (if c then yes else no) := fun s =>
  ends_ite (fun _ => first s) fun _ => second s

theorem Quiet.bind {m : Run σ ε β} {rest : β → Run σ ε α} (first : Quiet m)
    (second : ∀ b, Quiet (rest b)) : Quiet (m >>= rest) := by
  intro s
  refine ends_bind.mpr ((first s).mono (fun b s' done => ?_) fun _ _ fails => fails)
  obtain ⟨same, log⟩ := done
  exact (second b s').mono (fun _ _ done => ⟨same.trans done.1, done.2.trans log⟩)
    fun _ _ failed => ⟨failed.1, same.trans failed.2.1, failed.2.2.trans log⟩

theorem quiet_noteSkipped : Quiet (noteSkipped path : Run σ ε Unit) :=
  quiet_modify fun s => by
    split <;> exact ⟨⟨rfl, rfl, rfl, rfl, List.prefix_rfl⟩, rfl⟩

theorem quiet_noteTimeNotHeld : Quiet (noteTimeNotHeld path : Run σ ε Unit) :=
  quiet_modify fun s => by
    split <;> exact ⟨⟨rfl, rfl, rfl, rfl, List.prefix_rfl⟩, rfl⟩

theorem quiet_noteDroppedXattr : Quiet (noteDroppedXattr name : Run σ ε Unit) :=
  quiet_modify fun s => by
    split
    · exact ⟨.refl s, rfl⟩
    · split <;> exact ⟨⟨rfl, rfl, rfl, rfl, List.prefix_rfl⟩, rfl⟩

theorem quiet_noteSynthesis {attrs : Attributes}
    : Quiet (noteSynthesis attrs path : Run σ ε Unit) :=
  quiet_modify fun _ => ⟨⟨rfl, rfl, rfl, rfl, List.prefix_rfl⟩, rfl⟩

theorem quiet_countWritten : Quiet (countWritten : Run σ ε Unit) :=
  quiet_modify fun _ => ⟨⟨rfl, rfl, rfl, rfl, List.prefix_rfl⟩, rfl⟩

theorem quiet_readTree {read : σ → Except ε (α × σ)} : Quiet (readTree read) := by
  intro s
  simp only [readTree, ends_bind, ends_get]
  cases read s.reader with
  | ok result => exact ⟨⟨rfl, rfl, rfl, rfl, List.prefix_rfl⟩, rfl⟩
  | error e => exact ⟨trivial, .refl s, rfl⟩

variable {sink : DirectorySink} {metadata : Metadata} {answer : Answer}
  {result : Except Errno Answer}

theorem quiet_refusedName {e : Errno} {what : String}
    : Quiet (refusedName sink e path what : Run σ ε Unit) :=
  quiet_ite (quiet_throw trivial) (quiet_ite (quiet_throw trivial) quiet_noteSkipped)

theorem quiet_noteFlags {ν : Type} {tree : HostTree σ ν ε} {node : ν}
    : Quiet (noteFlags sink tree node path : Run σ ε Unit) :=
  quiet_readTree.bind fun _ => quiet_ite (quiet_pure ()) (quiet_ite (quiet_throw trivial)
    (quiet_modify fun _ => ⟨⟨rfl, rfl, rfl, rfl, List.prefix_rfl⟩, rfl⟩))

theorem quiet_tookOwnership : Quiet (tookOwnership sink result path : Run σ ε Unit) := by
  have refused : ∀ what, Quiet (if sink.skipPrivileged = false then throw (.unprivileged path what)
      else modify fun self => { self with report.ownershipDropped := true } : Run σ ε Unit) :=
    fun _ => quiet_ite (quiet_throw trivial)
      (quiet_modify fun _ => ⟨⟨rfl, rfl, rfl, rfl, List.prefix_rfl⟩, rfl⟩)
  cases result with
  | ok _ => exact quiet_pure ()
  | error e => exact quiet_ite (refused _) (quiet_ite (refused _) (quiet_throw trivial))

theorem quiet_tookXattr {opened : Bool}
    : Quiet (tookXattr sink result path name opened : Run σ ε Unit) := by
  have unheld : ∀ why, Quiet (if sink.skipUnsupported = false then
      throw (.unsupportedAttribute path name why) else noteDroppedXattr name : Run σ ε Unit) :=
    fun _ => quiet_ite (quiet_throw trivial) quiet_noteDroppedXattr
  cases result with
  | ok _ => exact quiet_pure ()
  | error e =>
      exact quiet_ite
        (quiet_ite (unheld _) (quiet_ite (quiet_throw trivial) quiet_noteDroppedXattr))
        (quiet_ite (unheld _) (quiet_ite (unheld _) (quiet_throw trivial)))

theorem quiet_tookTimes : Quiet (tookTimes sink metadata answer path : Run σ ε Unit) := by
  have unheld : ∀ which recorded held, Quiet (if sink.skipUnsupported = false then
      throw (.timeNotHeld path which recorded held) else noteTimeNotHeld path : Run σ ε Unit) :=
    fun _ _ _ => quiet_ite (quiet_throw trivial) quiet_noteTimeNotHeld
  exact quiet_ite (unheld _ _ _) (quiet_ite (unheld _ _ _) (quiet_pure ()))

variable {target : Target} {setting : Setting}

theorem Event.At.set (aimed : aims target) (result : Except Errno Answer)
    : Event.At path aims ⟨path, .set target setting, result⟩ :=
  ⟨rfl, target, aimed, .inl ⟨setting, rfl⟩⟩

theorem Event.At.stat (aimed : aims target) (result : Except Errno Answer)
    : Event.At path aims ⟨path, .stat target, result⟩ :=
  ⟨rfl, target, aimed, .inr rfl⟩

theorem Touched.called {s : Extraction σ} {event : Event} (at_ : event.At path aims)
    : Touched path aims s { s with log := s.log ++ [event] } event.setting.toList := by
  refine ⟨.called s event, [event], rfl, ?_, ?_⟩
  · intro other member
    exact List.mem_singleton.mp member ▸ at_
  · cases same : event.setting with
    | none => rw [List.filterMap_cons_none same, List.filterMap_nil, Option.toList_none]
    | some setting => rw [List.filterMap_cons_some same, List.filterMap_nil, Option.toList_some]

theorem touches_set (aimed : aims target)
    : Touches path aims (call sink path (.set target setting) : Run σ ε _) [setting] := fun s =>
  Touched.called (.set aimed (sink.destination s.log (.set target setting)))

theorem touches_performSet (aimed : aims target)
    : Touches path aims (perform sink path (.set target setting) : Run σ ε _) [setting] :=
  (touches_set aimed).bind fun result => by
    cases result with
    | ok answer => exact (quiet_pure answer).touches
    | error e => exact Quiet.touches (quiet_throw trivial)

theorem touches_performStat (aimed : aims target)
    : Touches path aims (perform sink path (.stat target) : Run σ ε _) [] := by
  refine @Touches.bind _ _ _ _ _ _ [] [] _ _ (fun s => ?_) fun result => ?_
  · exact Touched.called (.stat aimed (sink.destination s.log (.stat target)))
  · cases result with
    | ok answer => exact (quiet_pure answer).touches
    | error e => exact Quiet.touches (quiet_throw trivial)

theorem touches_chown (aimed : aims target)
    : Touches path aims (chown sink target metadata path : Run σ ε Unit)
      [.owner metadata.uid metadata.gid] := by
  rw [chown, ownerOf]
  by_cases none_ : metadata.uid = 2 ^ 32 - 1 ∨ metadata.gid = 2 ^ 32 - 1
  · rw [if_pos none_]
    exact fun s => ⟨trivial, [], List.nil_prefix, .none (.refl s) rfl⟩
  · rw [if_neg none_]
    change Touches path aims (call sink path (.set target (.owner metadata.uid metadata.gid))
      >>= fun result => tookOwnership sink result path) _
    exact (touches_set aimed).seq (fun _ => quiet_tookOwnership.touches) (List.append_nil _)

/-- Extended attributes are set in order, by induction on them. -/
theorem touches_setXattrs (aimed : aims target) (opened : Bool) (xattrs : List Xattr)
    : Touches path aims (setXattrs sink target opened path xattrs : Run σ ε Unit)
      (xattrs.map fun xattr => .xattr xattr.name xattr.value) := by
  induction xattrs with
  | nil => exact (quiet_pure ()).touches
  | cons xattr rest ih =>
      exact (touches_set aimed).bind fun _ =>
        Touches.bind quiet_tookXattr.touches fun _ => ih

/-- Finishing what is open sets what is to be set, in order. -/
theorem touches_finishFd (fd : Handle) (metadata : Metadata) (xattrs : List Xattr)
    : Touches path (· = .handle fd) (finishFd sink fd metadata xattrs path : Run σ ε Unit)
      (finishing metadata xattrs) := by
  refine Touches.seq (touches_chown rfl) (fun _ => ?_) rfl
  refine Touches.seq (touches_performSet rfl) (fun _ => ?_) rfl
  refine Touches.seq (touches_setXattrs (by rfl) true xattrs) (fun _ => ?_) rfl
  refine Touches.seq (touches_performSet rfl) (fun _ => ?_) (List.append_nil _)
  exact Touches.seq (touches_performStat rfl) (fun _ => quiet_tookTimes.touches) rfl

/-- Finishing a name looks at that name and sets things of it. -/
theorem touches_finishName {dir : Handle} (name : Bytes) (metadata : Metadata)
    (xattrs : List Xattr) (symlink : Bool) (s : Extraction σ) (here : s.dir = dir)
    : Ends (finishName sink name metadata xattrs path symlink : Run σ ε Unit) s
      (fun _ s' => ∃ list, Touched path (∃ nofollow, · = .name dir name nofollow) s s' list)
      fun e s' => e.InOrder
        ∧ ∃ list, Touched path (∃ nofollow, · = .name dir name nofollow) s s' list := by
  have run : ∃ list, Touches path (∃ nofollow, · = .name dir name nofollow)
      (do
        chown sink (.name dir name symlink) metadata path
        if symlink = false then
          let _ ← perform sink path (.set (.name dir name false) (.mode (modeOf metadata)))
        setXattrs sink (.name dir name true) false path xattrs
        let _ ← perform sink path
          (.set (.name dir name symlink) (.times (instant metadata.atime) (instant metadata.mtime)))
        let held ← perform sink path (.stat (.name dir name symlink))
        tookTimes sink metadata held path : Run σ ε Unit) list := by
    cases symlink with
    | true =>
        refine ⟨[.owner metadata.uid metadata.gid]
          ++ (xattrs.map (fun xattr => .xattr xattr.name xattr.value)
            ++ [.times (instant metadata.atime) (instant metadata.mtime)]), ?_⟩
        refine Touches.seq (touches_chown ⟨true, rfl⟩) (fun _ => ?_) rfl
        refine Touches.seq (touches_setXattrs ⟨true, rfl⟩ false xattrs) (fun _ => ?_) rfl
        refine Touches.seq (touches_performSet ⟨true, rfl⟩) (fun _ => ?_) (List.append_nil _)
        exact Touches.seq (touches_performStat ⟨true, rfl⟩) (fun _ => quiet_tookTimes.touches) rfl
    | false =>
        refine ⟨finishing metadata xattrs, ?_⟩
        refine Touches.seq (touches_chown ⟨false, rfl⟩) (fun _ => ?_) rfl
        refine Touches.seq (touches_performSet ⟨false, rfl⟩) (fun _ => ?_) rfl
        refine Touches.seq (touches_setXattrs ⟨true, rfl⟩ false xattrs) (fun _ => ?_) rfl
        refine Touches.seq (touches_performSet ⟨false, rfl⟩) (fun _ => ?_) (List.append_nil _)
        exact Touches.seq (touches_performStat ⟨false, rfl⟩) (fun _ => quiet_tookTimes.touches) rfl
  obtain ⟨list, touches⟩ := run
  subst here
  refine (touches s).mono (fun _ _ touched => ⟨list, touched⟩) ?_
  rintro _ s' ⟨other, part, _, touched⟩
  exact ⟨other, part, touched⟩

end

end Ferrosys.Host
