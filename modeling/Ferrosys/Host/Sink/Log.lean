import Ferrosys.Host.Sink
import Mathlib.Data.List.Induction
import Mathlib.Data.List.Nodup

/-! What the calls of an extraction may be: where each of them lands is told from the calls before
it, and so is how far every directory is finished.
-/

namespace Ferrosys.Host

/-- Names as a path, a separator before each. -/
def joined (names : List Bytes) : Bytes := names.flatMap (slash :: ·)

/-- A handle was opened from the destination by these names in turn, each in the directory of the
handle beside it.
-/
inductive Opened (log : List Event) : Handle → List (Handle × Bytes) → Prop
  | root {fd : Handle} {path : Bytes} {traverse : Bool} {answer : Answer}
    (at_ : log[fd]? = some ⟨path, .openRoot traverse, .ok answer⟩) : Opened log fd []
  | child {fd dir : Handle} {path name : Bytes} {traverse : Bool} {answer : Answer}
    {trail : List (Handle × Bytes)}
    (at_ : log[fd]? = some ⟨path, .openat dir name traverse, .ok answer⟩)
    (above : Opened log dir trail) : Opened log fd (trail ++ [(dir, name)])

namespace Event

/-- What a call sets of an open handle. -/
def sets (fd : Handle) (event : Event) : Option Setting :=
  match event.call with
  | .set (.handle fd') setting => if fd' = fd then some setting else none
  | _ => none

/-- A call opened a directory to be filled. -/
def Fills (event : Event) : Prop :=
  (∃ answer, event.answer = .ok answer)
  ∧ (event.call = .openRoot false ∨ ∃ dir name, event.call = .openat dir name false)

/-- A call made a node that stands after those that followed: a device node was read back as the
device that was asked for.
-/
def Stands (event : Event) (after : List Event) : Prop :=
  (∃ answer, event.answer = .ok answer)
  ∧ match event.call with
    | .mkdirat .. | .createat .. | .symlinkat .. => True
    | .mknodat dir name fileType _ major minor =>
        fileType.isDevice = true
        → ∃ answer, after.head? = some ⟨event.path, .stat (.name dir name true), .ok answer⟩
            ∧ answer.rdev = (major, minor)
    | _ => False

/-- A call sets or looks at an open handle and does nothing else. -/
def Only (fd : Handle) (event : Event) : Prop :=
  (∃ setting, event.call = .set (.handle fd) setting) ∨ event.call = .stat (.handle fd)

end Event

/-- Everything that has been set of an open handle, in order. -/
def settings (log : List Event) (fd : Handle) : List Setting := log.filterMap (Event.sets fd)

/-- The handle is of a directory that was opened to be filled. -/
def Filling (log : List Event) (fd : Handle) : Prop := ∃ event, log[fd]? = some event ∧ event.Fills

/-- The path is one this extraction has written a node at. -/
def Wrote (log : List Event) (path : Bytes) : Prop :=
  ∃ before event after, log = before ++ event :: after ∧ event.path = path ∧ event.Stands after

/-- A name in an open directory is what a path names: the directory is the path's parent, every
name down to it is one a directory can hold, and nothing above it is finished in any part.
-/
structure Into (log : List Event) (dir : Handle) (name path : Bytes)
    (trail : List (Handle × Bytes)) : Prop where
  opened : Opened log dir trail
  path_eq : path = joined (trail.map Prod.snd ++ [name])
  fine : ∀ n ∈ trail.map Prod.snd ++ [name], isHostileComponent n = false
  unfinished : ∀ fd ∈ dir :: trail.map Prod.fst, settings log fd = []

/-- A call may be made after these: one that names something is through the handle of the directory
its path is in, a directory opened to be filled is the one just made, a link is to a name that this
extraction has written, and what is set of a handle is set of such a directory or of the file made
at the path.
-/
def Allowed (log : List Event) (event : Event) : Prop :=
  match event.call with
  | .openRoot _ => True
  | .set (.handle fd) _ | .stat (.handle fd) =>
      Filling log fd
      ∨ ∃ dir name answer, log[fd]? = some ⟨event.path, .createat dir name, .ok answer⟩
  | .openat dir name true => (∃ trail, Opened log dir trail) ∧ isHostileComponent name = false
  | .openat dir name false =>
      (∃ trail, Into log dir name event.path trail)
      ∧ ∃ answer, log.getLast? = some ⟨event.path, .mkdirat dir name, .ok answer⟩
  | .mkdirat dir name | .createat dir name | .symlinkat _ dir name | .mknodat dir name ..
  | .unlinkat dir name | .set (.name dir name _) _ | .stat (.name dir name _) =>
      ∃ trail, Into log dir name event.path trail
  | .linkat source first dir name =>
      (∃ trail, Into log dir name event.path trail)
      ∧ ∃ trail, Opened log source trail ∧ Wrote log (joined (trail.map Prod.snd ++ [first]))
  | .writeAll file _ =>
      ∃ dir name answer, log[file]? = some ⟨event.path, .createat dir name, .ok answer⟩

/-- Every call was one that might be made when it was. -/
def Sound (log : List Event) : Prop :=
  ∀ before event after, log = before ++ event :: after → Allowed before event

/-- A directory that was made was then opened. -/
def Made (log : List Event) : Prop :=
  ∀ i path dir name answer, log[i]? = some ⟨path, .mkdirat dir name, .ok answer⟩
    → ∃ answer', log[i + 1]? = some ⟨path, .openat dir name false, .ok answer'⟩

/-- What finishing a node sets of it, in order. -/
def finishing (metadata : Metadata) (xattrs : List Xattr) : List Setting :=
  .owner metadata.uid metadata.gid
    :: .mode (modeOf metadata)
    :: (xattrs.map (fun xattr => .xattr xattr.name xattr.value)
      ++ [.times (instant metadata.atime) (instant metadata.mtime)])

/-- A directory has been finished once, and nothing else has been set of it. -/
def Finished (log : List Event) (fd : Handle) : Prop :=
  ∃ metadata xattrs, settings log fd = finishing metadata xattrs

/-- A directory has been finished in part at most, and only once. -/
def Begun (log : List Event) (fd : Handle) : Prop :=
  ∃ metadata xattrs, settings log fd <+: finishing metadata xattrs

section

variable {log more : List Event} {event : Event} {fd : Handle} {trail : List (Handle × Bytes)}
  {path name : Bytes} {i : Nat}

/-- A call stays where it is when others follow. -/
theorem getElem?_grown (at_ : log[i]? = some event) (more : List Event)
    : (log ++ more)[i]? = some event := by
  rw [List.getElem?_append_left (List.getElem?_eq_some_iff.mp at_).1, at_]

theorem Opened.grown (opened : Opened log fd trail) (more : List Event)
    : Opened (log ++ more) fd trail := by
  induction opened with
  | root at_ => exact .root (getElem?_grown at_ more)
  | child at_ _ ih => exact .child (getElem?_grown at_ more) ih

theorem Filling.grown (filling : Filling log fd) (more : List Event)
    : Filling (log ++ more) fd := by
  obtain ⟨event, at_, fills⟩ := filling
  exact ⟨event, getElem?_grown at_ more, fills⟩

theorem Event.Stands.grown {after : List Event} (stands : event.Stands after) (more : List Event)
    : event.Stands (after ++ more) := by
  refine ⟨stands.1, ?_⟩
  have standing := stands.2
  split at standing
  · trivial
  · trivial
  · trivial
  · intro device
    obtain ⟨answer, next, same⟩ := standing device
    refine ⟨answer, ?_, same⟩
    rw [List.head?_append, next]
    rfl
  · exact standing

theorem Wrote.grown (wrote : Wrote log path) (more : List Event) : Wrote (log ++ more) path := by
  obtain ⟨before, event, after, rfl, same, stands⟩ := wrote
  exact ⟨before, event, after ++ more, by simp, same, stands.grown more⟩

theorem settings_append (log more : List Event) (fd : Handle)
    : settings (log ++ more) fd = settings log fd ++ settings more fd :=
  List.filterMap_append

/-- Nothing more is set of a handle that no later call sets. -/
theorem settings_grown (quiet : ∀ event ∈ more, event.sets fd = none)
    : settings (log ++ more) fd = settings log fd := by
  rw [settings_append, settings, settings, List.filterMap_eq_nil_iff.mpr quiet, List.append_nil]

/-- A directory that is filled in a longer run of calls was opened before or by the last of them. -/
theorem Filling.of_snoc (filling : Filling (log ++ [event]) fd)
    : Filling log fd ∨ fd = log.length ∧ event.Fills := by
  obtain ⟨found, at_, fills⟩ := filling
  rcases Nat.lt_trichotomy fd log.length with before | same | beyond
  · rw [List.getElem?_append_left before] at at_
    exact .inl ⟨found, at_, fills⟩
  · subst same
    rw [List.getElem?_concat_length] at at_
    obtain rfl := Option.some.inj at_
    exact .inr ⟨rfl, fills⟩
  · rw [List.getElem?_eq_none (by rw [List.length_append, List.length_singleton]; omega)] at at_
    cases at_

theorem Sound.snoc (sound : Sound log) (allowed : Allowed log event) : Sound (log ++ [event]) := by
  intro before found after same
  rcases after.eq_nil_or_concat with rfl | ⟨init, last, rfl⟩
  · obtain ⟨rfl, ended⟩ := List.append_inj' same rfl
    obtain rfl := List.singleton_inj.mp ended
    exact allowed
  · refine sound before found init ?_
    rw [List.concat_eq_append, ← List.cons_append, ← List.append_assoc] at same
    exact (List.append_inj' same rfl).1

/-- A place stays one while nothing is set of what is above it. -/
theorem Into.grown {dir : Handle} (into : Into log dir name path trail)
    (quiet : ∀ event ∈ more, ∀ fd ∈ dir :: trail.map Prod.fst, event.sets fd = none)
    : Into (log ++ more) dir name path trail :=
  ⟨into.opened.grown more, into.path_eq, into.fine, fun fd member => by
    rw [settings_grown fun event there => quiet event there fd member]
    exact into.unfinished fd member⟩

theorem Made.snoc (made : Made log)
    (other : ∀ path dir name answer, event ≠ ⟨path, .mkdirat dir name, .ok answer⟩)
    : Made (log ++ [event]) := by
  intro i path dir name answer at_
  by_cases before : i < log.length
  · rw [List.getElem?_append_left before] at at_
    obtain ⟨answer', next⟩ := made i path dir name answer at_
    exact ⟨answer', getElem?_grown next [event]⟩
  · have last : i < (log ++ [event]).length := (List.getElem?_eq_some_iff.mp at_).1
    rw [List.length_append, List.length_singleton] at last
    obtain rfl : i = log.length := by omega
    rw [List.getElem?_concat_length] at at_
    exact absurd (Option.some.inj at_) (other path dir name answer)

/-- A directory is made and opened by two calls in a row. -/
theorem Made.snoc_opened {dir : Handle} {answer answer' : Answer} (made : Made log)
    : Made (log ++ [⟨path, .mkdirat dir name, .ok answer⟩]
        ++ [⟨path, .openat dir name false, .ok answer'⟩]) := by
  intro i path' dir' name' answer'' at_
  by_cases before : i < log.length
  · rw [List.append_assoc, List.getElem?_append_left before] at at_
    obtain ⟨answer₀, next⟩ := made i path' dir' name' answer'' at_
    exact ⟨answer₀, getElem?_grown (getElem?_grown next _) _⟩
  · have last := (List.getElem?_eq_some_iff.mp at_).1
    simp only [List.length_append, List.length_singleton] at last
    rcases (by omega : i = log.length ∨ i = log.length + 1) with rfl | rfl
    · have here := getElem?_grown (List.getElem?_concat_length (l := log)
        (a := (⟨path, .mkdirat dir name, .ok answer⟩ : Event)))
        [⟨path, .openat dir name false, .ok answer'⟩]
      rw [here] at at_
      cases at_
      refine ⟨answer', ?_⟩
      have next := List.getElem?_concat_length
        (l := log ++ [(⟨path, .mkdirat dir name, .ok answer⟩ : Event)])
        (a := (⟨path, .openat dir name false, .ok answer'⟩ : Event))
      rwa [List.length_append, List.length_singleton] at next
    · have next := List.getElem?_concat_length
        (l := log ++ [(⟨path, .mkdirat dir name, .ok answer⟩ : Event)])
        (a := (⟨path, .openat dir name false, .ok answer'⟩ : Event))
      rw [List.length_append, List.length_singleton] at next
      rw [next] at at_
      cases at_

end

/-- A run that has been stopped: its calls were allowed, and it finished no directory twice. -/
structure Stopped (log : List Event) : Prop where
  sound : Sound log
  begun : ∀ fd, Filling log fd → Begun log fd

/-- What a run knows of its calls: beside the directories that are still to be finished, of which
nothing has been set, every other one that was opened is finished, and every name kept for a node
is one that was written.
-/
structure Accounted (log : List Event) (named : List (Nat × Bytes)) (pending : List OpenDir)
    : Prop where
  sound : Sound log
  finished : ∀ fd, Filling log fd → Finished log fd ∨ fd ∈ pending.map OpenDir.fd
  unset : ∀ dir ∈ pending, settings log dir.fd = []
  filling : ∀ dir ∈ pending, Filling log dir.fd
  distinct : (pending.map OpenDir.fd).Nodup
  wrote : ∀ pair ∈ named, Wrote log pair.2

/-- The same between two steps of a run: no directory is made that has not been opened. -/
structure Kept (log : List Event) (named : List (Nat × Bytes)) (pending : List OpenDir) : Prop
    extends Accounted log named pending where
  made : Made log

/-- A call that finishes no directory and opens none to be filled. -/
structure Still (log : List Event) (event : Event) : Prop where
  allowed : Allowed log event
  fills : ¬ event.Fills
  sets : ∀ fd, Filling log fd → event.sets fd = none

/-- A call that makes no directory either. -/
structure Plain (log : List Event) (event : Event) : Prop extends Still log event where
  makes : ∀ path dir name answer, event ≠ ⟨path, .mkdirat dir name, .ok answer⟩

section

variable {log more : List Event} {named : List (Nat × Bytes)} {pending : List OpenDir}
  {event : Event} {dir : OpenDir}

theorem Kept.begin : Kept [] [] [] := by
  refine ⟨⟨?_, ?_, ?_, ?_, List.nodup_nil, ?_⟩, ?_⟩
  · intro before event after same
    cases before <;> cases same
  · rintro fd ⟨event, at_, _⟩
    cases at_
  · intro dir member
    cases member
  · intro dir member
    cases member
  · intro pair member
    cases member
  · intro i path dir name answer at_
    cases at_

theorem Kept.perm {pending' : List OpenDir} (kept : Kept log named pending)
    (perm : pending.Perm pending') : Kept log named pending' :=
  {
    sound := kept.sound
    made := kept.made
    finished := fun fd filling => (kept.finished fd filling).imp id fun member =>
      (perm.map OpenDir.fd).mem_iff.mp member
    unset := fun dir member => kept.unset dir (perm.mem_iff.mpr member)
    filling := fun dir member => kept.filling dir (perm.mem_iff.mpr member)
    distinct := (perm.map OpenDir.fd).nodup_iff.mp kept.distinct
    wrote := kept.wrote
  }

theorem Accounted.stopped (kept : Accounted log named pending) : Stopped log := by
  refine ⟨kept.sound, fun fd filling => ?_⟩
  rcases kept.finished fd filling with ⟨metadata, xattrs, same⟩ | member
  · exact ⟨metadata, xattrs, same ▸ List.prefix_rfl⟩
  · obtain ⟨dir, there, rfl⟩ := List.mem_map.mp member
    exact ⟨dir.metadata, dir.xattrs, kept.unset dir there ▸ List.nil_prefix⟩

theorem settings_snoc {fd : Handle} (quiet : event.sets fd = none)
    : settings (log ++ [event]) fd = settings log fd :=
  settings_grown fun _ member => List.mem_singleton.mp member ▸ quiet

/-- A still call keeps what is known of the directories. -/
theorem Accounted.snoc (kept : Accounted log named pending) (plain : Still log event)
    : Accounted (log ++ [event]) named pending :=
  {
    sound := kept.sound.snoc plain.allowed
    finished := by
      intro fd filling
      rcases filling.of_snoc with filling | ⟨_, fills⟩
      · rw [Finished, settings_snoc (plain.sets fd filling)]
        exact kept.finished fd filling
      · exact absurd fills plain.fills
    unset := fun dir member => by
      rw [settings_snoc (plain.sets dir.fd (kept.filling dir member))]
      exact kept.unset dir member
    filling := fun dir member => (kept.filling dir member).grown [event]
    distinct := kept.distinct
    wrote := fun pair member => (kept.wrote pair member).grown [event]
  }

/-- A plain call keeps all that is known. -/
theorem Kept.snoc (kept : Kept log named pending) (plain : Plain log event)
    : Kept (log ++ [event]) named pending :=
  ⟨kept.toAccounted.snoc plain.toStill, kept.made.snoc plain.makes⟩

namespace Event.Only

variable {fd : Handle}

theorem allowed (only : event.Only fd)
    (opened : Filling log fd
      ∨ ∃ dir name answer, log[fd]? = some ⟨event.path, .createat dir name, .ok answer⟩)
    : Allowed log event := by
  obtain ⟨setting, same⟩ | same := only
  · rw [Allowed, same]
    exact opened
  · rw [Allowed, same]
    exact opened

theorem not_fills (only : event.Only fd) : ¬ event.Fills := by
  rintro ⟨_, same | ⟨dir, name, same⟩⟩
  · obtain ⟨setting, other⟩ | other := only <;> rw [same] at other <;> cases other
  · obtain ⟨setting, other⟩ | other := only <;> rw [same] at other <;> cases other

theorem makes (only : event.Only fd) (path : Bytes) (dir : Handle) (name : Bytes)
    (answer : Answer) : event ≠ ⟨path, .mkdirat dir name, .ok answer⟩ := by
  rintro rfl
  obtain ⟨setting, other⟩ | other := only <;> cases other

theorem sets (only : event.Only fd) {fd' : Handle} (other : fd' ≠ fd)
    : event.sets fd' = none := by
  obtain ⟨setting, same⟩ | same := only
  · rw [Event.sets, same]
    exact if_neg (Ne.symm other)
  · rw [Event.sets, same]

/-- What is done through the handle of a file finishes no directory. -/
theorem plain (only : event.Only fd) {dir : Handle} {name : Bytes} {answer : Answer}
    (file : log[fd]? = some ⟨event.path, .createat dir name, .ok answer⟩) : Plain log event := by
  refine ⟨⟨only.allowed (.inr ⟨dir, name, answer, file⟩), only.not_fills, ?_⟩, only.makes⟩
  rintro other ⟨found, at_, _, fills⟩
  refine only.sets ?_
  rintro rfl
  rw [file] at at_
  obtain rfl := Option.some.inj at_
  obtain same | ⟨_, _, same⟩ := fills <;> cases same

end Event.Only

/-- Calls that only finish one handle are allowed, open nothing and make nothing, by induction on
them from the last.
-/
theorem Sound.only (sound : Sound log) {fd : Handle} (filling : Filling log fd)
    (only : ∀ event ∈ more, event.Only fd) : Sound (log ++ more) := by
  induction more using List.reverseRecOn with
  | nil => simpa using sound
  | append_singleton init last ih =>
      rw [← List.append_assoc]
      exact (ih fun event member => only event (List.mem_append_left _ member)).snoc
        ((only last (by simp)).allowed (.inl (filling.grown init)))

/-- Nothing has been set of a handle no call has opened. -/
theorem Sound.unopened (sound : Sound log) {fd : Handle} (beyond : log.length ≤ fd)
    : settings log fd = [] := by
  refine List.filterMap_eq_nil_iff.mpr fun event member => ?_
  obtain ⟨before, after, rfl⟩ := List.append_of_mem member
  have allowed := sound before event after rfl
  rw [List.length_append] at beyond
  rw [Event.sets]
  rw [Allowed] at allowed
  split
  · rename_i fd' setting same
    rw [same] at allowed
    refine if_neg ?_
    rintro rfl
    have opened : fd' < before.length := by
      obtain ⟨_, at_, _⟩ | ⟨_, _, _, at_⟩ := allowed
      · exact (List.getElem?_eq_some_iff.mp at_).1
      · exact (List.getElem?_eq_some_iff.mp at_).1
    have : before.length ≤ before.length + (event :: after).length := Nat.le_add_right _ _
    exact absurd (Nat.le_trans this beyond) (Nat.not_le.mpr opened)
  · rfl

theorem Filling.of_only {fd fd' : Handle} (only : ∀ event ∈ more, event.Only fd)
    (filling : Filling (log ++ more) fd') : Filling log fd' := by
  induction more using List.reverseRecOn with
  | nil => simpa using filling
  | append_singleton init last ih =>
      rw [← List.append_assoc] at filling
      rcases filling.of_snoc with filling | ⟨_, fills⟩
      · exact ih (fun event member => only event (List.mem_append_left _ member)) filling
      · exact absurd fills (only last (by simp)).not_fills

theorem Made.only (made : Made log) {fd : Handle} (only : ∀ event ∈ more, event.Only fd)
    : Made (log ++ more) := by
  induction more using List.reverseRecOn with
  | nil => simpa using made
  | append_singleton init last ih =>
      rw [← List.append_assoc]
      exact (ih fun event member => only event (List.mem_append_left _ member)).snoc
        (only last (by simp)).makes

/-- A directory is finished: nothing is still to be done to it. -/
theorem Kept.finish (kept : Kept log named (dir :: pending))
    (only : ∀ event ∈ more, event.Only dir.fd)
    (same : settings more dir.fd = finishing dir.metadata dir.xattrs)
    : Kept (log ++ more) named pending := by
  have others : ∀ fd, fd ≠ dir.fd → settings (log ++ more) fd = settings log fd := fun fd other =>
    settings_grown fun event member => (only event member).sets other
  have apart := List.nodup_cons.mp kept.distinct
  have elsewhere : ∀ other ∈ pending, other.fd ≠ dir.fd := fun other member equal =>
    apart.1 (equal ▸ List.mem_map_of_mem member)
  refine
    {
      sound := kept.sound.only (kept.filling dir List.mem_cons_self) only
      made := kept.made.only only
      finished := ?_
      unset := fun other member => by
        rw [others other.fd (elsewhere other member)]
        exact kept.unset other (List.mem_cons_of_mem _ member)
      filling := fun other member =>
        (kept.filling other (List.mem_cons_of_mem _ member)).grown more
      distinct := apart.2
      wrote := fun pair member => (kept.wrote pair member).grown more
    }
  intro fd filling
  by_cases here : fd = dir.fd
  · refine .inl ⟨dir.metadata, dir.xattrs, ?_⟩
    rw [here, settings_append, kept.unset dir List.mem_cons_self, List.nil_append, same]
  · rw [Finished, others fd here]
    rcases kept.finished fd (filling.of_only only) with finished | member
    · exact .inl finished
    · exact .inr ((List.mem_cons.mp member).resolve_left here)

/-- A directory that was being finished when the run stopped is finished in part. -/
theorem Kept.stop (kept : Kept log named (dir :: pending))
    (only : ∀ event ∈ more, event.Only dir.fd)
    (part : settings more dir.fd <+: finishing dir.metadata dir.xattrs)
    : Stopped (log ++ more) := by
  refine ⟨kept.sound.only (kept.filling dir List.mem_cons_self) only, fun fd filling => ?_⟩
  by_cases here : fd = dir.fd
  · refine ⟨dir.metadata, dir.xattrs, ?_⟩
    rw [here, settings_append, kept.unset dir List.mem_cons_self, List.nil_append]
    exact part
  · rw [Begun, settings_grown fun event member => (only event member).sets here]
    exact kept.stopped.begun fd (filling.of_only only)

/-- A directory is opened to be filled, by the call that follows these. -/
theorem Accounted.opened (kept : Accounted log named pending) (allowed : Allowed log event)
    (fills : event.Fills) (here : dir.fd = log.length)
    : Accounted (log ++ [event]) named (dir :: pending) := by
  have quiet : ∀ fd, event.sets fd = none := by
    intro fd
    obtain ⟨_, same | ⟨_, _, same⟩⟩ := fills <;> rw [Event.sets, same]
  have inside : ∀ fd, Filling log fd → fd < log.length := by
    rintro fd ⟨found, at_, _⟩
    exact (List.getElem?_eq_some_iff.mp at_).1
  have fresh : settings (log ++ [event]) dir.fd = [] := by
    rw [here, settings_snoc (quiet _)]
    exact kept.sound.unopened (Nat.le_refl _)
  have others : ∀ fd, settings (log ++ [event]) fd = settings log fd := fun fd =>
    settings_snoc (quiet fd)
  refine
    {
      sound := kept.sound.snoc allowed
      finished := ?_
      unset := ?_
      filling := ?_
      distinct := ?_
      wrote := fun pair member => (kept.wrote pair member).grown [event]
    }
  · intro fd filling
    rw [Finished, others fd]
    rcases filling.of_snoc with filling | ⟨rfl, _⟩
    · exact (kept.finished fd filling).imp id (List.mem_cons_of_mem _)
    · exact .inr (here ▸ List.mem_cons_self)
  · rintro other member
    rcases List.mem_cons.mp member with rfl | member
    · exact fresh
    · rw [others]
      exact kept.unset other member
  · rintro other member
    rcases List.mem_cons.mp member with rfl | member
    · exact ⟨event, by rw [here, List.getElem?_concat_length], fills⟩
    · exact (kept.filling other member).grown [event]
  · refine List.nodup_cons.mpr ⟨fun member => ?_, kept.distinct⟩
    obtain ⟨other, there, same⟩ := List.mem_map.mp member
    refine absurd (inside other.fd (kept.filling other there)) ?_
    rw [same, here]
    exact Nat.lt_irrefl _

end

end Ferrosys.Host
