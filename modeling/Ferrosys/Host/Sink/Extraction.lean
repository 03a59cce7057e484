import Ferrosys.Host.Sink.Placed

/-! A run of the sink over the entries of a walk: what each step keeps, and so what the calls of a
whole extraction come to.
-/

namespace Ferrosys.Host

open Effects

/-- A run has been stopped, and not for an entry out of order. -/
def Fails {σ ε : Type} (e : HostError ε) (s : Extraction σ) : Prop := e.InOrder ∧ Stopped s.log

section

variable {σ ε : Type} {path name : Bytes} {sink : DirectorySink} {s s' : Extraction σ}
  {dir : OpenDir} {pending : List OpenDir} {list : List Setting}

/-- What is set of one handle alone is all that was set. -/
theorem settings_of_at {fd : Handle} {new : List Event}
    (at_ : ∀ event ∈ new, event.At path (· = .handle fd))
    : settings new fd = new.filterMap Event.setting := by
  refine List.filterMap_congr fun event member => ?_
  obtain ⟨target, rfl, ⟨setting, same⟩ | same⟩ := (at_ event member).aimed
  · rw [Event.sets, Event.setting, same]
    exact if_pos rfl
  · rw [Event.sets, Event.setting, same]

theorem Event.At.only {fd : Handle} {event : Event} (at_ : event.At path (· = .handle fd))
    : event.Only fd := by
  obtain ⟨target, rfl, done⟩ := at_.aimed
  exact done

theorem Kept.touched (kept : Kept s.log s.named (dir :: pending))
    (touched : Touched path (· = .handle dir.fd) s s' (finishing dir.metadata dir.xattrs))
    : Kept s'.log s'.named pending := by
  obtain ⟨new, grown, at_, same⟩ := touched.calls
  rw [grown, touched.same.named]
  exact kept.finish (fun event member => (at_ event member).only) ((settings_of_at at_).trans same)

theorem Kept.stopped_at (kept : Kept s.log s.named (dir :: pending))
    (touched : Touched path (· = .handle dir.fd) s s' list)
    (part : list <+: finishing dir.metadata dir.xattrs) : Stopped s'.log := by
  obtain ⟨new, grown, at_, same⟩ := touched.calls
  rw [grown]
  refine kept.stop (fun event member => (at_ event member).only) ?_
  rw [settings_of_at at_, same]
  exact part

/-- A directory still to be finished is finished, or the run stops. -/
theorem Kept.applyDirectory (kept : Kept s.log s.named (dir :: pending))
    : Ends (applyDirectory sink dir : Run σ ε Unit) s
      (fun _ s' => Same s s' ∧ Kept s'.log s'.named pending) Fails :=
  (touches_finishFd dir.fd dir.metadata dir.xattrs s).mono
    (fun _ _ touched => ⟨touched.same, kept.touched touched⟩)
    fun _ _ failed => ⟨failed.1, failed.2.elim fun _ part => kept.stopped_at part.2 part.1⟩

/-- A run has gone from one state to another, and left alone but what it holds back. -/
structure Onward (s s' : Extraction σ) : Prop where
  openDirs : s'.openDirs = s.openDirs
  named : s'.named = s.named
  leftOut : s'.leftOut = s.leftOut
  grows : s.log <+: s'.log

/-- A directory that was popped is finished or held back, or the run stops. -/
theorem Kept.finishDirectory (kept : Kept s.log s.named (dir :: (s.openDirs ++ s.held)))
    : Ends (finishDirectory sink dir : Run σ ε Unit) s
      (fun _ s' => Onward s s' ∧ Kept s'.log s'.named (s'.openDirs ++ s'.held))
      Fails := by
  refine ends_ite (fun _ => ?_) fun _ => ends_bind.mpr ?_
  · refine kept.applyDirectory.mono (fun _ s' done => ?_) fun _ _ fails => fails
    obtain ⟨same, kept'⟩ := done
    rw [← same.openDirs, ← same.held] at kept'
    exact ⟨⟨same.openDirs, same.named, same.leftOut, same.grows⟩, kept'⟩
  · refine ends_ite (fun _ => ⟨trivial, kept.stopped⟩) fun _ => ?_
    refine ⟨⟨rfl, rfl, rfl, List.prefix_rfl⟩, kept.perm ?_⟩
    rw [← List.append_assoc]
    exact (List.perm_append_singleton dir (s.openDirs ++ s.held)).symm

/-- The directories that stay open when those deeper than a parent are finished. -/
def unwound (parent : Bytes) : List OpenDir → List OpenDir
  | dir :: below :: rest =>
      if dir.path ≠ parent then unwound parent (below :: rest) else dir :: below :: rest
  | openDirs => openDirs

/-- The directories deeper than a parent are finished from the innermost out, by induction on them.
-/
theorem Ready.unwind (ready : Ready s) (parent : Bytes) {openDirs : List OpenDir}
    (open_ : s.openDirs = openDirs)
    : Ends (unwind sink parent openDirs : Run σ ε Unit) s
      (fun _ s' => Ready s' ∧ s'.openDirs = unwound parent openDirs ∧ s'.named = s.named
        ∧ s'.leftOut = s.leftOut ∧ s.log <+: s'.log)
      Fails := by
  have stay : Ready s ∧ s.openDirs = openDirs ∧ s.named = s.named ∧ s.leftOut = s.leftOut
      ∧ s.log <+: s.log :=
    ⟨ready, open_, rfl, rfl, List.prefix_rfl⟩
  fun_induction unwound parent openDirs generalizing s with
  | case1 dir below rest deeper ih =>
      rw [Host.unwind, if_pos deeper]
      simp only [ends_bind, ends_modify]
      have popped : Kept s.log s.named (dir :: ((below :: rest) ++ s.held)) := by
        have kept := ready.kept
        rwa [open_] at kept
      refine (Kept.finishDirectory (s := { s with openDirs := below :: rest }) popped).mono
        (fun _ s' done => ?_) fun _ _ fails => fails
      obtain ⟨onward, kept⟩ := done
      have stacked : ∃ trail, Stacked s'.log s'.openDirs trail := by
        obtain ⟨trail, stacked⟩ := ready.stacked
        rw [open_] at stacked
        obtain ⟨trail, stacked⟩ := stacked.below_
        obtain ⟨more, grown⟩ := onward.grows
        rw [onward.openDirs, ← grown]
        exact ⟨trail, stacked.grown more⟩
      have ready' : Ready s' := ⟨kept, stacked⟩
      refine (ih ready' onward.openDirs ⟨ready', onward.openDirs, rfl, rfl, List.prefix_rfl⟩).mono
        (fun _ s'' done => ?_) fun _ _ fails => fails
      obtain ⟨ready'', open'', named, leftOut, grows⟩ := done
      exact ⟨ready'', open'', named.trans onward.named, leftOut.trans onward.leftOut,
        onward.grows.trans grows⟩
  | case2 dir below rest here =>
      rw [Host.unwind, if_neg here]
      exact stay
  | case3 openDirs other =>
      have idle : (Host.unwind sink parent openDirs : Run σ ε Unit) = pure () := by
        cases openDirs with
        | nil => rfl
        | cons dir rest =>
            cases rest with
            | nil => rfl
            | cons below rest => exact absurd rfl (other dir below rest)
      rw [idle]
      exact stay

/-- Every directory still open is finished or held back, by induction on them. -/
theorem Kept.closeAll {openDirs : List OpenDir} (kept : Kept s.log s.named (openDirs ++ s.held))
    (open_ : s.openDirs = openDirs)
    : Ends (closeAll sink openDirs : Run σ ε Unit) s (fun _ s' => Kept s'.log s'.named s'.held)
      Fails := by
  induction openDirs generalizing s with
  | nil => exact kept
  | cons dir rest ih =>
      rw [Host.closeAll]
      simp only [ends_bind, ends_modify]
      refine (Kept.finishDirectory (s := { s with openDirs := rest }) kept).mono
        (fun _ s' done => ?_) fun _ _ fails => fails
      obtain ⟨onward, kept'⟩ := done
      rw [onward.openDirs] at kept'
      exact ih kept' onward.openDirs

/-- Every directory held back is finished, by induction on them. -/
theorem Kept.drainHeld {held : List OpenDir} (kept : Kept s.log s.named held)
    : Ends (drainHeld sink held : Run σ ε Unit) s (fun _ s' => Kept s'.log s'.named [])
      Fails := by
  induction held generalizing s with
  | nil => exact kept
  | cons dir rest ih =>
      exact ends_bind.mpr (kept.applyDirectory.mono (fun _ _ kept' => ih kept'.2)
        fun _ _ fails => fails)

end

/-- Where an entry is placed, a step leaves the run at that place or stops it. -/
def Works {σ ε α : Type} (name path : Bytes) (m : Run σ ε α) (s : Extraction σ)
    (post : α → Extraction σ → Prop) : Prop :=
  Ends m s (fun a s' => Placed name path s' ∧ Same s s' ∧ post a s') Fails

section

variable {σ ε α β : Type} {path name : Bytes} {sink : DirectorySink} {s s' : Extraction σ}
  {post : α → Extraction σ → Prop}

theorem Works.then {m : Run σ ε β} {rest : β → Run σ ε α} {middle : β → Extraction σ → Prop}
    (first : Works name path m s middle)
    (later : ∀ b s', Placed name path s' → Same s s' → middle b s'
      → Works name path (rest b) s' post)
    : Works name path (m >>= rest) s post :=
  Ends.then first fun b s' done => (later b s' done.1 done.2.1 done.2.2).mono
    (fun _ _ done' => ⟨done'.1, done.2.1.trans done'.2.1, done'.2.2⟩) fun _ _ fails => fails

theorem Works.mono {m : Run σ ε α} {post' : α → Extraction σ → Prop}
    (works : Works name path m s post) (weaker : ∀ a s', post a s' → post' a s')
    : Works name path m s post' :=
  Ends.mono works (fun a s' done => ⟨done.1, done.2.1, weaker a s' done.2.2⟩)
    fun _ _ fails => fails

/-- A step from where one before it has left the run. -/
theorem Works.after {m : Run σ ε α} (same : Same s s') (works : Works name path m s' post)
    : Ends m s' (fun a s'' => Placed name path s'' ∧ Same s s'' ∧ post a s'') Fails :=
  Ends.mono works (fun _ _ done => ⟨done.1, same.trans done.2.1, done.2.2⟩)
    fun _ _ fails => fails

theorem Quiet.works {m : Run σ ε α} (quiet : Quiet m) (placed : Placed name path s)
    : Works name path m s fun _ s' => s'.log = s.log :=
  (quiet s).mono (fun _ _ done => ⟨placed.of_same done.1 done.2, done⟩)
    fun _ _ failed => ⟨failed.1, by rw [failed.2.2]; exact placed.stopped⟩

theorem ends_call {c : Call} {ok : Except Errno Answer → Extraction σ → Prop}
    {bad : HostError ε → Extraction σ → Prop}
    : Ends (call sink path c) s ok bad
      ↔ ok (sink.destination s.log c)
        { s with log := s.log ++ [⟨path, c, sink.destination s.log c⟩] } :=
  Iff.rfl

namespace Placed

/-- A call whose refusal is an error. -/
theorem perform (placed : Placed name path s) {c : Call}
    (plain : ∀ result, Plain s.log ⟨path, c, result⟩)
    : Works name path (perform sink path c : Run σ ε Answer) s
      fun answer s' => s'.log = s.log ++ [⟨path, c, .ok answer⟩] := by
  simp only [Works, Host.perform, ends_bind, ends_call]
  cases sink.destination s.log c with
  | ok answer => exact ⟨placed.called (plain _), .called s _, rfl⟩
  | error e => exact ⟨trivial, (placed.called (plain _)).stopped⟩

/-- The same where the call opens a handle. -/
theorem openHandle (placed : Placed name path s) {c : Call}
    (plain : ∀ result, Plain s.log ⟨path, c, result⟩)
    : Works name path (openHandle sink path c : Run σ ε Handle) s
      fun fd s' => ∃ answer, s'.log[fd]? = some ⟨path, c, .ok answer⟩ := by
  simp only [Works, Host.openHandle, ends_bind, ends_get]
  refine Ends.mono (placed.perform plain)
    (fun answer s' done => ?_) fun _ _ fails => fails
  obtain ⟨placed', same, log⟩ := done
  refine ⟨placed', same, answer, ?_⟩
  rw [log, List.getElem?_concat_length]

theorem refusedName (placed : Placed name path s) {e : Errno} {what : String}
    : Works name path (refusedName sink e path what : Run σ ε Unit) s fun _ _ => True :=
  (quiet_refusedName.works placed).mono fun _ _ _ => trivial

theorem noteSkipped (placed : Placed name path s)
    : Works name path (noteSkipped path : Run σ ε Unit) s fun _ _ => True :=
  (quiet_noteSkipped.works placed).mono fun _ _ _ => trivial

/-- Nothing was made where the destination refuses the name, which is an error or is skipped. -/
theorem refusedFalse (placed : Placed name path s) {e : Errno} {what : String}
    : Works name path
      (do
        Host.refusedName sink e path what
        return false : Run σ ε Bool) s fun made _ => made = false :=
  placed.refusedName.then fun _ _ placed' _ _ => ⟨placed', .refl _, rfl⟩

theorem skippedFalse (placed : Placed name path s)
    : Works name path
      (do
        Host.noteSkipped path
        return false : Run σ ε Bool) s fun made _ => made = false :=
  placed.noteSkipped.then fun _ _ placed' _ _ => ⟨placed', .refl _, rfl⟩

theorem fails (placed : Placed name path s) {e : HostError ε} (other : e.InOrder)
    : Works name path (throw e : Run σ ε α) s post :=
  ⟨other, placed.stopped⟩

end Placed

/-- A node made by the last call stands. -/
theorem wrote_last {log : List Event} {c : Call} {answer : Answer}
    (stands : Event.Stands ⟨path, c, .ok answer⟩ [])
    : Wrote (log ++ [⟨path, c, .ok answer⟩]) path :=
  ⟨log, _, [], rfl, rfl, stands⟩

namespace Placed

/-- A symbolic link is made by its name in the innermost directory. -/
theorem makeSymlink (placed : Placed name path s) (target : Bytes)
    : Works name path (makeSymlink sink target name path : Run σ ε Bool) s
      fun made s' => made = true → Wrote s'.log path := by
  simp only [Works, Host.makeSymlink, ends_bind, ends_get, ends_call]
  have names : Call.Names s.dir name (.symlinkat target s.dir name) := .symlinkat
  have next := fun result => placed.called (placed.names names result)
  cases sink.destination s.log (.symlinkat target s.dir name) with
  | ok answer =>
      exact ⟨next _, .called s _, fun _ => wrote_last ⟨⟨answer, rfl⟩, trivial⟩⟩
  | error e =>
      refine Works.after (.called s _) (((next _).refusedFalse).mono fun made _ none_ yes => ?_)
      rw [none_] at yes
      cases yes

/-- A device node that stays is the device that was asked for. -/
theorem heldDevice (placed : Placed name path s) {fileType : FileType} {mode major minor : Nat}
    {answer : Answer} {before : List Event}
    (made : s.log = before ++ [⟨path, .mknodat s.dir name fileType mode major minor, .ok answer⟩])
    : Works name path (heldDevice sink name path major minor : Run σ ε Bool) s
      fun stays s' => stays = true → Wrote s'.log path := by
  simp only [Works, Host.heldDevice, ends_bind, ends_get]
  refine Ends.mono (placed.perform fun result => placed.names .stat result)
    (fun read s' done => ?_) fun _ _ fails => fails
  obtain ⟨placed', same, log⟩ := done
  refine ends_ite (fun held => ?_) fun _ => ?_
  · refine ⟨placed', same, fun _ => ?_⟩
    have split_ : s'.log = before ++ ⟨path, .mknodat s.dir name fileType mode major minor,
        .ok answer⟩ :: [⟨path, .stat (.name s.dir name true), .ok read⟩] := by
      rw [log, made, List.append_assoc]
      rfl
    refine ⟨before, _, _, split_, rfl, ⟨answer, rfl⟩, fun _ => ?_⟩
    exact ⟨read, rfl, held⟩
  · simp only [ends_bind, ends_get]
    refine Ends.mono (placed'.perform fun result => placed'.names .unlinkat result)
      (fun _ s'' done => ?_) fun _ _ fails => fails
    obtain ⟨placed'', same', _⟩ := done
    refine ends_ite (fun _ => ⟨trivial, placed''.stopped⟩) fun _ => ?_
    refine Works.after (same.trans same') (placed''.skippedFalse.mono fun made _ none_ yes => ?_)
    rw [none_] at yes
    cases yes

/-- A device node, FIFO or socket is made by its name in the innermost directory. -/
theorem makeNode (placed : Placed name path s) (fileType : FileType) (major minor : Nat)
    (attrs : Attributes)
    : Works name path (makeNode sink fileType major minor name path attrs : Run σ ε Bool) s
      fun made s' => made = true → Wrote s'.log path := by
  simp only [Works, Host.makeNode, ends_bind, ends_get, ends_call]
  have names : Call.Names s.dir name
      (.mknodat s.dir name fileType (modeOf attrs.metadata) major minor) := .mknodat
  have next := fun result => placed.called (placed.names names result)
  cases sink.destination s.log
    (.mknodat s.dir name fileType (modeOf attrs.metadata) major minor) with
  | ok answer =>
      refine ends_ite (fun _ => ?_) fun plain => ?_
      · exact Works.after (.called s _) ((next _).heldDevice rfl)
      · refine ⟨next _, .called s _, fun _ => wrote_last ⟨⟨answer, rfl⟩, fun device => ?_⟩⟩
        exact absurd device plain
  | error e =>
      refine ends_ite (fun _ => ?_) fun _ => ?_
      · refine ends_ite (fun _ => ⟨trivial, (next _).stopped⟩) fun _ => ?_
        refine Works.after (.called s _) ((next _).skippedFalse.mono fun made _ none_ yes => ?_)
        rw [none_] at yes
        cases yes
      · refine Works.after (.called s _) ((next _).refusedFalse.mono fun made _ none_ yes => ?_)
        rw [none_] at yes
        cases yes

end Placed

/-- A path this extraction has written at is names a directory can hold. -/
theorem Wrote.names {log : List Event} (sound : Sound log) (wrote : Wrote log path)
    : ∃ names n, path = joined (names ++ [n])
        ∧ ∀ each ∈ names ++ [n], isHostileComponent each = false := by
  obtain ⟨before, event, after, rfl, rfl, _, kind⟩ := wrote
  have allowed := sound before event after rfl
  rw [Allowed] at allowed
  have into : ∃ dir n trail, Into before dir n event.path trail := by
    split at kind
    · rename_i dir n same
      rw [same] at allowed
      exact ⟨dir, n, allowed⟩
    · rename_i dir n same
      rw [same] at allowed
      exact ⟨dir, n, allowed⟩
    · rename_i target dir n same
      rw [same] at allowed
      exact ⟨dir, n, allowed⟩
    · rename_i dir n fileType mode major minor same
      rw [same] at allowed
      exact ⟨dir, n, allowed⟩
    · cases kind
  obtain ⟨dir, n, trail, into⟩ := into
  exact ⟨trail.map Prod.snd, n, into.path_eq, into.fine⟩

/-- A call that opens a directory to traverse from finishes nothing. -/
theorem plain_traverse {log : List Event} {c : Call} {result : Except Errno Answer}
    (opens : c = .openRoot true
      ∨ ∃ dir component trail, c = .openat dir component true ∧ Opened log dir trail
          ∧ isHostileComponent component = false)
    : Plain log ⟨path, c, result⟩ := by
  refine ⟨⟨?_, ?_, ?_⟩, ?_⟩
  · rcases opens with rfl | ⟨dir, component, trail, rfl, opened, fine⟩
    · trivial
    · exact ⟨⟨trail, opened⟩, fine⟩
  · rintro ⟨_, filled | ⟨_, _, filled⟩⟩
    · rcases opens with rfl | ⟨dir, component, trail, rfl, opened, fine⟩ <;> cases filled
    · rcases opens with rfl | ⟨dir, component, trail, rfl, opened, fine⟩ <;> cases filled
  · intro fd _
    rcases opens with rfl | ⟨dir, component, trail, rfl, opened, fine⟩ <;> rfl
  · rintro path' dir' name' answer' same
    rcases opens with rfl | ⟨dir, component, trail, rfl, opened, fine⟩ <;> cases same

theorem checkName_inOrder {component : Bytes} {e : HostError ε}
    (refused : checkName component path = .error e) : e.InOrder := by
  unfold checkName at refused
  split at refused
  · cases refused
    trivial
  · cases refused

theorem split_inOrder {e : HostError ε} (refused : split path = .error e) : e.InOrder := by
  by_cases separated : slash ∈ path
  · obtain ⟨parent, n, rfl, bare⟩ := exists_split separated
    rw [split_child bare] at refused
    cases checked : checkName (ε := ε) n (parent ++ slash :: n) with
    | error e' =>
        rw [checked] at refused
        cases refused
        exact checkName_inOrder checked
    | ok _ =>
        rw [checked] at refused
        cases refused
  · rw [split_bare separated] at refused
    cases refused
    trivial

namespace Placed

/-- A directory is traversed to by the components of its path, by induction on them. -/
theorem descend (placed : Placed name path s) {fd : Handle} {trail : List (Handle × Bytes)}
    (opened : Opened s.log fd trail) (components : List Bytes)
    : Works name path (openDir.descend sink path fd components : Run σ ε Handle) s
      fun fd' s' => ∃ trail', Opened s'.log fd' trail'
        ∧ trail'.map Prod.snd = trail.map Prod.snd ++ components := by
  induction components generalizing s fd trail with
  | nil => exact ⟨placed, .refl s, trail, opened, by rw [List.append_nil]⟩
  | cons component rest ih =>
      rw [openDir.descend]
      simp only [Works, ends_bind, ends_ofExcept]
      cases checked : checkName (ε := ε) component path with
      | error e => exact ⟨checkName_inOrder checked, placed.stopped⟩
      | ok _ =>
          have fine := checkName_eq_ok.mp checked
          refine Ends.mono (placed.openHandle fun _ =>
              plain_traverse (.inr ⟨fd, component, trail, rfl, opened, fine⟩))
            (fun fd' s' done => ?_) fun _ _ fails => fails
          obtain ⟨placed', same, answer, at_⟩ := done
          obtain ⟨more, grown⟩ := same.grows
          have opened' : Opened s'.log fd' (trail ++ [(fd, component)]) :=
            .child at_ (grown ▸ opened.grown more)
          refine Works.after same ((ih placed' opened').mono
            fun fd'' s'' done => ?_)
          obtain ⟨trail', open', names⟩ := done
          refine ⟨trail', open', ?_⟩
          rw [names, List.map_append, List.append_assoc]
          rfl

/-- A directory this extraction has written into is opened again by the names it is at. -/
theorem openDir (placed : Placed name path s) (parent : Bytes)
    : Works name path (openDir sink parent path : Run σ ε Handle) s
      fun fd s' => ∃ trail, Opened s'.log fd trail
        ∧ trail.map Prod.snd
          = (parent.splitOn slash).filter fun component => !component.isEmpty := by
  refine Works.then (placed.openHandle fun _ => plain_traverse (.inl rfl))
    fun root s' placed' _ opened => ?_
  obtain ⟨answer, at_⟩ := opened
  exact placed'.descend (.root at_) _

/-- Another name is made for a node this extraction has written. -/
theorem link (placed : Placed name path s) {first : Bytes} (wrote : Wrote s.log first)
    : Works name path (link sink first name path : Run σ ε Bool) s fun _ _ => True := by
  obtain ⟨names, firstName, rfl, fine⟩ := wrote.names placed.ready.kept.sound
  have bare : slash ∉ firstName := slash_not_mem (fine firstName (by simp))
  rw [joined_snoc] at wrote ⊢
  simp only [Works, Host.link, ends_bind, ends_ofExcept, split_child bare]
  rw [checkName_eq_ok.mpr (fine firstName (by simp))]
  refine Ends.mono (placed.openDir (joined names))
    (fun fd s' done => ?_) fun _ _ fails => fails
  obtain ⟨placed', same, trail, opened, at_⟩ := done
  rw [components_joined fun each member => fine each (List.mem_append_left _ member)] at at_
  simp only [ends_get, ends_call]
  have plain : ∀ result, Plain s'.log ⟨path, .linkat fd firstName s'.dir name, result⟩ := by
    intro result
    refine ⟨⟨⟨placed'.into, trail, opened, ?_⟩, ?_, fun _ _ => rfl⟩, ?_⟩
    · obtain ⟨more, grown⟩ := same.grows
      rw [at_, joined_snoc, ← grown]
      exact wrote.grown more
    · rintro ⟨_, filled | ⟨_, _, filled⟩⟩ <;> cases filled
    · rintro path' dir' name' answer' same
      cases same
  have next := fun result => placed'.called (plain result)
  cases sink.destination s'.log (.linkat fd firstName s'.dir name) with
  | ok answer => exact ⟨next _, same.trans (.called s' _), trivial⟩
  | error e =>
      have same' := same.trans (.called s' ⟨path, .linkat fd firstName s'.dir name, .error e⟩)
      refine ends_ite (fun _ => ?_) fun _ => ?_
      · refine ends_ite (fun _ => ⟨trivial, (next _).stopped⟩) fun _ => ?_
        exact Works.after same' ((next _).skippedFalse.mono fun _ _ _ => trivial)
      · exact Works.after same' ((next _).refusedFalse.mono fun _ _ _ => trivial)

end Placed

/-- A run has made the directory at a path, and what comes next goes into it. -/
structure Entered (path : Bytes) (s s' : Extraction σ) : Prop where
  ready : Ready s'
  top : ∃ dir, dir.path = path ∧ s'.openDirs = dir :: s.openDirs
  held : s'.held = s.held
  named : s'.named = s.named
  leftOut : s'.leftOut = s.leftOut
  grows : s.log <+: s'.log
  wrote : Wrote s'.log path

namespace Placed

/-- A directory is made by its name in the innermost one and opened, and is then itself that. -/
theorem makeDirectory (placed : Placed name path s) (attrs : Attributes)
    : Ends (makeDirectory sink name path attrs : Run σ ε Bool) s
      (fun made s' => if made then Entered path s s' else Placed name path s' ∧ Same s s')
      Fails := by
  obtain ⟨trail, into⟩ := placed.into
  have quiet : ∀ fd result, Event.sets fd ⟨path, .mkdirat s.dir name, result⟩ = none :=
    fun _ _ => rfl
  have still : ∀ result, Still s.log ⟨path, .mkdirat s.dir name, result⟩ := by
    refine fun result => ⟨⟨trail, into⟩, ?_, fun fd _ => quiet fd result⟩
    rintro ⟨_, filled | ⟨_, _, filled⟩⟩ <;> cases filled
  simp only [Host.makeDirectory, Host.openHandle, Host.perform, ends_bind, ends_get, ends_call]
  cases sink.destination s.log (.mkdirat s.dir name) with
  | error e =>
      have plain : Plain s.log ⟨path, .mkdirat s.dir name, .error e⟩ := by
        refine ⟨still _, ?_⟩
        rintro path' dir' name' answer' same
        cases same
      refine Ends.mono ((placed.called plain).refusedFalse)
        (fun made s' done => ?_) fun _ _ fails => fails
      obtain ⟨placed', same, none_⟩ := done
      rw [none_]
      exact ⟨placed', (Same.called s _).trans same⟩
  | ok answer =>
      -- The directory is there, and the call that opens it comes next.
      have accounted := placed.ready.kept.toAccounted.snoc (still (.ok answer))
      have allowed : ∀ result, Allowed (s.log ++ [⟨path, .mkdirat s.dir name, .ok answer⟩])
          ⟨path, .openat s.dir name false, result⟩ := fun result =>
        ⟨⟨trail, into.grown fun event member fd _ => by
          rw [List.mem_singleton.mp member]
          exact quiet fd _⟩, answer, List.getLast?_concat⟩
      simp only [ends_bind, ends_get, ends_call, Extraction.dir_called]
      cases sink.destination (s.log ++ [⟨path, .mkdirat s.dir name, .ok answer⟩])
        (.openat s.dir name false) with
      | error e =>
          have still : Still (s.log ++ [⟨path, .mkdirat s.dir name, .ok answer⟩])
              ⟨path, .openat s.dir name false, .error e⟩ := by
            refine ⟨allowed _, ?_, fun _ _ => rfl⟩
            rintro ⟨⟨_, failed⟩, _⟩
            cases failed
          exact ⟨trivial, (accounted.snoc still).stopped⟩
      | ok answer' =>
          obtain ⟨dir, rest, open_, path_eq⟩ := placed.top
          obtain ⟨above, stacked⟩ := placed.ready.stacked
          have here : s.dir = dir.fd := by
            rw [Extraction.dir, open_]
            rfl
          have fills : Event.Fills ⟨path, .openat s.dir name false, .ok answer'⟩ :=
            ⟨⟨answer', rfl⟩, .inr ⟨s.dir, name, rfl⟩⟩
          simp only [ends_pure, ends_modify, reduceIte]
          have made := placed.ready.kept.made
          refine ⟨⟨⟨accounted.opened (allowed _) fills rfl, made.snoc_opened⟩, ?_⟩,
            ⟨_, rfl, rfl⟩, rfl, rfl, rfl, ?_, ?_⟩
          · rw [open_] at stacked ⊢
            refine ⟨_, .push ((stacked.grown _).grown _) path_eq placed.fine ?_⟩
            rw [← here]
            have at_ := List.getElem?_concat_length
              (l := s.log ++ [(⟨path, .mkdirat s.dir name, .ok answer⟩ : Event)])
              (a := (⟨path, .openat s.dir name false, .ok answer'⟩ : Event))
            exact .child at_ ((here ▸ stacked.top.1.grown _).grown _)
          · exact (List.prefix_append _ _).trans (List.prefix_append _ _)
          · exact (wrote_last ⟨⟨answer, rfl⟩, trivial⟩).grown _

end Placed

/-- The handle is of the file made at a path. -/
def FileAt (log : List Event) (fd : Handle) (path : Bytes) : Prop :=
  ∃ dir name answer, log[fd]? = some ⟨path, .createat dir name, .ok answer⟩

theorem FileAt.grown {log log' : List Event} {fd : Handle} (file : FileAt log fd path)
    (grows : log <+: log') : FileAt log' fd path := by
  obtain ⟨dir, n, answer, at_⟩ := file
  obtain ⟨more, rfl⟩ := grows
  exact ⟨dir, n, answer, getElem?_grown at_ more⟩

namespace Placed

variable {ν : Type} {tree : HostTree σ ν ε} {entry : TreeEntry ν}

/-- A file's bytes go into the file made at its path, by induction on how many are left. -/
theorem copy (placed : Placed name entry.path s) {fd : Handle} (file : FileAt s.log fd entry.path)
    (size window offset : Nat)
    : Works name entry.path (copy sink tree entry fd size window offset : Run σ ε Unit) s
      fun _ _ => True := by
  induction left : size - offset using Nat.strong_induction_on generalizing s offset with
  | _ left ih =>
      rw [Host.copy]
      by_cases within : offset < size
      · rw [dif_pos within]
        refine Works.then (quiet_readTree.works placed) fun read s' placed' _ log => ?_
        by_cases bare : read.take (min (size - offset) window) = []
        · rw [dif_pos bare]
          exact placed'.fails trivial
        · rw [dif_neg bare]
          have file' : FileAt s'.log fd entry.path := log ▸ file
          have plain : ∀ result, Plain s'.log
              ⟨entry.path, .writeAll fd (read.take (min (size - offset) window)), result⟩ := by
            refine fun result => ⟨⟨file', ?_, fun _ _ => rfl⟩, ?_⟩
            · rintro ⟨_, filled | ⟨_, _, filled⟩⟩ <;> cases filled
            · rintro path' dir' name' answer' same
              cases same
          refine Works.then (placed'.perform plain) fun _ s'' placed'' same _ => ?_
          have some_ := List.length_pos_of_ne_nil bare
          exact ih _ (by omega) placed'' (file'.grown same.grows) _ rfl
      · rw [dif_neg within]
        exact ⟨placed, .refl s, trivial⟩

/-- A regular file is made by its name in the innermost directory and filled through its handle. -/
theorem writeFile (placed : Placed name entry.path s) (size : Nat)
    : Works name entry.path (writeFile sink tree name entry size : Run σ ε (Option Handle)) s
      fun handle s' => ∀ fd, handle = some fd → Wrote s'.log entry.path
        ∧ FileAt s'.log fd entry.path := by
  simp only [Works, Host.writeFile]
  refine ends_ite (fun _ => ⟨trivial, placed.stopped⟩) fun _ => ?_
  simp only [ends_bind, ends_get, ends_call]
  have next := fun result => placed.called (placed.names .createat result)
  cases sink.destination s.log (.createat s.dir name) with
  | error e =>
      refine Works.after (.called s _) (Works.then (next _).refusedName fun _ s' placed' _ _ => ?_)
      exact ⟨placed', .refl s', fun _ none_ => by cases none_⟩
  | ok answer =>
      have file : FileAt (s.log ++ [⟨entry.path, .createat s.dir name, .ok answer⟩]) s.log.length
          entry.path :=
        ⟨s.dir, name, answer, List.getElem?_concat_length⟩
      have wrote : Wrote (s.log ++ [⟨entry.path, .createat s.dir name, .ok answer⟩]) entry.path :=
        wrote_last ⟨⟨answer, rfl⟩, trivial⟩
      refine Works.after (.called s _)
        (Works.then ((next _).copy file size (min size bodyWindow) 0) fun _ s' placed' same _ => ?_)
      refine ⟨placed', .refl s', fun fd here => ?_⟩
      obtain rfl := Option.some.inj here
      refine ⟨?_, file.grown same.grows⟩
      obtain ⟨more, grown⟩ := same.grows
      exact grown ▸ wrote.grown more

/-- Calls that set something of an entry, by its name or through its file, leave the run at its
place, by induction on them.
-/
theorem calledAt {aims : Target → Prop} {new : List Event} (placed : Placed name path s)
    (at_ : ∀ event ∈ new, event.At path aims)
    (aimed : ∀ target, aims target → (∃ nofollow, target = .name s.dir name nofollow)
      ∨ ∃ fd, target = .handle fd ∧ FileAt s.log fd path)
    : Placed name path { s with log := s.log ++ new } := by
  induction new generalizing s with
  | nil => simpa using placed
  | cons event rest ih =>
      have plain : Plain s.log event := by
        obtain ⟨path_eq, target, aim, done⟩ := at_ event List.mem_cons_self
        obtain ⟨_, c, result⟩ := event
        obtain rfl : _ = path := path_eq
        rcases aimed target aim with ⟨nofollow, rfl⟩ | ⟨fd, rfl, dir, n, answer, there⟩
        · refine placed.names ?_ result
          rcases done with ⟨setting, rfl⟩ | rfl
          · exact .set
          · exact .stat
        · exact Event.Only.plain done there
      have after := ih (placed.called plain)
        (fun other member => at_ other (List.mem_cons_of_mem _ member)) fun target aim =>
          (aimed target aim).imp id fun there => there.imp fun _ held =>
            ⟨held.1, held.2.grown (List.prefix_append _ _)⟩
      simpa using after

theorem touched {aims : Target → Prop} {list : List Setting} (placed : Placed name path s)
    (touched : Touched path aims s s' list)
    (aimed : ∀ target, aims target → (∃ nofollow, target = .name s.dir name nofollow)
      ∨ ∃ fd, target = .handle fd ∧ FileAt s.log fd path)
    : Placed name path s' := by
  obtain ⟨new, grown, at_, _⟩ := touched.calls
  refine (placed.calledAt at_ aimed).of_same ?_ grown
  exact ⟨touched.same.openDirs, touched.same.held, touched.same.named, touched.same.leftOut,
    grown ▸ List.prefix_rfl⟩

/-- What is not a directory is finished where it is. -/
theorem finishEntry (placed : Placed name entry.path s) (other : entry.kind ≠ .directory)
    (attrs : Attributes) {handle : Option Handle}
    (file : ∀ fd, handle = some fd → FileAt s.log fd entry.path)
    : Works name entry.path (finishEntry sink name entry attrs handle : Run σ ε Unit) s
      fun _ _ => True := by
  have byName : ∀ symlink, Works name entry.path
      (finishName sink name attrs.metadata attrs.xattrs entry.path symlink : Run σ ε Unit) s
      fun _ _ => True := by
    intro symlink
    have aimed : ∀ target : Target, (∃ nofollow, target = .name s.dir name nofollow)
        → (∃ nofollow, target = .name s.dir name nofollow)
          ∨ ∃ fd, target = .handle fd ∧ FileAt s.log fd entry.path := fun _ aim => .inl aim
    exact (touches_finishName name attrs.metadata attrs.xattrs symlink s rfl).mono
      (fun _ _ done => done.elim fun _ touched =>
        ⟨placed.touched touched aimed, touched.same, trivial⟩)
      fun _ _ failed => ⟨failed.1, failed.2.elim fun _ touched =>
        (placed.touched touched aimed).stopped⟩
  have byHandle : ∀ fd, handle = some fd → Works name entry.path
      (finishFd sink fd attrs.metadata attrs.xattrs entry.path : Run σ ε Unit) s
      fun _ _ => True := by
    intro fd here
    have aimed : ∀ target : Target, target = .handle fd
        → (∃ nofollow, target = .name s.dir name nofollow)
        ∨ ∃ fd', target = .handle fd' ∧ FileAt s.log fd' entry.path :=
      fun _ aim => .inr ⟨fd, aim, file fd here⟩
    exact (touches_finishFd fd attrs.metadata attrs.xattrs s).mono
      (fun _ _ touched => ⟨placed.touched touched aimed, touched.same, trivial⟩)
      fun _ _ failed => ⟨failed.1, failed.2.elim fun _ touched =>
        (placed.touched touched.2 aimed).stopped⟩
  unfold Host.finishEntry
  split
  · rename_i same
    exact absurd same other
  · exact byHandle _ rfl
  · exact byName _

end Placed

/-- What creating an entry comes to: it was left out, a directory was entered, or something else was
written, a file being the one its handle is of.
-/
inductive Created {ν : Type} (name : Bytes) (entry : TreeEntry ν) (s s' : Extraction σ)
    : Bool × Option Handle → Prop
  | leftOut {handle : Option Handle} (other : entry.kind ≠ .directory)
    (placed : Placed name entry.path s') (same : Same s s')
    : Created name entry s s' (false, handle)
  | refused {handle : Option Handle} (kind : entry.kind = .directory) (ready : Ready s')
    (openDirs : s'.openDirs = s.openDirs) (named : s'.named = s.named)
    (left : s'.leftOut = some entry.path) : Created name entry s s' (false, handle)
  | entered {handle : Option Handle} (kind : entry.kind = .directory)
    (entered : Entered entry.path s s') : Created name entry s s' (true, handle)
  | written {handle : Option Handle} (other : entry.kind ≠ .directory)
    (placed : Placed name entry.path s') (same : Same s s') (wrote : Wrote s'.log entry.path)
    (file : ∀ fd, handle = some fd → FileAt s'.log fd entry.path)
    : Created name entry s s' (true, handle)

variable {ν : Type} {tree : HostTree σ ν ε} {entry : TreeEntry ν}

/-- Something that is not a directory and leaves no handle behind is created or left out. -/
theorem Works.created {m : Run σ ε Bool} (other : entry.kind ≠ .directory)
    (works : Works name entry.path m s fun made s' => made = true → Wrote s'.log entry.path)
    : Ends (do return (← m, none) : Run σ ε (Bool × Option Handle)) s
      (fun result s' => Created name entry s s' result) Fails := by
  simp only [ends_bind, ends_pure]
  refine Ends.mono works (fun made s' done => ?_) fun _ _ fails => fails
  obtain ⟨placed, same, wrote⟩ := done
  cases made with
  | false => exact .leftOut other placed same
  | true => exact .written other placed same (wrote rfl) fun _ none_ => by cases none_

theorem Placed.create (placed : Placed name entry.path s) (attrs : Attributes)
    : Ends (create sink tree name entry attrs : Run σ ε _) s
      (fun result s' => Created name entry s s' result) Fails := by
  unfold Host.create
  split
  · rename_i kind
    simp only [ends_bind]
    refine (placed.makeDirectory attrs).mono (fun made s' ended => ?_) fun _ _ fails => fails
    cases made with
    | true => exact .entered kind ended
    | false =>
        have ready := ended.1.ready
        exact Created.refused kind ⟨ready.kept, ready.stacked⟩ ended.2.openDirs ended.2.named rfl
  · rename_i size kind
    have other : entry.kind ≠ .directory := fun same => by
      rw [kind] at same
      cases same
    simp only [ends_bind, ends_pure]
    refine Ends.mono (placed.writeFile size) (fun handle s' done => ?_) fun _ _ fails => fails
    obtain ⟨placed', same, wrote⟩ := done
    cases handle with
    | none => exact .leftOut other placed' same
    | some fd =>
        refine .written other placed' same (wrote fd rfl).1 fun fd' here => ?_
        exact (wrote fd' here).2
  · rename_i kind
    have other : entry.kind ≠ .directory := fun same => by
      rw [kind] at same
      cases same
    simp only [ends_bind, ends_pure]
    refine Ends.mono (quiet_readTree.works placed) (fun target s' done => ?_)
      fun _ _ fails => fails
    obtain ⟨placed', same, _⟩ := done
    refine Ends.mono (placed'.makeSymlink target) (fun made s'' done => ?_) fun _ _ fails => fails
    obtain ⟨placed'', same', wrote⟩ := done
    cases made with
    | false => exact .leftOut other placed'' (same.trans same')
    | true =>
        exact .written other placed'' (same.trans same') (wrote rfl) fun _ none_ => by cases none_
  all_goals
    rename_i kind
    have other : entry.kind ≠ .directory := fun same => by
      rw [kind] at same
      cases same
    exact (placed.makeNode _ _ _ attrs).created other

/-- What writing an entry that is not beneath a directory left out does to the directories open for
it: none is entered, the entry itself is, or it is a directory that is left out. A directory is
stayed out of where it is another name for a node that has a first one.
-/
inductive Moved {ν : Type} (entry : TreeEntry ν) (first : Option Bytes) (openDirs : List OpenDir)
    (s' : Extraction σ) : Prop
  | stays (other : entry.kind ≠ .directory ∨ first.isSome = true)
    (open_ : s'.openDirs = openDirs) (left : s'.leftOut = none)
  | enters {dir : OpenDir} (kind : entry.kind = .directory) (path : dir.path = entry.path)
    (open_ : s'.openDirs = dir :: openDirs) (left : s'.leftOut = none)
  | refuses (kind : entry.kind = .directory) (open_ : s'.openDirs = openDirs)
    (left : s'.leftOut = some entry.path)

/-- A path this extraction has written at may be kept as a node's first name. -/
theorem Kept.keepName {log : List Event} {named : List (Nat × Bytes)} {pending : List OpenDir}
    {id : Nat}
    (kept : Kept log named pending) (wrote : Wrote log path)
    : Kept log ((id, path) :: named) pending := by
  refine ⟨{ kept.toAccounted with wrote := fun pair member => ?_ }, kept.made⟩
  rcases List.mem_cons.mp member with rfl | member
  · exact wrote
  · exact kept.wrote pair member

theorem Ready.nameEntry (ready : Ready s) (wrote : Wrote s.log path) (id : Nat)
    : Ready { s with named := (id, path) :: s.named } :=
  ⟨ready.kept.keepName wrote, ready.stacked⟩

/-- What a run keeps names for are the nodes it kept one for, and those of these entries. -/
def NamedBy {ν : Type} (entries : List (TreeEntry ν)) (s s' : Extraction σ) : Prop :=
  ∀ pair ∈ s'.named, pair ∈ s.named ∨ ∃ entry ∈ entries, entry.shared = some pair.1

theorem NamedBy.of_eq {entries : List (TreeEntry ν)} (same : s'.named = s.named)
    : NamedBy entries s s' :=
  fun _ member => .inl (same ▸ member)

theorem NamedBy.keepName {id : Nat} (named : NamedBy [entry] s s') (shared : entry.shared = some id)
    : NamedBy [entry] s { s' with named := (id, path) :: s'.named } := by
  intro pair member
  rcases List.mem_cons.mp member with rfl | member
  · exact .inr ⟨entry, List.mem_singleton_self entry, shared⟩
  · exact named pair member

theorem Placed.writeFirst (placed : Placed name entry.path s) (left : s.leftOut = none)
    : Ends (writeFirst sink tree name entry : Run σ ε Unit) s
      (fun _ s' => Ready s' ∧ Moved entry none s.openDirs s' ∧ NamedBy [entry] s s') Fails := by
  unfold Host.writeFirst
  refine ends_bind.mpr (Ends.mono (quiet_readTree.works placed)
    (fun attrs s₁ done => ?_) fun _ _ fails => fails)
  obtain ⟨placed₁, same₁, _⟩ := done
  refine ends_bind.mpr (Ends.mono (quiet_noteSynthesis.works placed₁)
    (fun _ s₂ done => ?_) fun _ _ fails => fails)
  obtain ⟨placed₂, same₂, _⟩ := done
  refine ends_bind.mpr (Ends.mono (quiet_noteFlags.works placed₂)
    (fun _ s₃ done => ?_) fun _ _ fails => fails)
  obtain ⟨placed₃, same₃, _⟩ := done
  refine ends_bind.mpr (Ends.mono (placed₃.create attrs) (fun result s₄ created => ?_)
    fun _ _ fails => fails)
  have same := (same₁.trans same₂).trans same₃
  cases created with
  | leftOut other placed₄ same₄ =>
      exact ⟨placed₄.ready, .stays (.inl other) (same.trans same₄).openDirs
        ((same.trans same₄).leftOut.trans left), .of_eq (same.trans same₄).named⟩
  | refused kind ready openDirs named refused =>
      exact ⟨ready, .refuses kind (openDirs.trans same.openDirs) refused,
        .of_eq (named.trans same.named)⟩
  | @entered handle kind entered =>
      obtain ⟨dir, dirPath, top⟩ := entered.top
      have moved : ∀ s₅ : Extraction σ, s₅.openDirs = s₄.openDirs → s₅.leftOut = s₄.leftOut
          → Moved entry none s.openDirs s₅ := fun s₅ open_ left₅ =>
        .enters kind dirPath (open_.trans (top.trans (by rw [same.openDirs])))
          (left₅.trans (entered.leftOut.trans (same.leftOut.trans left)))
      have idle : ∀ s₅ : Extraction σ, Ready s₅ → s₅.openDirs = s₄.openDirs
          → s₅.leftOut = s₄.leftOut → NamedBy [entry] s s₅
          → Ends (do
              Host.finishEntry sink name entry attrs handle
              countWritten : Run σ ε Unit) s₅
            (fun _ s' => Ready s' ∧ Moved entry none s.openDirs s' ∧ NamedBy [entry] s s')
            Fails := by
        intro s₅ ready open_ left₅ named
        rw [Host.finishEntry]
        · exact ⟨⟨ready.kept, ready.stacked⟩, moved _ open_ left₅, named⟩
        · exact kind
      have named : NamedBy [entry] s s₄ := .of_eq (entered.named.trans same.named)
      cases shared : entry.shared with
      | none => exact idle s₄ entered.ready rfl rfl named
      | some id =>
          exact idle _ (entered.ready.nameEntry entered.wrote id) rfl rfl (named.keepName shared)
  | @written handle other placed₄ same₄ wrote file =>
      have same := same.trans same₄
      have idle : ∀ s₅ : Extraction σ, Placed name entry.path s₅ → s₅.log = s₄.log
          → s₅.openDirs = s₄.openDirs → s₅.leftOut = s₄.leftOut → NamedBy [entry] s s₅
          → Ends (do
              Host.finishEntry sink name entry attrs handle
              countWritten : Run σ ε Unit) s₅
            (fun _ s' => Ready s' ∧ Moved entry none s.openDirs s' ∧ NamedBy [entry] s s')
            Fails := by
        intro s₅ placed₅ log open_ left₅ named
        refine ends_bind.mpr (Ends.mono
          (placed₅.finishEntry other attrs fun fd here => log ▸ file fd here)
          (fun _ s₆ done => ?_) fun _ _ fails => fails)
        obtain ⟨placed₆, same₆, _⟩ := done
        refine ⟨⟨placed₆.ready.kept, placed₆.ready.stacked⟩, .stays (.inl other) ?_ ?_, ?_⟩
        · exact same₆.openDirs.trans (open_.trans same.openDirs)
        · exact same₆.leftOut.trans (left₅.trans (same.leftOut.trans left))
        · exact fun pair member => named pair (same₆.named ▸ member)
      have named : NamedBy [entry] s s₄ := .of_eq same.named
      cases shared : entry.shared with
      | none => exact idle s₄ placed₄ rfl rfl rfl named
      | some id =>
          exact idle _ ⟨placed₄.ready.nameEntry wrote id, placed₄.fine, placed₄.top⟩ rfl rfl rfl
            (named.keepName shared)

/-- What writing one entry of a walk does. Beneath a directory left out it does nothing. Elsewhere
the directories deeper than its parent are finished first, and the run stops for an entry out of
order only where what is then open is not its parent.
-/
theorem Ready.writeEntry (ready : Ready s)
    : Ends (writeEntry sink tree entry : Run σ ε Unit) s
      (fun _ s' => Ready s' ∧ (if s.leavesOut entry.path then s' = s else
        ∃ parent name, split (ε := ε) entry.path = .ok (parent, name)
          ∧ (unwound parent s.openDirs).head?.map OpenDir.path = some parent
          ∧ Moved entry (s.firstName entry.shared) (unwound parent s.openDirs) s'
          ∧ NamedBy [entry] s s'))
      fun e s' => Stopped s'.log ∧ (e.InOrder ∨ s.leavesOut entry.path = false
        ∧ ∃ parent name, split (ε := ε) entry.path = .ok (parent, name)
          ∧ (unwound parent s.openDirs).head?.map OpenDir.path ≠ some parent) := by
  have failed : ∀ {e s'}, Fails (σ := σ) (ε := ε) e s' → Stopped s'.log ∧ (e.InOrder
      ∨ s.leavesOut entry.path = false
        ∧ ∃ parent name, split (ε := ε) entry.path = .ok (parent, name)
          ∧ (unwound parent s.openDirs).head?.map OpenDir.path ≠ some parent) := fun fails =>
    ⟨fails.2, .inl fails.1⟩
  unfold Host.writeEntry
  simp only [ends_bind, ends_get]
  refine ends_ite (fun beneath => ?_) fun outside => ?_
  · rw [ends_pure, if_pos beneath]
    exact ⟨ready, rfl⟩
  simp only [ends_bind, ends_modify, ends_ofExcept, ends_get]
  cases parts : split (ε := ε) entry.path with
  | error e => exact ⟨ready.kept.stopped, .inl (split_inOrder parts)⟩
  | ok pair =>
      obtain ⟨parent, name⟩ := pair
      obtain ⟨path_eq, fine⟩ := split_eq_ok parts
      simp only [parts] at failed
      have cleared : Ready { s with leftOut := none } := ⟨ready.kept, ready.stacked⟩
      refine (cleared.unwind parent rfl).mono (fun _ s₁ done => ?_) fun _ _ fails => failed fails
      obtain ⟨ready₁, open₁, named₁, left₁, _⟩ := done
      refine ends_ite (fun early => ?_) fun placed => ?_
      · rw [open₁] at early
        exact ⟨ready₁.kept.stopped, .inr ⟨by simpa using outside, parent, name, rfl, early⟩⟩
      have top : (unwound parent s.openDirs).head?.map OpenDir.path = some parent := by
        rw [← open₁]
        exact not_not.mp placed
      have here : Placed name entry.path s₁ := by
        refine ⟨ready₁, fine, ?_⟩
        rw [← open₁] at top
        cases dirs : s₁.openDirs with
        | nil =>
            rw [dirs] at top
            cases top
        | cons dir rest =>
            rw [dirs] at top
            refine ⟨dir, rest, rfl, ?_⟩
            rw [path_eq, Option.some.inj top]
      have named₁ : s₁.named = s.named := named₁
      have names : s.firstName entry.shared = s₁.firstName entry.shared := by
        rw [Extraction.firstName, Extraction.firstName, named₁]
      have ended : ∀ {s₂ : Extraction σ}, Ready s₂
          → Moved entry (s₁.firstName entry.shared) s₁.openDirs s₂ → NamedBy [entry] s₁ s₂
          → Ready s₂ ∧ (if s.leavesOut entry.path then s₂ = s else
            ∃ parent' name', Except.ok (ε := HostError ε) (parent, name) = .ok (parent', name')
              ∧ (unwound parent' s.openDirs).head?.map OpenDir.path = some parent'
              ∧ Moved entry (s.firstName entry.shared) (unwound parent' s.openDirs) s₂
              ∧ NamedBy [entry] s s₂) := by
        intro s₂ ready₂ moved named₂
        rw [if_neg outside, names]
        exact ⟨ready₂, parent, name, rfl, top, open₁ ▸ moved,
          fun pair member => named₁ ▸ named₂ pair member⟩
      simp only [ends_bind, ends_get]
      cases first : s₁.firstName entry.shared with
      | none =>
          rw [first] at ended
          exact (here.writeFirst left₁).mono
            (fun _ s₂ done => ended done.1 done.2.1 done.2.2)
            fun _ _ fails => failed fails
      | some path =>
          obtain ⟨id, shared, found⟩ := Option.bind_eq_some_iff.mp first
          have wrote : Wrote s₁.log path := by
            obtain ⟨front, back, there, _⟩ := List.lookup_eq_some_iff.mp found
            exact ready₁.kept.wrote (id, path) (by rw [there]; simp)
          refine ends_bind.mpr (Ends.mono (here.link wrote) (fun made s₂ done => ?_)
            fun _ _ fails => failed fails)
          obtain ⟨here₂, same, _⟩ := done
          have stays : ∀ s₃ : Extraction σ, s₃.openDirs = s₂.openDirs → s₃.leftOut = s₂.leftOut
              → Moved entry (s₁.firstName entry.shared) s₁.openDirs s₃ := fun s₃ open₃ left₃ =>
            .stays (.inr (by rw [first]; rfl)) (open₃.trans same.openDirs)
              (left₃.trans (same.leftOut.trans left₁))
          have named₂ : NamedBy [entry] s₁ s₂ := .of_eq same.named
          refine ends_ite (fun _ => ?_) fun _ => ended here₂.ready (stays s₂ rfl rfl) named₂
          exact ended ⟨here₂.ready.kept, here₂.ready.stacked⟩ (stays _ rfl rfl) named₂

end

/-- What a walk hands out beneath a directory, depth-first and a directory before what it holds, by
names without a separator.
-/
inductive Beneath {ν : Type} : Bytes → List (TreeEntry ν) → Prop
  | done (at_ : Bytes) : Beneath at_ []
  | leaf {at_ name : Bytes} {entry : TreeEntry ν} {rest : List (TreeEntry ν)}
    (path : entry.path = at_ ++ slash :: name) (bare : slash ∉ name)
    (kind : entry.kind ≠ .directory) (others : Beneath at_ rest) : Beneath at_ (entry :: rest)
  | directory {at_ name : Bytes} {entry : TreeEntry ν} {inner rest : List (TreeEntry ν)}
    (path : entry.path = at_ ++ slash :: name) (bare : slash ∉ name)
    (kind : entry.kind = .directory) (within : Beneath entry.path inner) (others : Beneath at_ rest)
    : Beneath at_ (entry :: (inner ++ rest))

/-- No directory of a walk is another name for a node that came before it. -/
def Single {ν : Type} (entries : List (TreeEntry ν)) : Prop :=
  entries.Pairwise fun first second =>
    second.kind = .directory → second.shared = none ∨ first.shared ≠ second.shared

/-- A path is beneath a directory's. -/
def Under (dir path : Bytes) : Prop := dir ++ [slash] <+: path

section

variable {σ ε ν : Type} {dir at_ path name : Bytes} {s s' : Extraction σ} {sink : DirectorySink}
  {tree : HostTree σ ν ε} {entry : TreeEntry ν} {entries : List (TreeEntry ν)}

theorem leavesOut_iff : s.leavesOut path = true ↔ ∃ dir, s.leftOut = some dir ∧ Under dir path := by
  unfold Extraction.leavesOut
  cases s.leftOut with
  | none => simp
  | some dir =>
      simp only [Bool.and_eq_true, List.isPrefixOf_iff_prefix, beq_iff_eq, Option.some.injEq,
        exists_eq_left']
      constructor
      · rintro ⟨⟨rest, rfl⟩, next⟩
        rw [List.getElem?_append_right (Nat.le_refl _), Nat.sub_self] at next
        cases rest with
        | nil => cases next
        | cons byte rest =>
            obtain rfl := Option.some.inj next
            exact ⟨rest, by simp⟩
      · rintro ⟨rest, rfl⟩
        refine ⟨⟨slash :: rest, by simp⟩, ?_⟩
        rw [List.append_assoc, List.getElem?_append_right (Nat.le_refl _), Nat.sub_self]
        rfl

theorem under_child : Under at_ (at_ ++ slash :: name) := ⟨name, by simp⟩

/-- What is beneath something in a directory is beneath the directory. -/
theorem Under.trans {middle : Bytes} (first : Under at_ middle) (second : Under middle path)
    : Under at_ path :=
  List.IsPrefix.trans first ((List.prefix_append middle [slash]).trans second)

/-- A name without a separator is beneath what its directory is, or is beneath. -/
theorem Under.of_child (bare : slash ∉ name) (under : Under dir (at_ ++ slash :: name))
    : dir ++ [slash] <+: at_ ++ [slash] := by
  obtain ⟨rest, same⟩ := under
  rcases Nat.lt_or_ge at_.length dir.length with longer | shorter
  · -- Then the separator behind the directory's path would stand in the name.
    exfalso
    have at_name : name[dir.length - (at_.length + 1)]? = some slash := by
      have here : (dir ++ [slash] ++ rest)[dir.length]? = some slash := by
        rw [List.append_assoc, List.getElem?_append_right (Nat.le_refl _), Nat.sub_self]
        rfl
      rw [same, List.getElem?_append_right (Nat.le_of_lt longer)] at here
      obtain ⟨more, beyond⟩ := Nat.exists_eq_add_of_lt longer
      rw [beyond] at here ⊢
      have past : at_.length + more + 1 - at_.length = more + 1 := by omega
      rw [past, List.getElem?_cons_succ] at here
      rw [show at_.length + more + 1 - (at_.length + 1) = more by omega]
      exact here
    exact bare (List.mem_of_getElem? at_name)
  · have whole : at_ ++ slash :: name = at_ ++ [slash] ++ name := by simp
    refine List.prefix_of_prefix_length_le ⟨rest, same⟩ ?_ (by simp; omega)
    rw [whole]
    exact List.prefix_append _ _

/-- Everything handed out beneath a directory is beneath it, by induction on the walk. -/
theorem Beneath.under (beneath : Beneath at_ entries)
    : ∀ entry ∈ entries, Under at_ entry.path := by
  induction beneath with
  | done => exact fun _ member => absurd member List.not_mem_nil
  | leaf path bare kind others ih =>
      intro each member
      rcases List.mem_cons.mp member with rfl | member
      · exact path ▸ under_child
      · exact ih each member
  | directory path bare kind within others inside beside =>
      intro each member
      rcases List.mem_cons.mp member with rfl | member
      · exact path ▸ under_child
      · rcases List.mem_append.mp member with member | member
        · exact (path ▸ under_child : Under _ _).trans (inside each member)
        · exact beside each member

theorem unwound_above {at_ : Bytes} {dir : OpenDir} {above rest : List OpenDir}
    (deeper : ∀ other ∈ above, other.path ≠ at_) (here : dir.path = at_)
    : unwound at_ (above ++ dir :: rest) = dir :: rest := by
  induction above with
  | nil =>
      cases rest with
      | nil => rfl
      | cons below rest =>
          rw [List.nil_append, unwound, if_neg (not_not.mpr here)]
  | cons first above ih =>
      have next := ih fun other member => deeper other (List.mem_cons_of_mem _ member)
      cases shape : above ++ dir :: rest with
      | nil => simp at shape
      | cons below others =>
          rw [shape] at next
          rw [List.cons_append, shape, unwound, if_pos (deeper first List.mem_cons_self), next]

/-- The directory at a path is open, with only directories beneath it above it, and it is not left
out itself.
-/
structure OpenAt (at_ : Bytes) (dir : OpenDir) (rest : List OpenDir) (s : Extraction σ) : Prop where
  open_ : ∃ above, s.openDirs = above ++ dir :: rest ∧ ∀ other ∈ above, Under at_ other.path
  here : dir.path = at_
  reached : ∀ out, s.leftOut = some out → ¬ out ++ [slash] <+: at_ ++ [slash]

theorem Under.ne (under : Under at_ path) : path ≠ at_ := by
  rintro rfl
  have := under.length_le
  rw [List.length_append, List.length_singleton] at this
  omega

/-- An entry of an open directory is not left out, and what is open once deeper directories are
finished is that directory.
-/
theorem OpenAt.child {dir : OpenDir} {rest : List OpenDir} (opened : OpenAt at_ dir rest s)
    (bare : slash ∉ name)
    : s.leavesOut (at_ ++ slash :: name) = false ∧ unwound at_ s.openDirs = dir :: rest := by
  constructor
  · rw [← Bool.not_eq_true, leavesOut_iff]
    rintro ⟨out, left, under⟩
    exact opened.reached out left (under.of_child bare)
  · obtain ⟨above, open_, deeper⟩ := opened.open_
    rw [open_]
    exact unwound_above (fun other member => (deeper other member).ne) opened.here

/-- What is beneath a directory left out is passed over without a call. -/
theorem writeEntry_leftOut (left : s.leavesOut entry.path = true)
    : writeEntry sink tree entry s = .ok () s := by
  unfold writeEntry
  change (if s.leavesOut entry.path = true then (pure () : Run σ ε Unit) else _) s = _
  rw [if_pos left]
  rfl

/-- Writing an entry of the directory that is open at its parent is in order. -/
theorem Ready.writeChild (ready : Ready s) {dir : OpenDir} {rest : List OpenDir}
    (opened : OpenAt at_ dir rest s) (path : entry.path = at_ ++ slash :: name)
    (bare : slash ∉ name)
    : Ends (Host.writeEntry sink tree entry : Run σ ε Unit) s
      (fun _ s' => Ready s' ∧ Moved entry (s.firstName entry.shared) (dir :: rest) s'
        ∧ NamedBy [entry] s s') Fails := by
  obtain ⟨outside, top⟩ := opened.child bare
  have parted : ∀ {parent n : Bytes}, split (ε := ε) entry.path = .ok (parent, n)
      → parent = at_ := by
    intro parent n parts
    rw [path, split_child bare] at parts
    cases checked : checkName (ε := ε) name (at_ ++ slash :: name) with
    | error e =>
        rw [checked] at parts
        cases parts
    | ok done =>
        rw [checked] at parts
        cases parts
        rfl
  refine ready.writeEntry.mono (fun _ s' written => ?_) fun e s' failed => ?_
  · obtain ⟨ready', done⟩ := written
    rw [path, outside, if_neg (by simp), ← path] at done
    obtain ⟨parent, n, parts, _, moved, named⟩ := done
    obtain rfl := parted parts
    exact ⟨ready', top ▸ moved, named⟩
  · obtain ⟨stopped, why⟩ := failed
    refine ⟨?_, stopped⟩
    rcases why with fine | ⟨_, parent, n, parts, other⟩
    · exact fine
    · obtain rfl := parted parts
      rw [top] at other
      exact absurd (by rw [List.head?_cons, Option.map_some, opened.here]) other

/-- The directories among these entries are names for nodes that have none yet. -/
def Fresh (s : Extraction σ) (entries : List (TreeEntry ν)) : Prop :=
  ∀ entry ∈ entries, entry.kind = .directory → ∀ pair ∈ s.named, entry.shared ≠ some pair.1

theorem Fresh.firstName (fresh : Fresh s entries) (member : entry ∈ entries)
    (kind : entry.kind = .directory) : s.firstName entry.shared = none := by
  rw [Extraction.firstName, Option.bind_eq_none_iff]
  intro id shared
  rw [List.lookup_eq_none_iff]
  intro pair among
  have other := fresh entry member kind pair among
  rw [shared] at other
  simpa using fun same => other (congrArg some same)

theorem Fresh.sublist {part : List (TreeEntry ν)} (fresh : Fresh s entries)
    (part_ : List.Sublist part entries) : Fresh s part :=
  fun entry member => fresh entry (part_.subset member)

/-- Entries that share no node with a directory among the later ones leave those fresh. -/
theorem Fresh.after {before : List (TreeEntry ν)} (fresh : Fresh s entries)
    (named : NamedBy before s s') (apart : ∀ first ∈ before, ∀ second ∈ entries,
      second.kind = .directory → second.shared = none ∨ first.shared ≠ second.shared)
    : Fresh s' entries := by
  intro second member kind pair kept same
  rcases named pair kept with old | ⟨first, among, shared⟩
  · exact fresh second member kind pair old same
  · rcases apart first among second member kind with none_ | other
    · rw [none_] at same
      cases same
    · exact other (shared.trans same.symm)

theorem NamedBy.trans {s'' : Extraction σ} {later : List (TreeEntry ν)}
    (first : NamedBy entries s s') (second : NamedBy later s' s'')
    : NamedBy (entries ++ later) s s'' := by
  intro pair member
  rcases second pair member with kept | ⟨entry, among, shared⟩
  · rcases first pair kept with kept | ⟨entry, among, shared⟩
    · exact .inl kept
    · exact .inr ⟨entry, List.mem_append_left _ among, shared⟩
  · exact .inr ⟨entry, List.mem_append_right _ among, shared⟩

/-- A walk beneath an open directory is written in order and comes back to the directory, by
induction on the walk.
-/
theorem Beneath.inOrder (beneath : Beneath at_ entries) (single : Single entries) {dir : OpenDir}
    {rest : List OpenDir} (ready : Ready s) (fresh : Fresh s entries)
    (opened : OpenAt at_ dir rest s)
    : Ends (entries.forM (writeEntry sink tree) : Run σ ε Unit) s
      (fun _ s' => Ready s' ∧ OpenAt at_ dir rest s' ∧ NamedBy entries s s') Fails := by
  induction beneath generalizing s dir rest with
  | done => exact ⟨ready, opened, .of_eq rfl⟩
  | @leaf at_ name entry others path bare kind beneath ih =>
      obtain ⟨before, single⟩ := List.pairwise_cons.mp single
      refine Ends.then (ready.writeChild opened path bare) fun _ s₁ done => ?_
      obtain ⟨ready₁, moved, named⟩ := done
      have fresh₁ : Fresh s₁ others := (fresh.sublist (List.sublist_cons_self _ _)).after named
        fun first among => List.mem_singleton.mp among ▸ before
      cases moved with
      | stays _ open_ left =>
          refine (ih single ready₁ fresh₁ ⟨⟨[], open_, fun _ member =>
            absurd member List.not_mem_nil⟩, opened.here, fun out here => ?_⟩).mono
            (fun _ _ done => ⟨done.1, done.2.1, named.trans done.2.2⟩)
            fun _ _ fails => fails
          rw [left] at here
          cases here
      | enters kind' => exact absurd kind' kind
      | refuses kind' => exact absurd kind' kind
  | @directory at_ name entry inner others path bare kind within beneath inside beside =>
      obtain ⟨before, single⟩ := List.pairwise_cons.mp single
      obtain ⟨singleInner, singleOthers, across⟩ := List.pairwise_append.mp single
      refine Ends.then (ready.writeChild opened path bare) fun _ s₁ done => ?_
      obtain ⟨ready₁, moved, named⟩ := done
      have fresh₁ : Fresh s₁ (inner ++ others) :=
        (fresh.sublist (List.sublist_cons_self _ _)).after named
          fun first among => List.mem_singleton.mp among ▸ before
      rw [forM_append]
      have deeper : Under at_ entry.path := path ▸ under_child
      cases moved with
      | stays other =>
          rcases other with other | shared
          · exact absurd kind other
          · rw [fresh.firstName List.mem_cons_self kind] at shared
            cases shared
      | @enters new kind' newPath open_ left =>
          have opened₁ : OpenAt entry.path new (dir :: rest) s₁ := by
            refine ⟨⟨[], open_, fun _ member => absurd member List.not_mem_nil⟩, newPath,
              fun out here => ?_⟩
            rw [left] at here
            cases here
          refine Ends.then (inside singleInner ready₁
            (fresh₁.sublist (List.sublist_append_left _ _)) opened₁) fun _ s₂ done => ?_
          obtain ⟨ready₂, opened₂, named₂⟩ := done
          refine (beside singleOthers ready₂
            ((fresh₁.sublist (List.sublist_append_right _ _)).after named₂ across)
            ⟨?_, opened.here, fun out here covers => ?_⟩).mono
            (fun _ _ done => ⟨done.1, done.2.1, named.trans (named₂.trans done.2.2)⟩)
            fun _ _ fails => fails
          · obtain ⟨above, open₂, all⟩ := opened₂.open_
            refine ⟨above ++ [new], by rw [open₂]; simp, fun other member => ?_⟩
            rcases List.mem_append.mp member with member | member
            · exact deeper.trans (all other member)
            · rw [List.mem_singleton.mp member, newPath]
              exact deeper
          · exact opened₂.reached out here
              ((covers.trans deeper).trans (List.prefix_append entry.path [slash]))
      | refuses kind' open_ left =>
          have skipped : Ends (inner.forM (writeEntry sink tree) : Run σ ε Unit) s₁
              (fun _ s' => s' = s₁) Fails := by
            refine ends_forM  (fun each member s₂ same => ?_) rfl
            subst same
            have left : s₂.leavesOut each.path = true :=
              leavesOut_iff.mpr ⟨entry.path, left, within.under each member⟩
            rw [Ends, writeEntry_leftOut left]
          refine Ends.then skipped fun _ s₂ same => ?_
          subst same
          have still : NamedBy inner s₂ s₂ := .of_eq rfl
          refine (beside singleOthers ready₁ (fresh₁.sublist (List.sublist_append_right _ _))
            ⟨⟨[], open_, fun _ member => absurd member List.not_mem_nil⟩, opened.here,
              fun out here covers => ?_⟩).mono (fun _ _ done =>
                ⟨done.1, done.2.1, named.trans (still.trans done.2.2)⟩) fun _ _ fails => fails
          rw [left] at here
          obtain rfl := Option.some.inj here
          have := covers.length_le
          rw [path] at this
          simp only [List.length_append, List.length_cons, List.length_nil] at this
          omega

end

/-- What a whole extraction leaves behind: its calls were allowed, every directory it made was
opened, and every one it opened to be filled is finished.
-/
structure Complete (log : List Event) : Prop where
  sound : Sound log
  made : Made log
  finished : ∀ fd, Filling log fd → Finished log fd

/-- An entry is a directory left out at its own turn: the run goes on without it. -/
structure LeftOut {σ ν ε : Type} (sink : DirectorySink) (tree : HostTree σ ν ε)
    (entry : TreeEntry ν)
    (s s' : Extraction σ) : Prop where
  reached : s.leavesOut entry.path = false
  kind : entry.kind = .directory
  wrote : writeEntry sink tree entry s = .ok () s'
  left : s'.leftOut = some entry.path

section

variable {σ ε ν : Type} {path : Bytes} {s s' : Extraction σ} {sink : DirectorySink}
  {tree : HostTree σ ν ε} {entry root : TreeEntry ν} {entries before : List (TreeEntry ν)}

/-- The entries of a walk that are not ones the format makes for itself. -/
def handed (tree : HostTree σ ν ε) (entries : List (TreeEntry ν)) : List (TreeEntry ν) :=
  entries.filter fun entry => !madeByTheFormat entry.path tree.family

/-- The root's directory is opened to be filled, and is the only one open. -/
theorem Kept.writeRoot (kept : Kept s.log s.named (s.openDirs ++ s.held)) (none_ : s.openDirs = [])
    : Ends (writeRoot sink tree entry : Run σ ε Unit) s
      (fun _ s' => Ready s' ∧ (∃ dir, dir.path = [] ∧ s'.openDirs = [dir])
        ∧ s'.leftOut = s.leftOut ∧ s'.named = s.named) Fails := by
  have quiet : ∀ {α : Type} {m : Run σ ε α} {s₁ : Extraction σ}, Quiet m → Same s s₁
      → s₁.log = s.log
      → Ends m s₁ (fun _ s' => Same s s' ∧ s'.log = s.log) Fails := fun still same log =>
    (still _).mono (fun _ _ done => ⟨same.trans done.1, done.2.trans log⟩)
      fun _ _ failed => ⟨failed.1, by rw [failed.2.2, log]; exact kept.stopped⟩
  unfold Host.writeRoot
  refine Ends.then (quiet quiet_readTree (.refl s) rfl) fun attrs s₁ done => ?_
  obtain ⟨same₁, log₁⟩ := done
  refine Ends.then (quiet quiet_noteSynthesis same₁ log₁) fun _ s₂ done => ?_
  obtain ⟨same₂, log₂⟩ := done
  refine Ends.then (quiet quiet_noteFlags same₂ log₂) fun _ s₃ done => ?_
  obtain ⟨same₃, log₃⟩ := done
  have accounted : Accounted s₃.log s₃.named (s₃.openDirs ++ s₃.held) := by
    rw [log₃, same₃.named, same₃.openDirs, same₃.held]
    exact kept.toAccounted
  have made : ∀ result, Made (s₃.log ++ [⟨[slash], .openRoot false, result⟩]) := by
    intro result
    refine (log₃ ▸ kept.made).snoc ?_
    rintro path' dir name answer same
    cases same
  simp only [Host.openHandle, Host.perform, ends_bind, ends_get, ends_call]
  cases sink.destination s₃.log (.openRoot false) with
  | error e =>
      have still : Still s₃.log ⟨[slash], .openRoot false, .error e⟩ := by
        refine ⟨trivial, ?_, fun _ _ => rfl⟩
        rintro ⟨⟨_, failed⟩, _⟩
        cases failed
      exact ⟨trivial, (accounted.snoc still).stopped⟩
  | ok answer =>
      have fills : Event.Fills ⟨[slash], .openRoot false, .ok answer⟩ := ⟨⟨answer, rfl⟩, .inl rfl⟩
      have open_ : s₃.openDirs = [] := same₃.openDirs.trans none_
      simp only [ends_pure, ends_modify]
      have allowed : Allowed s₃.log ⟨[slash], .openRoot false, .ok answer⟩ := trivial
      refine ⟨⟨⟨accounted.opened allowed fills rfl, made _⟩, ?_⟩, ⟨_, rfl, by rw [open_]⟩,
        same₃.leftOut, same₃.named⟩
      refine ⟨[], ?_⟩
      rw [open_]
      exact .root rfl (@Opened.root _ _ [slash] false answer List.getElem?_concat_length)

/-- The entries that the format makes are passed over, and every other but the root is written. -/
theorem forM_visit (below : ∀ entry ∈ entries, entry.path ≠ [])
    : entries.forM (visit sink tree) = (handed tree entries).forM (writeEntry sink tree) := by
  induction entries with
  | nil => rfl
  | cons first rest ih =>
      have rest_ := ih fun entry member => below entry (List.mem_cons_of_mem _ member)
      have named : first.path.isEmpty = false := by
        rw [← Bool.not_eq_true, List.isEmpty_iff]
        exact below first List.mem_cons_self
      have step : (first :: rest).forM (visit sink tree)
          = (visit sink tree first >>= fun _ => rest.forM (visit sink tree)) := rfl
      rw [step, rest_, handed, handed, visit]
      cases made : madeByTheFormat first.path tree.family with
      | true =>
          rw [if_pos rfl, List.filter_cons_of_neg (by rw [made]; simp)]
          rfl
      | false =>
          rw [if_neg (by simp), if_neg (by rw [named]; simp),
            List.filter_cons_of_pos (by rw [made]; rfl)]
          rfl

/-- A walk is written whatever its order: the run goes on or is stopped. -/
theorem Ready.writeAll (ready : Ready s) (entries : List (TreeEntry ν))
    : Ends (entries.forM (Host.writeEntry sink tree) : Run σ ε Unit) s (fun _ s' => Ready s')
      fun _ s' => Stopped s'.log :=
  ends_forM (fun _ _ s₁ (ready₁ : Ready s₁) => ready₁.writeEntry.mono (fun _ _ done => done.1)
    fun _ _ fails => fails.1) ready

theorem madeByTheFormat_under {dir : Bytes} {family : Family}
    (made : madeByTheFormat dir family = true)
    (under : Under dir path) : madeByTheFormat path family = true := by
  have separator : "/".toUTF8.toList = [slash] := by decide +kernel
  unfold madeByTheFormat at made ⊢
  cases family with
  | ext =>
      simp only [separator, Bool.or_eq_true, beq_iff_eq, List.isPrefixOf_iff_prefix] at made ⊢
      rcases made with rfl | made
      · exact .inr under
      · exact .inr (made.trans ((List.prefix_append dir [slash]).trans under))
  | _ => cases made

/-- What the format makes is whole subtrees, so that a walk without it is a walk. -/
theorem Beneath.handed {at_ : Bytes} (beneath : Beneath at_ entries)
    : Beneath at_ (handed tree entries) := by
  induction beneath with
  | done at_ => exact .done at_
  | @leaf at_ name entry rest path bare kind _ ih =>
      rw [Host.handed, List.filter_cons]
      split
      · exact .leaf path bare kind ih
      · exact ih
  | @directory at_ name entry inner rest path bare kind within _ inside beside =>
      rw [Host.handed, List.filter_cons, List.filter_append]
      split
      · exact .directory path bare kind inside beside
      · rename_i made
        have all : inner.filter (fun entry => !madeByTheFormat entry.path tree.family) = [] := by
          refine List.filter_eq_nil_iff.mpr fun each member => ?_
          rw [madeByTheFormat_under (by simpa using made) (within.under each member)]
          simp
        rw [all]
        exact beside

/-- Where a run stands when the entries before one have been visited. -/
theorem run_snoc {last : TreeEntry ν} {s₀ : Extraction σ}
    (ran : (before ++ [last]).forM (writeEntry sink tree) s₀ = .ok () s)
    : ∃ s₁, before.forM (writeEntry sink tree) s₀ = .ok () s₁
      ∧ writeEntry sink tree last s₁ = .ok () s := by
  rw [forM_append, bind_eq_ok] at ran
  obtain ⟨_, s₁, first, second⟩ := ran
  have alone : [last].forM (writeEntry sink tree)
      = (writeEntry sink tree last >>= fun _ => pure PUnit.unit) := rfl
  rw [alone, bind_eq_ok] at second
  obtain ⟨_, s₂, wrote, done⟩ := second
  cases done
  exact ⟨s₁, first, wrote⟩

/-- What is left out when the entries before one have been written is the last directory left out at
its own turn, where all that came after it is beneath it, by induction on them from the last.
-/
theorem leftOut_iff {s₀ : Extraction σ} (ready : Ready s₀) (none_ : s₀.leftOut = none)
    (ran : before.forM (writeEntry sink tree) s₀ = .ok () s) {out : Bytes}
    : s.leftOut = some out ↔ ∃ front dir back s₁ s₂, before = front ++ dir :: back
        ∧ front.forM (writeEntry sink tree) s₀ = .ok () s₁ ∧ LeftOut sink tree dir s₁ s₂
        ∧ dir.path = out ∧ ∀ entry ∈ back, Under out entry.path := by
  constructor
  · intro left
    induction before using List.reverseRecOn generalizing s with
    | nil =>
        cases ran
        rw [none_] at left
        cases left
    | append_singleton init last ih =>
        obtain ⟨s₁, first, wrote⟩ := run_snoc ran
        have ready₁ : Ready s₁ := Ends.ok_of (ready.writeAll (ε := ε) init) first
        have done := Ends.ok_of (ready₁.writeEntry (ε := ε)) wrote
        cases outside : s₁.leavesOut last.path with
        | true =>
            rw [outside, if_pos rfl] at done
            obtain rfl := done.2
            obtain ⟨front, dir, back, s₂, s₃, rfl, reached, leftOut, same, all⟩ := ih first left
            refine ⟨front, dir, back ++ [last], s₂, s₃, by simp, reached, leftOut, same, ?_⟩
            intro entry member
            rcases List.mem_append.mp member with member | member
            · exact all entry member
            · rw [List.mem_singleton.mp member]
              obtain ⟨out', left', under⟩ := leavesOut_iff.mp outside
              rw [left] at left'
              exact Option.some.inj left' ▸ under
        | false =>
            rw [outside, if_neg (by simp)] at done
            obtain ⟨_, _, _, _, _, moved, _⟩ := done
            cases moved with
            | stays _ _ none₁ =>
                rw [none₁] at left
                cases left
            | enters _ _ _ none₁ =>
                rw [none₁] at left
                cases left
            | refuses kind _ here =>
                rw [here] at left
                exact ⟨init, last, [], s₁, s, rfl, first, ⟨outside, kind, wrote, here⟩,
                  Option.some.inj left, fun _ member => absurd member List.not_mem_nil⟩
  · rintro ⟨front, dir, back, s₁, s₂, rfl, reached, leftOut, rfl, all⟩
    have skipped : back.forM (writeEntry sink tree) s₂ = .ok () s₂ := by
      clear ran
      induction back with
      | nil => rfl
      | cons entry rest ih =>
          have step : (entry :: rest).forM (writeEntry sink tree)
              = (writeEntry sink tree entry >>= fun _ => rest.forM (writeEntry sink tree)) := rfl
          rw [step, bind_eq_ok]
          refine ⟨(), s₂, writeEntry_leftOut (leavesOut_iff.mpr ⟨dir.path, leftOut.left, ?_⟩), ?_⟩
          · exact all entry List.mem_cons_self
          · exact ih fun other member => all other (List.mem_cons_of_mem _ member)
    rw [forM_append, bind_eq_ok] at ran
    obtain ⟨_, s₃, first, second⟩ := ran
    rw [reached] at first
    cases first
    have step : (dir :: back).forM (writeEntry sink tree)
        = (writeEntry sink tree dir >>= fun _ => back.forM (writeEntry sink tree)) := rfl
    rw [step, bind_eq_ok] at second
    obtain ⟨_, s₄, wrote, rest⟩ := second
    rw [leftOut.wrote] at wrote
    cases wrote
    rw [skipped] at rest
    cases rest
    exact leftOut.left

theorem visit_root (first : root.path = []) : visit sink tree root = writeRoot sink tree root := by
  have kept : madeByTheFormat [] tree.family = false := by
    cases tree.family <;> decide +kernel
  rw [visit, first, if_neg (by rw [kept]; simp)]
  rfl

/-- The root is written first and opens the destination, to which the walk then is beneath. -/
theorem begun (sink : DirectorySink) (tree : HostTree σ ν ε) (reader : σ) (first : root.path = [])
    : Ends (visit sink tree root : Run σ ε Unit) (.begin reader)
      (fun _ s => Ready s ∧ (∃ dir, OpenAt [] dir [] s) ∧ s.leftOut = none ∧ s.named = [])
      Fails := by
  rw [visit_root first]
  have start : Kept (Extraction.begin reader).log (Extraction.begin reader).named
      ((Extraction.begin reader).openDirs ++ (Extraction.begin reader).held) := Kept.begin
  refine (start.writeRoot rfl).mono (fun _ s done => ?_) fun _ _ fails => fails
  obtain ⟨ready, ⟨dir, here, open_⟩, left, named⟩ := done
  refine ⟨ready, ⟨dir, ⟨[], open_, fun _ member => absurd member List.not_mem_nil⟩, here, ?_⟩,
    left, named⟩
  intro out here
  rw [left] at here
  cases here

/-- Entries the format does not make are all handed on. -/
theorem handed_eq_self (all : ∀ entry ∈ before, entry ∈ handed tree entries)
    : handed tree before = before :=
  List.filter_eq_self.mpr fun entry member => (List.mem_filter.mp (all entry member)).2

theorem writeTree_ends (sink : DirectorySink) (tree : HostTree σ ν ε) (reader : σ)
    (failure : Option ε) (first : root.path = []) (below : ∀ entry ∈ entries, entry.path ≠ [])
    : Ends (writeTree sink tree (root :: entries) failure) (.begin reader)
      (fun _ s => Complete s.log)
      fun e s => Stopped s.log ∧ (Beneath [] entries → Single entries → e.InOrder) := by
  have fails : ∀ {e : HostError ε} {s : Extraction σ}, Fails e s
      → Stopped s.log ∧ (Beneath [] entries → Single entries → e.InOrder) := fun fails =>
    ⟨fails.2, fun _ _ => fails.1⟩
  have step : (root :: entries).forM (visit sink tree)
      = (visit sink tree root >>= fun _ => (handed tree entries).forM (writeEntry sink tree)) := by
    rw [← forM_visit below]
    rfl
  rw [writeTree, step]
  simp only [ends_bind]
  refine (begun sink tree reader first).mono (fun _ s₁ done => ?_) fun _ _ failed => fails failed
  obtain ⟨ready₁, ⟨dir, opened⟩, _, named⟩ := done
  have walked : Ends ((handed tree entries).forM (writeEntry sink tree) : Run σ ε Unit) s₁
      (fun _ s' => Ready s')
      fun e s' => Stopped s'.log ∧ (Beneath [] entries → Single entries → e.InOrder) := by
    by_cases ordered : Beneath [] entries ∧ Single entries
    · have fresh : Fresh s₁ (handed tree entries) := fun _ _ _ pair member => by
        rw [named] at member
        cases member
      exact (ordered.1.handed.inOrder (ordered.2.filter _) ready₁ fresh opened).mono
        (fun _ _ done => done.1) fun _ _ failed => fails failed
    · exact (ready₁.writeAll _).mono (fun _ _ done => done)
        fun _ _ stopped => ⟨stopped, fun order single => absurd ⟨order, single⟩ ordered⟩
  refine walked.mono (fun _ s₂ ready₂ => ?_) fun _ _ failed => failed
  cases failure with
  | some e => exact ⟨ready₂.kept.stopped, fun _ _ => trivial⟩
  | none =>
      simp only [ends_bind, ends_get, ends_pure, ends_modify]
      refine (ready₂.kept.closeAll rfl).mono (fun _ s₃ kept₃ => ?_) fun _ _ failed => fails failed
      refine (Kept.drainHeld (s := { s₃ with held := [] }) kept₃).mono (fun _ s₄ kept₄ => ?_)
        fun _ _ failed => fails failed
      refine ⟨kept₄.sound, kept₄.made, fun fd filling => ?_⟩
      exact (kept₄.finished fd filling).resolve_right List.not_mem_nil

end

/-- A reader whose every node is plain. -/
def plainTree : HostTree Unit Unit Unit where
  family := .fat
  maxFileBytes := 0
  next _ := .ok none
  stat _ _ := .ok (⟨⟨0o755, 0, 0, ⟨0, 0⟩, ⟨0, 0⟩⟩, [], []⟩, ())
  readBytes _ _ _ _ := .ok ([], ())
  linkTarget _ _ := .ok ([], ())
  statedFlags _ _ := .ok (0, ())

/-- A host that grants what it is asked, but for a node of the kinds it is asked for with a mode. -/
def grants (nodes : Bool) : DirectorySink where
  destination _ c :=
    match nodes, c with
    | false, .mknodat .. => .error (.other 5)
    | _, _ => .ok ⟨(0, 0), (0, 0), (0, 0)⟩
  skipPrivileged := false
  skipUnsupported := false

def rootEntry : TreeEntry Unit := ⟨[], .directory, none, ()⟩
def dirEntry (name : UInt8) (shared : Option Nat) : TreeEntry Unit :=
  ⟨[slash, name], .directory, shared, ()⟩
def pipeEntry (dir name : UInt8) : TreeEntry Unit := ⟨[slash, dir, slash, name], .fifo, none, ()⟩

/-- The calls made, however a run ended. -/
def callsOf (result : EStateM.Result (HostError Unit) (Extraction Unit) ExtractReport)
    : List Event :=
  match result with
  | .ok _ s => s.log
  | .error _ s => s.log

/-- The error a run stopped with, if it did. -/
def errorOf (result : EStateM.Result (HostError Unit) (Extraction Unit) ExtractReport)
    : Option (HostError Unit) :=
  match result with
  | .ok _ _ => none
  | .error e _ => some e

theorem complete_of_ends {m : Run Unit Unit ExtractReport} {s : Extraction Unit}
    {bad : HostError Unit → Extraction Unit → Prop}
    (ends : Ends m s (fun _ s => Complete s.log) bad) (ran : errorOf (m s) = none)
    : Complete (callsOf (m s)) := by
  rw [Ends] at ends
  cases answered : m s with
  | ok report s' =>
      rw [answered] at ends
      exact ends
  | error e s' =>
      rw [answered] at ran
      cases ran

end Ferrosys.Host
