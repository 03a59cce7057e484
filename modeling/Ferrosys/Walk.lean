import Ferrosys.Library.Checked
import Ferrosys.Library.Loop

/-! The depth-first walk every family's reader is driven by: seed a frontier from the root's
children, pop a name, descend into it the first time its directory is reached, push its children in
reverse order so they pop in order, and yield each name once. What is held to a bound is both the
names popped and the names pushed.
-/

namespace Ferrosys

open Checked

/-- What a depth-first walk needs of a filesystem's reader: what sits on the frontier, what a
visitor is handed, what identifies a directory, and how a name's children are read.
-/
structure Walk (π ν κ ε : Type) where
  cap : Nat
  seed : Except ε (List π × List κ)
  resolve : π → Except ε ν
  descendKey : ν → Option κ
  /-- The names below an entry, in reverse name order. -/
  children : ν → Except ε (List π)
  repeated : ν → Except ε Unit
  tooLarge : Nat → ε

namespace Walk

/-- Where a walk has got to: the frontier with the next name first, the names yielded, the
directories entered or seeded, and what the visitor has made of it.
-/
structure State (π κ σ : Type) where
  stack : List π
  seen : Nat
  visited : List κ
  acc : σ
deriving DecidableEq

section

variable {π ν κ ε ε' σ : Type} [DecidableEq κ] (walk : Walk π ν κ ε)

/-- The frontier and the directories entered once `entry` is the name yielded: its children are
pushed the first time its identity is reached, and the family judges it where it is a repeat. The
sum that bounds the frontier saturates in the source, which no list in memory is long enough for.
-/
def descend (seen : Nat) (rest : List π) (visited : List κ) (entry : ν)
    : Except ε (List π × List κ) :=
  match walk.descendKey entry with
  | none => .ok (rest, visited)
  | some key =>
      if key ∈ visited then do
        walk.repeated entry
        return (rest, visited)
      else do
        let children ← walk.children entry
        refuseIf (walk.cap < seen + rest.length + children.length) (walk.tooLarge walk.cap)
        return (children.reverse ++ rest, key :: visited)

variable (from_ : ε → ε') (visit : σ → ν → Except ε' σ)

/-- One turn: pop a name, resolve it, descend into it or judge it, and yield it. -/
def turn (state : State π κ σ) : Loop.Next (State π κ σ) (Except ε' σ) :=
  match state.stack with
  | [] => .stop (.ok state.acc)
  | pending :: rest => Loop.orStop do
      refuseIf (walk.cap ≤ state.seen) (from_ (walk.tooLarge walk.cap))
      let seen := state.seen + 1
      let entry ← (walk.resolve pending).mapError from_
      let (stack, visited) ← (walk.descend seen rest state.visited entry).mapError from_
      let acc ← visit state.acc entry
      return .go ⟨stack, seen, visited, acc⟩

variable {walk from_ visit}

/-- What a turn that goes on has done. -/
theorem turn_go {state next : State π κ σ} (taken : walk.turn from_ visit state = .go next)
    : ∃ pending rest entry, state.stack = pending :: rest ∧ state.seen < walk.cap
        ∧ walk.resolve pending = .ok entry
        ∧ walk.descend (state.seen + 1) rest state.visited entry = .ok (next.stack, next.visited)
        ∧ next.seen = state.seen + 1 ∧ visit state.acc entry = .ok next.acc := by
  unfold turn at taken
  split at taken
  next => cases taken
  next pending rest shape =>
    obtain ⟨_, room, taken⟩ := bind_eq_ok.mp (Loop.orStop_eq_go taken)
    obtain ⟨entry, resolved, taken⟩ := bind_eq_ok.mp taken
    obtain ⟨⟨stack, visited⟩, descended, taken⟩ := bind_eq_ok.mp taken
    obtain ⟨acc, yielded, taken⟩ := bind_eq_ok.mp taken
    cases taken
    exact ⟨pending, rest, entry, shape, by simpa using room, mapError_eq_ok.mp resolved,
      mapError_eq_ok.mp descended, rfl, yielded⟩

/-- Every turn yields a name, and there are only so many to yield. -/
theorem turn_lowers
    : Loop.Lowers (walk.turn from_ visit) fun state => walk.cap - state.seen := by
  intro state next taken
  obtain ⟨_, _, _, _, room, _, _, counted, _⟩ := turn_go taken
  simp only [counted]
  omega

variable (walk from_ visit)

/-- Walk every name below the root, handing each to `visit`. -/
def drive (acc : σ) : Except ε' σ := do
  let (stack, seeded) ← walk.seed.mapError from_
  refuseIf (walk.cap < stack.length) (from_ (walk.tooLarge walk.cap))
  Loop.total (walk.turn from_ visit) (fun state => walk.cap - state.seen) turn_lowers
    ⟨stack.reverse, 0, seeded, acc⟩

/-- A call a walk makes: for the children of the directory under a key, or to the visitor. -/
inductive Call (ν κ : Type) where
  | children (key : κ)
  | visit (entry : ν)
deriving DecidableEq

def Call.key? : Call ν κ → Option κ
  | .children key => some key
  | .visit _ => none

def Call.entry? : Call ν κ → Option ν
  | .children _ => none
  | .visit entry => some entry

/-- The calls one turn makes, in order. -/
def turnCalls (state : State π κ σ) : List (Call ν κ) :=
  match state.stack with
  | [] => []
  | pending :: rest =>
      if walk.cap ≤ state.seen then []
      else
        match walk.resolve pending with
        | .error _ => []
        | .ok entry =>
            ((walk.descendKey entry).filter (· ∉ state.visited)).toList.map .children
              ++ (match walk.descend (state.seen + 1) rest state.visited entry with
                  | .error _ => []
                  | .ok _ => [.visit entry])

/-- The calls a walk makes from a state within so many turns. -/
def calls : (turns : Nat) → (state : State π κ σ) → List (Call ν κ)
  | 0, _ => []
  | turns + 1, state =>
      walk.turnCalls state
        ++ (match walk.turn from_ visit state with
            | .go next => calls turns next
            | .stop _ => [])

end

section

variable {π ν κ ε : Type} (walk : Walk π ν κ ε)

/-- The names below some directories in the order of a depth-first walk that enters no directory
twice: a parent before its children, and siblings in the order of their names.
-/
inductive Preorder : List κ → List π → List ν → List κ → Prop
  | nil {entered} : Preorder entered [] [] entered
  | leaf {entered pending entry rest entries left}
    (resolved : walk.resolve pending = .ok entry) (plain : walk.descendKey entry = none)
    (later : Preorder entered rest entries left)
    : Preorder entered (pending :: rest) (entry :: entries) left
  | again {entered pending entry key rest entries left}
    (resolved : walk.resolve pending = .ok entry) (keyed : walk.descendKey entry = some key)
    (before : key ∈ entered) (later : Preorder entered rest entries left)
    : Preorder entered (pending :: rest) (entry :: entries) left
  | enter {entered pending entry key names below middle rest entries left}
    (resolved : walk.resolve pending = .ok entry) (keyed : walk.descendKey entry = some key)
    (first : key ∉ entered) (read : walk.children entry = .ok names)
    (inside : Preorder (key :: entered) names.reverse below middle)
    (later : Preorder middle rest entries left)
    : Preorder entered (pending :: rest) (entry :: (below ++ entries)) left

variable {walk}

/-- A walk of names in two parts is a walk of the first and, from where that ends, of the second,
by induction on the names of the first.
-/
theorem Preorder.split {first second : List π} {entered left : List κ} {entries : List ν}
    (walked : walk.Preorder entered (first ++ second) entries left)
    : ∃ before after middle, entries = before ++ after
        ∧ walk.Preorder entered first before middle ∧ walk.Preorder middle second after left := by
  induction first generalizing entered entries with
  | nil => exact ⟨[], entries, entered, rfl, .nil, walked⟩
  | cons pending rest ih =>
      cases walked with
      | leaf resolved plain later =>
          obtain ⟨before, after, middle, rfl, here, there⟩ := ih later
          exact ⟨_, after, middle, rfl, .leaf resolved plain here, there⟩
      | again resolved keyed held later =>
          obtain ⟨before, after, middle, rfl, here, there⟩ := ih later
          exact ⟨_, after, middle, rfl, .again resolved keyed held here, there⟩
      | enter resolved keyed first read inside later =>
          obtain ⟨before, after, middle, rfl, here, there⟩ := ih later
          refine ⟨_, after, middle, ?_, .enter resolved keyed first read inside here, there⟩
          rw [List.cons_append, List.append_assoc]

/-- There is one such walk, by induction on it. -/
theorem Preorder.unique {pendings : List π} {entered left left' : List κ}
    {entries entries' : List ν} (walked : walk.Preorder entered pendings entries left)
    (walked' : walk.Preorder entered pendings entries' left') : entries = entries' ∧ left = left' := by
  induction walked generalizing entries' left' with
  | nil =>
      cases walked'
      exact ⟨rfl, rfl⟩
  | leaf resolved plain later ih =>
      cases walked' with
      | leaf resolved' plain' later' =>
          obtain rfl := Except.ok.inj (resolved.symm.trans resolved')
          obtain ⟨rfl, rfl⟩ := ih later'
          exact ⟨rfl, rfl⟩
      | again resolved' keyed' before' later' =>
          obtain rfl := Except.ok.inj (resolved.symm.trans resolved')
          cases plain.symm.trans keyed'
      | enter resolved' keyed' first' read' inside' later' =>
          obtain rfl := Except.ok.inj (resolved.symm.trans resolved')
          cases plain.symm.trans keyed'
  | again resolved keyed before later ih =>
      cases walked' with
      | leaf resolved' plain' later' =>
          obtain rfl := Except.ok.inj (resolved.symm.trans resolved')
          cases plain'.symm.trans keyed
      | again resolved' keyed' before' later' =>
          obtain rfl := Except.ok.inj (resolved.symm.trans resolved')
          obtain ⟨rfl, rfl⟩ := ih later'
          exact ⟨rfl, rfl⟩
      | enter resolved' keyed' first' read' inside' later' =>
          obtain rfl := Except.ok.inj (resolved.symm.trans resolved')
          obtain rfl := Option.some.inj (keyed.symm.trans keyed')
          exact absurd before first'
  | enter resolved keyed first read inside later ihInside ihLater =>
      cases walked' with
      | leaf resolved' plain' later' =>
          obtain rfl := Except.ok.inj (resolved.symm.trans resolved')
          cases plain'.symm.trans keyed
      | again resolved' keyed' before' later' =>
          obtain rfl := Except.ok.inj (resolved.symm.trans resolved')
          obtain rfl := Option.some.inj (keyed.symm.trans keyed')
          exact absurd before' first
      | enter resolved' keyed' first' read' inside' later' =>
          obtain rfl := Except.ok.inj (resolved.symm.trans resolved')
          obtain rfl := Option.some.inj (keyed.symm.trans keyed')
          obtain rfl := Except.ok.inj (read.symm.trans read')
          obtain ⟨rfl, rfl⟩ := ihInside inside'
          obtain ⟨rfl, rfl⟩ := ihLater later'
          exact ⟨rfl, rfl⟩

end

section

variable {ν κ : Type}

/-- The keys under which a walk reads children, in order. -/
def Call.keys (calls : List (Call ν κ)) : List κ := calls.filterMap Call.key?

/-- The entries a walk hands to its visitor, in order. -/
def Call.entries (calls : List (Call ν κ)) : List ν := calls.filterMap Call.entry?

theorem Call.keys_append (first second : List (Call ν κ))
    : keys (first ++ second) = keys first ++ keys second := List.filterMap_append

theorem Call.entries_append (first second : List (Call ν κ))
    : entries (first ++ second) = entries first ++ entries second := List.filterMap_append

@[simp] theorem Call.keys_children (keys_ : List κ)
    : keys (keys_.map .children : List (Call ν κ)) = keys_ := by
  simp [keys, List.filterMap_map, Function.comp_def, Call.key?]

@[simp] theorem Call.entries_children (keys_ : List κ)
    : entries (keys_.map .children : List (Call ν κ)) = [] := by
  simp [entries, List.filterMap_map, Function.comp_def, Call.entry?]

end

section

variable {π ν κ ε ε' σ : Type} [DecidableEq κ] {walk : Walk π ν κ ε} {from_ : ε → ε'}
  {visit : σ → ν → Except ε' σ}

/-- What descending leaves: the frontier as it was, or the children of a directory not entered
before in front of it, within the cap.
-/
theorem descend_eq_ok {seen : Nat} {rest stack : List π} {visited visited' : List κ} {entry : ν}
    (descended : walk.descend seen rest visited entry = .ok (stack, visited'))
    : (stack = rest ∧ visited' = visited
        ∧ (walk.descendKey entry = none ∨ ∃ key ∈ visited, walk.descendKey entry = some key))
      ∨ ∃ key names, walk.descendKey entry = some key ∧ key ∉ visited
          ∧ walk.children entry = .ok names ∧ seen + rest.length + names.length ≤ walk.cap
          ∧ stack = names.reverse ++ rest ∧ visited' = key :: visited := by
  unfold descend at descended
  split at descended
  next plain =>
    cases descended
    exact .inl ⟨rfl, rfl, .inl plain⟩
  next key keyed =>
    split at descended
    next before =>
      obtain ⟨_, _, descended⟩ := bind_eq_ok.mp descended
      cases descended
      exact .inl ⟨rfl, rfl, .inr ⟨key, before, keyed⟩⟩
    next first =>
      obtain ⟨names, read, descended⟩ := bind_eq_ok.mp descended
      obtain ⟨_, room, descended⟩ := bind_eq_ok.mp descended
      cases descended
      exact .inr ⟨key, names, keyed, first, read, by simpa using room, rfl, rfl⟩

/-- The calls of a turn that goes on: for the children of the directory it enters, if it enters
one, and to the visitor.
-/
theorem turnCalls_of_go {state next : State π κ σ}
    (taken : walk.turn from_ visit state = .go next)
    : ∃ pending rest entry entered, state.stack = pending :: rest
        ∧ walk.resolve pending = .ok entry
        ∧ walk.descend (state.seen + 1) rest state.visited entry = .ok (next.stack, next.visited)
        ∧ visit state.acc entry = .ok next.acc
        ∧ walk.turnCalls state = entered.map .children ++ [.visit entry]
        ∧ next.visited = entered ++ state.visited
        ∧ entered.Nodup ∧ ∀ key ∈ entered, key ∉ state.visited := by
  obtain ⟨pending, rest, entry, shape, room, resolved, descended, -, yielded⟩ := turn_go taken
  have made : walk.turnCalls state
      = ((walk.descendKey entry).filter (· ∉ state.visited)).toList.map .children
        ++ [.visit entry] := by
    simp [turnCalls, shape, Nat.not_le.mpr room, resolved, descended]
  refine ⟨pending, rest, entry, _, shape, resolved, descended, yielded, made, ?_⟩
  rcases descend_eq_ok descended with ⟨-, same, plain | ⟨key, before, keyed⟩⟩
    | ⟨key, names, keyed, first, -, -, -, same⟩
  · simp [plain, same]
  · simp [keyed, before, same, Option.filter_some]
  · simp [keyed, first, same, Option.filter_some]

/-- The calls of any turn: for the children of at most one directory, not entered before, and to
the visitor at most once and only below the cap.
-/
theorem turnCalls_within (state : State π κ σ)
    : (Call.keys (walk.turnCalls state)).Nodup
      ∧ (∀ key ∈ Call.keys (walk.turnCalls state), key ∉ state.visited)
      ∧ (Call.entries (walk.turnCalls state)).length ≤ walk.cap - state.seen
      ∧ (Call.entries (walk.turnCalls state)).length ≤ 1 := by
  unfold turnCalls
  split
  next => simp [Call.keys, Call.entries]
  next pending rest shape =>
    split
    next => simp [Call.keys, Call.entries]
    next room =>
      split
      next => simp [Call.keys, Call.entries]
      next entry resolved =>
        have one : ∀ made : Except ε (List π × List κ),
            (Call.entries (match made with
              | .error _ => []
              | .ok _ => [Call.visit entry] : List (Call ν κ))).length ≤ 1
            ∧ Call.keys (match made with
              | .error _ => []
              | .ok _ => [Call.visit entry] : List (Call ν κ)) = [] := by
          intro made
          cases made <;> simp [Call.entries, Call.keys, Call.entry?, Call.key?]
        obtain ⟨few, none_⟩ := one (walk.descend (state.seen + 1) rest state.visited entry)
        rw [Call.keys_append, Call.entries_append, Call.keys_children, Call.entries_children,
          none_, List.append_nil, List.nil_append]
        refine ⟨?_, ?_, by omega, few⟩
        · cases walk.descendKey entry with
          | none => simp
          | some key =>
              by_cases before : key ∈ state.visited <;> simp [before, Option.filter_some]
        · intro key member
          simpa using (Option.filter_eq_some_iff.mp (Option.mem_toList.mp member)).2

/-- A walk reads the children of no directory twice, nor of one entered before it began, by
induction on its turns.
-/
theorem calls_keys (turns : Nat) (state : State π κ σ)
    : (Call.keys (walk.calls from_ visit turns state)).Nodup
      ∧ ∀ key ∈ Call.keys (walk.calls from_ visit turns state), key ∉ state.visited := by
  induction turns generalizing state with
  | zero => simp [calls, Call.keys]
  | succ turns ih =>
      rw [calls, Call.keys_append]
      cases taken : walk.turn from_ visit state with
      | stop result =>
          obtain ⟨distinct, fresh, -⟩ := @turnCalls_within _ _ _ _ _ _ walk state
          simpa [Call.keys] using And.intro distinct fresh
      | go next =>
          obtain ⟨_, _, entry, entered, -, -, -, -, made, same, distinct, fresh⟩ :=
            turnCalls_of_go taken
          obtain ⟨later, apart⟩ := ih next
          have keys : Call.keys (walk.turnCalls state) = entered := by
            rw [made, Call.keys_append, Call.keys_children]
            simp [Call.keys, Call.key?]
          rw [keys]
          rw [same] at apart
          refine ⟨List.nodup_append.mpr ⟨distinct, later, ?_⟩, ?_⟩
          · rintro key here _ there rfl
            exact apart key there (List.mem_append_left _ here)
          · intro key member
            rcases List.mem_append.mp member with here | there
            · exact fresh key here
            · exact fun before => apart key there (List.mem_append_right _ before)

/-- A walk hands its visitor no more names than are left of the cap, by induction on its turns. -/
theorem calls_entries_length (turns : Nat) (state : State π κ σ)
    : (Call.entries (walk.calls from_ visit turns state)).length ≤ walk.cap - state.seen := by
  induction turns generalizing state with
  | zero => simp [calls, Call.entries]
  | succ turns ih =>
      obtain ⟨-, -, few, one⟩ := @turnCalls_within _ _ _ _ _ _ walk state
      rw [calls, Call.entries_append, List.length_append]
      cases taken : walk.turn from_ visit state with
      | stop result => simpa [Call.entries] using few
      | go next =>
          obtain ⟨-, -, -, -, room, -, -, counted, -⟩ := turn_go taken
          have later := ih next
          rw [counted] at later
          dsimp only
          omega

/-- The names yielded and those on the frontier together are within the cap. -/
def State.Bounded (walk : Walk π ν κ ε) (state : State π κ σ) : Prop :=
  state.seen + state.stack.length ≤ walk.cap

/-- Every turn keeps the frontier within the cap. -/
theorem Bounded.step (state next : State π κ σ) (bounded : state.Bounded walk)
    (taken : walk.turn from_ visit state = .go next) : next.Bounded walk := by
  obtain ⟨pending, rest, entry, shape, room, -, descended, counted, -⟩ := turn_go taken
  rw [State.Bounded, shape, List.length_cons] at bounded
  rw [State.Bounded, counted]
  rcases descend_eq_ok descended with ⟨same, -⟩ | ⟨_, names, -, -, -, fits, same, -⟩
  · rw [same]
    omega
  · rw [same, List.length_append, List.length_reverse]
    omega

/-- What a walk that ends well has handed to its visitor is the depth-first walk of its frontier,
by induction on its turns.
-/
theorem calls_preorder {turns : Nat} {state : State π κ σ} {acc : σ}
    (ended : Loop.run (walk.turn from_ visit) turns state = some (.ok acc))
    : ∃ left, walk.Preorder state.visited state.stack
          (Call.entries (walk.calls from_ visit turns state)) left
        ∧ (Call.entries (walk.calls from_ visit turns state)).foldlM visit state.acc = .ok acc := by
  induction turns generalizing state with
  | zero => cases ended
  | succ turns ih =>
      rw [calls, Call.entries_append]
      cases taken : walk.turn from_ visit state with
      | stop result =>
          simp only [Loop.run, taken, Option.some.injEq] at ended
          subst ended
          unfold turn at taken
          split at taken
          next empty =>
            cases taken
            refine ⟨state.visited, ?_, ?_⟩
            · simpa [turnCalls, empty, Call.entries] using Preorder.nil
            · simp [turnCalls, empty, Call.entries, pure, Except.pure]
          next =>
            obtain ⟨_, _, taken⟩ := bind_eq_ok.mp (Loop.orStop_eq_stop taken)
            obtain ⟨_, _, taken⟩ := bind_eq_ok.mp taken
            obtain ⟨⟨_, _⟩, _, taken⟩ := bind_eq_ok.mp taken
            obtain ⟨_, _, taken⟩ := bind_eq_ok.mp taken
            cases taken
      | go next =>
          simp only [Loop.run, taken] at ended
          obtain ⟨left, walked, folded⟩ := ih ended
          obtain ⟨pending, rest, entry, entered, shape, resolved, descended, yielded, made, -⟩ :=
            turnCalls_of_go taken
          have entries : Call.entries (walk.turnCalls state) = [entry] := by
            rw [made, Call.entries_append, Call.entries_children]
            rfl
          have both (more : List ν) (rest_ : more.foldlM visit next.acc = .ok acc)
              : ([entry] ++ more).foldlM visit state.acc = .ok acc := by
            rw [List.singleton_append, List.foldlM_cons, yielded, ok_bind, rest_]
          rw [entries, shape]
          rcases descend_eq_ok descended with ⟨same, kept, plain | ⟨key, before, keyed⟩⟩
            | ⟨key, names, keyed, first, read, -, same, kept⟩
          · rw [same, kept] at walked
            exact ⟨left, .leaf resolved plain walked, both _ folded⟩
          · rw [same, kept] at walked
            exact ⟨left, .again resolved keyed before walked, both _ folded⟩
          · rw [same, kept] at walked
            obtain ⟨below, after, middle, split, inside, later⟩ := walked.split
            refine ⟨left, ?_, both _ folded⟩
            dsimp only
            rw [split, List.singleton_append]
            exact .enter resolved keyed first read inside later

variable (walk from_ visit)

/-- Where a walk begins: the root's children on the frontier, and the keys seeded entered. -/
def start (stack : List π) (seeded : List κ) (acc : σ) : State π κ σ :=
  ⟨stack.reverse, 0, seeded, acc⟩

/-- What a walk promises of every reader and every visitor. -/
structure Drives (acc : σ) (stack : List π) (seeded : List κ) : Prop where
  /-- It ends, within one turn more than the cap. -/
  terminates : (Loop.run (walk.turn from_ visit) (walk.cap + 1) (start stack seeded acc)).isSome
  /-- A frontier past the cap is refused before a name is popped. -/
  refuses : walk.cap < stack.length →
    walk.drive from_ visit acc = .error (from_ (walk.tooLarge walk.cap))
  /-- The names yielded and those on the frontier are never more than the cap. -/
  bounded : stack.length ≤ walk.cap → ∀ state,
    Relation.ReflTransGen (Loop.Turn (walk.turn from_ visit)) (start stack seeded acc) state →
    state.seen + state.stack.length ≤ walk.cap
  /-- The visitor is called at most as often as the cap says. -/
  yields : ∀ turns, (Call.entries
    (walk.calls from_ visit turns (start stack seeded acc))).length ≤ walk.cap
  /-- Children are read at most once for a key, and never for one seeded. -/
  once : ∀ turns, (Call.keys (walk.calls from_ visit turns (start stack seeded acc))).Nodup
    ∧ ∀ key ∈ Call.keys (walk.calls from_ visit turns (start stack seeded acc)), key ∉ seeded
  /-- Where it ends well, the visitor has been called for the names of the one depth-first walk
  that enters no directory twice, in its order.
  -/
  preorder : ∀ final, walk.drive from_ visit acc = .ok final →
    ∃ entries left,
      Call.entries (walk.calls from_ visit (walk.cap + 1) (start stack seeded acc)) = entries
      ∧ entries.foldlM visit acc = .ok final
      ∧ walk.Preorder seeded stack.reverse entries left
      ∧ ∀ others left', walk.Preorder seeded stack.reverse others left' → others = entries

variable {walk from_ visit}

/-- A walk whose frontier fits answers what its loop does. -/
theorem drive_eq {stack : List π} {seeded : List κ} (seeds : walk.seed = .ok (stack, seeded))
    (fits : stack.length ≤ walk.cap) (acc : σ)
    : Loop.run (walk.turn from_ visit) (walk.cap + 1) (start stack seeded acc)
      = some (walk.drive from_ visit acc) := by
  have room : refuseIf (decide (walk.cap < stack.length)) (from_ (walk.tooLarge walk.cap))
      = .ok () := by
    simpa using fits
  have begun : walk.drive from_ visit acc
      = Loop.total (walk.turn from_ visit) (fun state => walk.cap - state.seen) turn_lowers
          (start stack seeded acc) := by
    rw [drive, seeds]
    change (refuseIf _ _ >>= fun _ => _) = _
    rw [room]
    rfl
  rw [begun]
  exact Loop.run_eq_total turn_lowers (start stack seeded acc)

/-- A walk whose frontier is past the cap at once answers so. -/
theorem drive_eq_error {stack : List π} {seeded : List κ} (seeds : walk.seed = .ok (stack, seeded))
    (past : walk.cap < stack.length) (acc : σ)
    : walk.drive from_ visit acc = .error (from_ (walk.tooLarge walk.cap)) := by
  have refused : refuseIf (decide (walk.cap < stack.length)) (from_ (walk.tooLarge walk.cap))
      = .error (from_ (walk.tooLarge walk.cap)) := by
    simp [refuseIf, past]
  rw [drive, seeds]
  change (refuseIf _ _ >>= fun _ => _) = _
  rw [refused]
  rfl

/-- A walk keeps its promise. -/
theorem drive_walks (walk : Walk π ν κ ε) (from_ : ε → ε') (visit : σ → ν → Except ε' σ) (acc : σ)
    (stack : List π) (seeded : List κ) (seeds : walk.seed = .ok (stack, seeded))
    : Drives walk from_ visit acc stack seeded where
  terminates :=
    Loop.run_isSome turn_lowers (walk.cap + 1) (start stack seeded acc) (Nat.lt_succ_self _)
  refuses past := drive_eq_error seeds past acc
  bounded fits state reached := by
    have begun : (start stack seeded acc).Bounded walk := by
      simpa [State.Bounded, start] using fits
    have held : state.Bounded walk := Loop.invariant Bounded.step begun reached
    exact held
  yields turns := calls_entries_length turns (start stack seeded acc)
  once turns := calls_keys turns (start stack seeded acc)
  preorder final ended := by
    have fits : stack.length ≤ walk.cap := by
      by_contra past
      cases ended.symm.trans (drive_eq_error seeds (not_le.mp past) acc)
    have ran : Loop.run (walk.turn from_ visit) (walk.cap + 1) (start stack seeded acc)
        = some (.ok final) := by
      rw [drive_eq seeds fits acc, ended]
    obtain ⟨left, walked, folded⟩ := calls_preorder ran
    exact ⟨_, left, rfl, folded, walked, fun others left' walked' => (walked'.unique walked).1⟩

/-- A root that holds `a`, whose directory holds `b`, which names the root again. -/
def cycle : Walk Nat Nat Nat String where
  cap := 100
  seed := .ok ([1], [0])
  resolve := .ok
  descendKey := fun number => some (number % 2)
  children := fun number => .ok [number + 1]
  repeated := fun _ => .ok ()
  tooLarge := fun _ => "too large"

/-- That walk yields two names and passes the repeat over. -/
theorem drive_walks_cycle
    : Drives cycle id (fun acc entry => .ok (acc ++ [entry])) [] [1] [0]
      ∧ cycle.drive id (fun acc entry => .ok (acc ++ [entry])) [] = .ok [1, 2] :=
  ⟨drive_walks cycle id _ [] [1] [0] rfl, by rfl⟩

end

end Walk

end Ferrosys
