import Ferrosys.Resolve

/-! A resolution answers what the one that keeps its directories does, and its ancestors stay in
step with the place it is in: it leaves the filesystem by no interleaving of links and dots.
-/

namespace Ferrosys.Resolve

open Checked Loop

variable {α ν ε : Type} {reader : Resolve α ν ε} {path : Bytes} {followFinal : Bool}

/-- The state of the loop at a place. -/
def Place.state (reader : Resolve α ν ε) (place : Place ν) (pending : List Bytes) (hops : Nat)
    : State α ν :=
  ⟨pending, place.here, place.above.map reader.ancestorOf, hops⟩

/-- There is one resolution of components from a place, by induction on it. -/
theorem Resolves.unique {last : Bool} {parts : List Bytes} {place : Place ν} {links links' : Nat}
    {outcome outcome' : Outcome ν ε} (resolved : reader.Resolves path last parts place links outcome)
    (resolved' : reader.Resolves path last parts place links' outcome')
    : links = links' ∧ outcome = outcome' := by
  induction resolved generalizing links' outcome' with
  | done =>
      cases resolved'
      exact ⟨rfl, rfl⟩
  | refused met =>
      cases resolved' with
      | refused met' =>
          cases met.symm.trans met'
          exact ⟨rfl, rfl⟩
      | step met' later' => cases met.symm.trans met'
      | unfollowed met' begun' => cases met.symm.trans met'
      | astray met' begun' inside' => cases met.symm.trans met'
      | follow met' begun' inside' later' => cases met.symm.trans met'
  | step met later ih =>
      cases resolved' with
      | refused met' => cases met.symm.trans met'
      | step met' later' =>
          cases met.symm.trans met'
          exact ih later'
      | unfollowed met' begun' => cases met.symm.trans met'
      | astray met' begun' inside' => cases met.symm.trans met'
      | follow met' begun' inside' later' => cases met.symm.trans met'
  | unfollowed met begun =>
      cases resolved' with
      | refused met' => cases met.symm.trans met'
      | step met' later' => cases met.symm.trans met'
      | unfollowed met' begun' =>
          cases met.symm.trans met'
          cases begun.symm.trans begun'
          exact ⟨rfl, rfl⟩
      | astray met' begun' inside' =>
          cases met.symm.trans met'
          cases begun.symm.trans begun'
      | follow met' begun' inside' later' =>
          cases met.symm.trans met'
          cases begun.symm.trans begun'
  | astray met begun inside ih =>
      cases resolved' with
      | refused met' => cases met.symm.trans met'
      | step met' later' => cases met.symm.trans met'
      | unfollowed met' begun' =>
          cases met.symm.trans met'
          cases begun.symm.trans begun'
      | astray met' begun' inside' =>
          cases met.symm.trans met'
          cases begun.symm.trans begun'
          obtain ⟨rfl, same⟩ := ih inside'
          cases same
          exact ⟨rfl, rfl⟩
      | follow met' begun' inside' later' =>
          cases met.symm.trans met'
          cases begun.symm.trans begun'
          cases (ih inside').2
  | follow met begun inside later ihInside ihLater =>
      cases resolved' with
      | refused met' => cases met.symm.trans met'
      | step met' later' => cases met.symm.trans met'
      | unfollowed met' begun' =>
          cases met.symm.trans met'
          cases begun.symm.trans begun'
      | astray met' begun' inside' =>
          cases met.symm.trans met'
          cases begun.symm.trans begun'
          cases (ihInside inside').2
      | follow met' begun' inside' later' =>
          cases met.symm.trans met'
          cases begun.symm.trans begun'
          obtain ⟨rfl, same⟩ := ihInside inside'
          cases same
          obtain ⟨rfl, rfl⟩ := ihLater later'
          exact ⟨rfl, rfl⟩

/-- Expanding a link at a place begins its target where the target says, within the limit. -/
theorem expand_state (place : Place ν) (part : Bytes) (pending : List Bytes) (hops : Nat)
    (target : Bytes)
    : reader.expand path (place.state reader (part :: pending) hops) pending target
      = if maxSymlinkHops < hops + 1 then .error (reader.tooManyLinks path)
        else (reader.beginning path place target).map fun start =>
          start.state reader (canonicalParts target ++ pending) (hops + 1) := by
  unfold expand beginning Place.state
  dsimp only
  by_cases spent : maxSymlinkHops < hops + 1
  · simp [spent, refuseIf, bind, Except.bind]
  · cases empty : target.isEmpty with
    | true => simp [spent, refuseIf, bind, Except.bind, Except.map]
    | false =>
        simp only [spent, refuseIf, decide_false, Bool.false_eq_true, if_false, ok_bind]
        split
        next => cases reader.rootNode <;> rfl
        next => rfl

/-- One turn at a place does what its component comes to: it refuses, moves to another place, or
expands a link into the components before what is left.
-/
theorem turn_state (place : Place ν) (part : Bytes) (pending : List Bytes) (hops : Nat)
    : reader.turn path followFinal (place.state reader (part :: pending) hops)
      = match reader.consider path (followFinal || !pending.isEmpty) place part with
        | .error error => .stop (.error error)
        | .ok (.inl next) => .go (next.state reader pending hops)
        | .ok (.inr target) =>
            if maxSymlinkHops < hops + 1 then .stop (.error (reader.tooManyLinks path))
            else match reader.beginning path place target with
              | .error error => .stop (.error error)
              | .ok start => .go (start.state reader (canonicalParts target ++ pending) (hops + 1)) := by
  unfold turn consider Place.state
  dsimp only
  cases directory : reader.isDirectory place.here with
  | false => rfl
  | true =>
      by_cases up : part = dotDot
      · simp only [if_pos up]
        cases place with
        | mk here above =>
            cases above with
            | nil => rfl
            | cons first rest =>
                simp only [List.map_cons]
                cases reader.nodeAt (reader.ancestorOf first) <;> rfl
      · simp only [if_neg up]
        cases found : reader.findName place.here part with
        | error error => rfl
        | ok held =>
            cases held with
            | none => rfl
            | some next =>
                cases target : reader.linkTarget path next (followFinal || !pending.isEmpty) with
                | error error =>
                    simp only [Bool.not_true, ok_bind, target]
                    rfl
                | ok link =>
                    cases link with
                    | none =>
                        simp only [Bool.not_true, ok_bind, target]
                        rfl
                    | some target_ =>
                        simp only [Bool.not_true, ok_bind, target]
                        change orStop (reader.expand path (place.state reader (part :: pending) hops)
                          pending target_ >>= fun state => _) = _
                        rw [expand_state]
                        simp only [refuseIf, Bool.false_eq_true, if_false, ok_bind, pure,
                          Except.pure]
                        split
                        next => rfl
                        next => cases reader.beginning path place target_ <;> rfl

/-- What the loop comes to where a resolution of the components before `outer` ends. -/
def Outcome.next (reader : Resolve α ν ε) (outer : List Bytes) (hops : Nat)
    : Outcome ν ε → Next (State α ν) (Except ε ν)
  | .reached place => .go (place.state reader outer hops)
  | .refused error => .stop (.error error)

/-- How the loop does with some components, within a budget of links: it comes to what their
resolution does, or the resolution expands more links than that and the loop says so.
-/
def Follows (reader : Resolve α ν ε) (path : Bytes) (followFinal : Bool) (outer : List Bytes)
    (budget hops : Nat) (parts : List Bytes) (place : Place ν) : Prop :=
  (∃ links ≤ budget, ∃ outcome,
      reader.Resolves path (followFinal || !outer.isEmpty) parts place links outcome
      ∧ Leads (reader.turn path followFinal) (place.state reader (parts ++ outer) hops)
          (outcome.next reader outer (hops + links)))
    ∨ ((∀ links outcome,
          reader.Resolves path (followFinal || !outer.isEmpty) parts place links outcome →
          budget < links)
      ∧ Leads (reader.turn path followFinal) (place.state reader (parts ++ outer) hops)
          (.stop (.error (reader.tooManyLinks path))))

/-- Whether anything is left after a component, of its own list or of what comes after that. -/
theorem follows_eq (rest outer : List Bytes)
    : (followFinal || !(rest ++ outer).isEmpty) = (followFinal || !outer.isEmpty || !rest.isEmpty) := by
  cases rest <;> cases outer <;> simp

/-- A component is a link to follow only where links are followed. -/
theorem follows_of_consider {follows : Bool} {place : Place ν} {part target : Bytes}
    (met : reader.consider path follows place part = .ok (.inr target)) : follows = true := by
  unfold consider at met
  obtain ⟨_, _, met⟩ := bind_eq_ok.mp met
  split at met
  · split at met
    · cases met
    · obtain ⟨_, _, met⟩ := bind_eq_ok.mp met
      cases met
  · obtain ⟨found, _, met⟩ := bind_eq_ok.mp met
    cases found with
    | none => cases met
    | some next =>
        obtain ⟨link, read, met⟩ := bind_eq_ok.mp met
        cases link with
        | none => cases met
        | some other =>
            unfold linkTarget at read
            split at read
            · assumption
            · cases read

/-- A resolution that begins with a link expands it. -/
theorem Resolves.pos_of_link {last : Bool} {part : Bytes} {rest : List Bytes} {place : Place ν}
    {target : Bytes} {links : Nat} {outcome : Outcome ν ε}
    (met : reader.consider path (last || !rest.isEmpty) place part = .ok (.inr target))
    (resolved : reader.Resolves path last (part :: rest) place links outcome) : 0 < links := by
  cases resolved with
  | refused met' => cases met.symm.trans met'
  | step met' => cases met.symm.trans met'
  | unfollowed met' => exact Nat.one_pos
  | astray met' => exact Nat.succ_pos _
  | follow met' => omega

/-- A link is followed where its target and what is left are, with one link fewer between them. -/
theorem Follows.link {outer rest : List Bytes} {part target : Bytes} {place : Place ν}
    {budget hops : Nat} (spent : hops + (budget + 1) = maxSymlinkHops)
    (met : reader.consider path (followFinal || !outer.isEmpty || !rest.isEmpty) place part
      = .ok (.inr target))
    (inside : ∀ start, Follows reader path followFinal (rest ++ outer) budget (hops + 1)
      (canonicalParts target) start)
    (later : ∀ used ≤ budget, ∀ middle,
      Follows reader path followFinal outer (budget - used) (hops + 1 + used) rest middle)
    : Follows reader path followFinal outer (budget + 1) hops (part :: rest) place := by
  have taken : reader.turn path followFinal (place.state reader (part :: rest ++ outer) hops) = _ :=
    turn_state place part (rest ++ outer) hops
  rw [follows_eq, met] at taken
  simp only [if_neg (by omega : ¬ maxSymlinkHops < hops + 1)] at taken
  have turned := @Leads.turn _ _ (reader.turn path followFinal)
    (place.state reader (part :: rest ++ outer) hops)
  cases begun : reader.beginning path place target with
  | error error =>
      rw [begun] at taken
      rw [taken] at turned
      exact .inl ⟨1, by omega, _, .unfollowed met begun, turned⟩
  | ok start =>
      rw [begun] at taken
      rw [taken] at turned
      -- what follows in the queue is what makes every link of the target one to follow
      have all : (followFinal || !(rest ++ outer).isEmpty) = true := by
        rw [follows_eq]
        exact follows_of_consider met
      have within := inside start
      unfold Follows at within
      rw [all] at within
      rcases within with ⟨links, few, outcome, resolved, leads⟩ | ⟨more, leads⟩
      · cases outcome with
        | refused error =>
            have stops := turned.trans leads
            exact .inl ⟨links + 1, by omega, _, .astray met begun resolved, stops⟩
        | reached middle =>
            have reached := turned.trans leads
            rcases later links few middle with ⟨after, fewer, outcome, resolved', leads'⟩
              | ⟨more, leads'⟩
            · refine .inl ⟨links + 1 + after, by omega, outcome,
                .follow met begun resolved resolved', ?_⟩
              have counted : hops + 1 + links + after = hops + (links + 1 + after) := by omega
              rw [counted] at leads'
              exact reached.trans leads'
            · refine .inr ⟨fun total outcome resolution => ?_, reached.trans leads'⟩
              cases resolution with
              | refused met' => cases met.symm.trans met'
              | step met' => cases met.symm.trans met'
              | unfollowed met' begun' =>
                  cases met.symm.trans met'
                  cases begun.symm.trans begun'
              | astray met' begun' inside' =>
                  cases met.symm.trans met'
                  cases begun.symm.trans begun'
                  cases (resolved.unique inside').2
              | follow met' begun' inside' later' =>
                  cases met.symm.trans met'
                  cases begun.symm.trans begun'
                  obtain ⟨rfl, same⟩ := resolved.unique inside'
                  cases same
                  have := more _ _ later'
                  omega
      · refine .inr ⟨fun total outcome resolution => ?_, turned.trans leads⟩
        cases resolution with
        | refused met' => cases met.symm.trans met'
        | step met' => cases met.symm.trans met'
        | unfollowed met' begun' =>
            cases met.symm.trans met'
            cases begun.symm.trans begun'
        | astray met' begun' inside' =>
            cases met.symm.trans met'
            cases begun.symm.trans begun'
            have := more _ _ inside'
            omega
        | follow met' begun' inside' later' =>
            cases met.symm.trans met'
            cases begun.symm.trans begun'
            have := more _ _ inside'
            omega

/-- The loop follows every list of components, by induction on the links left and then on the
components: a link's target is resolved with fewer links left, and the rest with what that leaves.
-/
theorem follows (budget : Nat) (outer parts : List Bytes) (place : Place ν) (hops : Nat)
    (spent : hops + budget = maxSymlinkHops)
    : Follows reader path followFinal outer budget hops parts place := by
  induction budget using Nat.strongRecOn generalizing outer parts place hops with
  | _ budget ihBudget =>
      induction parts generalizing place with
      | nil => exact .inl ⟨0, Nat.zero_le _, _, .done, .refl _⟩
      | cons part rest ihRest =>
          have taken : reader.turn path followFinal (place.state reader (part :: rest ++ outer) hops)
              = _ := turn_state place part (rest ++ outer) hops
          rw [follows_eq] at taken
          have turned := @Leads.turn _ _ (reader.turn path followFinal)
            (place.state reader (part :: rest ++ outer) hops)
          cases met : reader.consider path (followFinal || !outer.isEmpty || !rest.isEmpty)
              place part with
          | error error =>
              rw [met] at taken
              rw [taken] at turned
              exact .inl ⟨0, Nat.zero_le _, _, .refused met, turned⟩
          | ok came =>
              cases came with
              | inl next =>
                  rw [met] at taken
                  rw [taken] at turned
                  rcases ihRest next with ⟨links, few, outcome, resolved, leads⟩ | ⟨more, leads⟩
                  · exact .inl ⟨links, few, outcome, .step met resolved, turned.trans leads⟩
                  · refine .inr ⟨fun links outcome resolved => ?_, turned.trans leads⟩
                    cases resolved with
                    | refused met' => cases met.symm.trans met'
                    | step met' later =>
                        cases met.symm.trans met'
                        exact more _ _ later
                    | unfollowed met' => cases met.symm.trans met'
                    | astray met' => cases met.symm.trans met'
                    | follow met' => cases met.symm.trans met'
              | inr target =>
                  cases budget with
                  | zero =>
                      rw [met] at taken
                      simp only [if_pos (by omega : maxSymlinkHops < hops + 1)] at taken
                      rw [taken] at turned
                      exact .inr ⟨fun links outcome resolved => resolved.pos_of_link met, turned⟩
                  | succ budget =>
                      refine .link spent met (fun start => ?_) (fun used few middle => ?_)
                      · exact ihBudget budget (Nat.lt_succ_self _) _ _ _ _ (by omega)
                      · exact ihBudget (budget - used) (by omega) _ _ _ _ (by omega)

/-- What a resolution of a path promises of every filesystem. -/
structure Drives (reader : Resolve α ν ε) (path : Bytes) (followFinal : Bool) : Prop where
  /-- It ends. -/
  terminates : ∃ turns, (reader.drive path followFinal turns).isSome
  /-- A root that does not read is its answer. -/
  unrooted : ∀ error, reader.rootNode = .error error → ∀ turns,
    reader.drive path followFinal turns = some (.error error)
  /-- Where the resolution that keeps its directories ends within so many links, it answers so. -/
  resolves : ∀ root links outcome, reader.rootNode = .ok root →
    reader.Resolves path followFinal (canonicalParts path) ⟨root, []⟩ links outcome →
    links ≤ maxSymlinkHops →
    ∃ turns, reader.drive path followFinal turns = some outcome.answer
  /-- Where that expands more links, or has no end, it is refused for its links. -/
  tooMany : ∀ root, reader.rootNode = .ok root →
    (∀ links outcome, reader.Resolves path followFinal (canonicalParts path) ⟨root, []⟩ links outcome →
      maxSymlinkHops < links) →
    ∃ turns, reader.drive path followFinal turns = some (.error (reader.tooManyLinks path))
  /-- Its ancestors are those of the place it is in, and none exactly at the root. -/
  ancestors : ∀ root state, reader.rootNode = .ok root →
    Relation.ReflTransGen (Turn (reader.turn path followFinal)) ⟨canonicalParts path, root, [], 0⟩
      state →
    ∃ place, reader.Reaches place ∧ place.here = state.node
      ∧ place.above.map reader.ancestorOf = state.descended
      ∧ (state.descended = [] ↔ place.above = [])
  /-- Where an ancestor reads as the node it was taken of, no ancestors means the root itself. -/
  atRoot : (∀ node, reader.nodeAt (reader.ancestorOf node) = .ok node) →
    ∀ root state, reader.rootNode = .ok root →
    Relation.ReflTransGen (Turn (reader.turn path followFinal)) ⟨canonicalParts path, root, [], 0⟩
      state →
    state.descended = [] → state.node = root

/-- A place reached stays one where a component leads on. -/
theorem Reaches.consider {follows : Bool} {place next : Place ν} {part : Bytes}
    (reached : reader.Reaches place)
    (met : reader.consider path follows place part = .ok (.inl next)) : reader.Reaches next := by
  unfold Resolve.consider at met
  obtain ⟨_, _, met⟩ := bind_eq_ok.mp met
  split at met
  next =>
    split at met
    next =>
      cases met
      exact reached
    next directory above through =>
      obtain ⟨node, read, met⟩ := bind_eq_ok.mp met
      cases met
      exact .up reached through read
  next =>
    obtain ⟨found, looked, met⟩ := bind_eq_ok.mp met
    cases found with
    | none => cases met
    | some node =>
        obtain ⟨link, _, met⟩ := bind_eq_ok.mp met
        cases link with
        | none =>
            cases met
            exact .down reached looked
        | some target => cases met

/-- A place reached stays one where a link's target begins. -/
theorem Reaches.beginning {place start : Place ν} {target : Bytes} (reached : reader.Reaches place)
    (begun : reader.beginning path place target = .ok start) : reader.Reaches start := by
  unfold Resolve.beginning at begun
  obtain ⟨_, _, begun⟩ := bind_eq_ok.mp begun
  split at begun
  next =>
    obtain ⟨node, read, begun⟩ := bind_eq_ok.mp begun
    cases begun
    exact .root read
  next =>
    cases begun
    exact reached

/-- Where an ancestor reads as the node it was taken of, every place reached was descended to from
the root, by induction on how it was reached.
-/
theorem Reaches.from_root (exact_ : ∀ node, reader.nodeAt (reader.ancestorOf node) = .ok node)
    {root : ν} (rooted : reader.rootNode = .ok root) {place : Place ν}
    (reached : reader.Reaches place) : (place.here :: place.above).getLast? = some root := by
  induction reached with
  | root read =>
      obtain rfl := Except.ok.inj (read.symm.trans rooted)
      rfl
  | down reached found ih => rw [List.getLast?_cons_cons, ih]
  | up reached through read ih =>
      obtain rfl := Except.ok.inj ((exact_ _).symm.trans read)
      rw [through, List.getLast?_cons_cons] at ih
      exact ih

/-- A state that is a place reached, with whatever is pending. -/
def Placed (reader : Resolve α ν ε) (state : State α ν) : Prop :=
  ∃ place, reader.Reaches place ∧ state = place.state reader state.pending state.hops

/-- Every turn leaves the loop in a place reached. -/
theorem Placed.step (state next : State α ν) (placed : Placed reader state)
    (taken : reader.turn path followFinal state = .go next) : Placed reader next := by
  obtain ⟨place, reached, same⟩ := placed
  cases queue : state.pending with
  | nil =>
      rw [turn, queue] at taken
      cases taken
  | cons part pending =>
      rw [same, queue, turn_state] at taken
      split at taken
      next => cases taken
      next onward met =>
        cases taken
        exact ⟨onward, reached.consider met, rfl⟩
      next target met =>
        split at taken
        next => cases taken
        next =>
          split at taken
          next => cases taken
          next start begun =>
            cases taken
            exact ⟨start, reached.beginning begun, rfl⟩

end Ferrosys.Resolve
