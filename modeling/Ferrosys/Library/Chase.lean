import Mathlib.Data.List.Nodup

/-! Following links from place to place to where they end, no more of them than allowed: the places
passed are all different, so a chain that ends does so within as many links as there are places.
-/

namespace Chase

variable {κ τ : Type}

/-- What is at a place: an end, or a link to another place. -/
inductive Step (κ τ : Type) where
  | stop (found : τ)
  | link (next : κ)

variable (step : κ → Step κ τ)

/-- Where the links from a place end, `left` of them at most. -/
def follow : (left : Nat) → κ → Option τ
  | left, place =>
      match step place with
      | .stop found => some found
      | .link next =>
          match left with
          | 0 => none
          | left + 1 => follow left next

/-- The places looked at on the way. -/
def visited : (left : Nat) → κ → List κ
  | left, place =>
      place ::
        match step place with
        | .stop _ => []
        | .link next =>
            match left with
            | 0 => []
            | left + 1 => visited left next

/-- The links from a place end at something, by the places of `path`. -/
inductive Chain : κ → τ → List κ → Prop where
  | stop {place : κ} {found : τ} (ends : step place = .stop found) : Chain place found [place]
  | link {place next : κ} {found : τ} {path : List κ} (links : step place = .link next)
      (rest : Chain next found path) : Chain place found (place :: path)

variable {step}

/-- What is followed to an end is a chain to it, by induction on the links left. -/
theorem chain_of_follow {left : Nat} {place : κ} {found : τ}
    (follows : follow step left place = some found)
    : Chain step place found (visited step left place) := by
  induction left generalizing place with
  | zero =>
      unfold follow at follows
      unfold visited
      cases at_ : step place with
      | stop other =>
          simp only [at_, Option.some.injEq] at follows ⊢
          exact follows ▸ .stop at_
      | link next => simp only [at_, reduceCtorEq] at follows
  | succ left ih =>
      unfold follow at follows
      unfold visited
      cases at_ : step place with
      | stop other =>
          simp only [at_, Option.some.injEq] at follows ⊢
          exact follows ▸ .stop at_
      | link next =>
          simp only [at_] at follows ⊢
          exact .link at_ (ih follows)

/-- A chain of no more links than allowed is followed to its end, by induction on it. -/
theorem Chain.follow_eq {place : κ} {found : τ} {path : List κ}
    (chain : Chain step place found path) {left : Nat} (enough : path.length ≤ left + 1)
    : follow step left place = some found ∧ visited step left place = path := by
  induction chain generalizing left with
  | stop ends =>
      unfold follow visited
      simp only [ends, and_self]
  | link links rest ih =>
      unfold follow visited
      cases left with
      | zero => cases rest <;> simp at enough
      | succ left =>
          rw [List.length_cons] at enough
          obtain ⟨follows, passes⟩ := ih (Nat.le_of_succ_le_succ enough)
          simp only [links, follows, passes, and_self]

/-- A place has one chain. -/
theorem Chain.unique {place : κ} {found found' : τ} {path path' : List κ}
    (chain : Chain step place found path) (chain' : Chain step place found' path')
    : found' = found ∧ path' = path := by
  induction chain generalizing path' with
  | stop ends =>
      cases chain' with
      | stop ends' => exact ⟨Step.stop.inj (ends'.symm.trans ends), rfl⟩
      | link links' => exact absurd (ends.symm.trans links') (fun no => by cases no)
  | link links rest ih =>
      cases chain' with
      | stop ends' => exact absurd (links.symm.trans ends') (fun no => by cases no)
      | link links' rest' =>
          obtain rfl := Step.link.inj (links'.symm.trans links)
          obtain ⟨same, passed⟩ := ih rest'
          exact ⟨same, passed ▸ rfl⟩

theorem Chain.head_mem {place : κ} {found : τ} {path : List κ}
    (chain : Chain step place found path) : place ∈ path := by
  cases chain with
  | stop => exact List.mem_cons_self
  | link => exact List.mem_cons_self

/-- Every place of a chain begins what is left of it. -/
theorem Chain.suffix {place other : κ} {found : τ} {path : List κ}
    (chain : Chain step place found path) (member : other ∈ path)
    : ∃ before path', path = before ++ path' ∧ Chain step other found path' := by
  induction chain with
  | stop ends =>
      obtain rfl := List.mem_singleton.mp member
      exact ⟨[], _, rfl, .stop ends⟩
  | @link place next found path links rest ih =>
      rcases List.mem_cons.mp member with rfl | later
      · exact ⟨[], _, rfl, .link links rest⟩
      · obtain ⟨before, path', rfl, chain'⟩ := ih later
        exact ⟨place :: before, path', rfl, chain'⟩

/-- No place is passed twice: what is left of the chain would be as long as the chain. -/
theorem Chain.nodup {place : κ} {found : τ} {path : List κ}
    (chain : Chain step place found path) : path.Nodup := by
  induction chain with
  | stop => exact List.nodup_singleton _
  | @link place next found path links rest ih =>
      refine List.nodup_cons.mpr ⟨fun again => ?_, ih⟩
      obtain ⟨before, path', split_, chain'⟩ := rest.suffix again
      have length := congrArg List.length (chain'.unique (.link links rest)).2
      rw [split_, List.length_cons, List.length_append] at length
      omega

/-- A chain stays where the places on it do. -/
theorem Chain.congr {step' : κ → Step κ τ} {place : κ} {found : τ} {path : List κ}
    (chain : Chain step place found path) (same : ∀ other ∈ path, step' other = step other)
    : Chain step' place found path := by
  induction chain with
  | stop ends => exact .stop ((same _ List.mem_cons_self).trans ends)
  | link links rest ih =>
      exact .link ((same _ List.mem_cons_self).trans links)
        (ih fun other later => same other (List.mem_cons_of_mem _ later))

end Chase
