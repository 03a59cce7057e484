import Ferrosys.Library.Bisect
import Mathlib.Data.List.Chain

/-! Search trees of one height throughout: entries in the leaves, and above them branches keyed by
the first key below each. A search that steers by the keys of the branches finds what a walk of
every leaf meets.
-/

namespace SearchTree

variable {κ A ι τ : Type}

/-- One branch: the key it is found under, where it leads, and what is below it. -/
structure Branch (κ A τ : Type) where
  key : κ
  address : A
  below : τ

/-- A tree whose leaves are `n` levels down. -/
abbrev Tree (κ A ι : Type) : (n : Nat) → Type
  | 0 => List ι
  | n + 1 => List (Branch κ A (Tree κ A ι n))

/-- The entries of the leaves, from the first leaf to the last. -/
def items : (n : Nat) → Tree κ A ι n → List ι
  | 0, entries => entries
  | n + 1, branches => List.flatMap (fun branch => items n branch.below) branches

/-- Where the branches lead, each before those below it. -/
def addresses : (n : Nat) → Tree κ A ι n → List A
  | 0, _ => []
  | n + 1, branches =>
      List.flatMap (fun branch => branch.address :: addresses n branch.below) branches

/-- The keys of the top node. -/
def keys (key : ι → κ) : (n : Nat) → Tree κ A ι n → List κ
  | 0, entries => List.map key entries
  | _ + 1, branches => List.map Branch.key branches

/-- The key of the branch after, or what bounds the node itself. -/
def nextKey (rest : List (Branch κ A τ)) (bound : Option κ) : Option κ :=
  (rest.head?.map Branch.key).or bound

/-- Every branch has the first key below it as its own, and what is below it stays before the
branch after.
-/
def Placed (first : τ → Option κ) (ordered : τ → Option κ → Prop)
    : (branches : List (Branch κ A τ)) → (bound : Option κ) → Prop
  | [], _ => True
  | branch :: rest, bound =>
      first branch.below = some branch.key ∧ ordered branch.below (nextKey rest bound)
      ∧ Placed first ordered rest bound

/-- Each key of a node may stand before the next, the last before `bound`, and each branch sits
where its key says.
-/
def Ordered (R : κ → κ → Prop) (key : ι → κ)
    : (n : Nat) → Tree κ A ι n → (bound : Option κ) → Prop
  | 0, entries, bound => (List.map key entries ++ bound.toList).IsChain R
  | n + 1, branches, bound =>
      (List.map Branch.key branches ++ bound.toList).IsChain R
      ∧ Placed (fun below => (keys key n below).head?) (Ordered R key n) branches bound

/-- Where a search starts in a node with these keys: at a leaf's first entry that is not before
the target, and at a branch as far on as one at or before it.
-/
def startOf (lt le : κ → Bool) : (n : Nat) → (keys : List κ) → Nat
  | 0, keys => (keys.takeWhile lt).length
  | _ + 1, keys => (keys.takeWhile le).length - 1

/-- The entries a walk meets that starts every node where the search does. -/
def itemsFrom (lt le : κ → Bool) (key : ι → κ) : (n : Nat) → Tree κ A ι n → List ι
  | 0, entries => List.drop (startOf lt le 0 (List.map key entries)) entries
  | n + 1, branches =>
      List.flatMap (fun branch => itemsFrom lt le key n branch.below)
        (List.drop (startOf lt le (n + 1) (List.map Branch.key branches)) branches)

/-- The last entry at or before the target in the one leaf a search descends to. -/
def floor (lt le : κ → Bool) (key : ι → κ) : (n : Nat) → Tree κ A ι n → Option ι
  | 0, entries => (List.takeWhile (fun entry => le (key entry)) entries).getLast?
  | n + 1, branches =>
      (List.drop (startOf lt le (n + 1) (List.map Branch.key branches)) branches).head?.bind
        fun branch => floor lt le key n branch.below

/-- A target as two readings of the keys: whatever may stand before a key that is at or before
the target is itself before it.
-/
structure Cuts (R : κ → κ → Prop) (lt le : κ → Bool) : Prop where
  before : ∀ a b, R a b → le b → lt a
  weaken : ∀ a, lt a → le a

section Order

variable {R : κ → κ → Prop} {key : ι → κ}

/-- Branches in their places hand their order down to the entries below them, by induction on the
branches: each part ends where the next one's first key begins.
-/
theorem Placed.items_chain {n : Nat}
    (below : ∀ (tree : Tree κ A ι n) bound, Ordered R key n tree bound
      → ((items n tree).map key ++ bound.toList).IsChain R
        ∧ ((items n tree).map key).head? = (keys key n tree).head?)
    (branches : List (Branch κ A (Tree κ A ι n))) (bound : Option κ)
    (chain : (branches.map Branch.key ++ bound.toList).IsChain R)
    (placed : Placed (fun tree => (keys key n tree).head?) (Ordered R key n) branches bound)
    : ((branches.flatMap fun branch => items n branch.below).map key
        ++ bound.toList).IsChain R
      ∧ ((branches.flatMap fun branch => items n branch.below).map key).head?
        = (branches.map Branch.key).head? := by
  induction branches with
  | nil => exact ⟨chain, rfl⟩
  | cons branch rest ih =>
      obtain ⟨first, ordered, placed⟩ := placed
      obtain ⟨inner, starts⟩ := below _ _ ordered
      have after : ([branch.key] ++ (rest.map Branch.key ++ bound.toList)).IsChain R := by
        simpa using chain
      obtain ⟨outer, continues⟩ := ih after.right_of_append placed
      have head := starts.trans first
      constructor
      · cases rest with
        | nil => simpa [nextKey] using inner
        | cons next later =>
            simp only [List.map_cons, List.head?_cons] at continues
            obtain ⟨others, split⟩ := List.head?_eq_some_iff.mp continues
            rw [split, List.cons_append] at outer
            rw [List.flatMap_cons, List.map_append, split, List.append_assoc]
            have inner' : ((items n branch.below).map key ++ [next.key]).IsChain R := by
              simpa [nextKey] using inner
            simpa using inner'.append_overlap outer (List.cons_ne_nil _ _)
      · obtain ⟨others, split⟩ := List.head?_eq_some_iff.mp head
        simp [List.flatMap_cons, split]

/-- The entries of an ordered tree stand in order and begin at its first key, by induction on the
height.
-/
theorem Ordered.items_chain (n : Nat) (tree : Tree κ A ι n) (bound : Option κ)
    (ordered : Ordered R key n tree bound)
    : ((items n tree).map key ++ bound.toList).IsChain R
      ∧ ((items n tree).map key).head? = (keys key n tree).head? := by
  induction n generalizing bound with
  | zero => exact ⟨ordered, rfl⟩
  | succ n ih => exact Placed.items_chain ih tree bound ordered.1 ordered.2

/-- A branch whose key is after the target has no entry at or before it. -/
theorem Placed.after {n : Nat} {branches : List (Branch κ A (Tree κ A ι n))} {bound : Option κ}
    (placed : Placed (fun tree => (keys key n tree).head?) (Ordered R key n) branches bound)
    : ∀ branch ∈ branches, ∃ next, Ordered R key n branch.below next
        ∧ ((items n branch.below).map key).head? = some branch.key := by
  induction branches with
  | nil => exact nofun
  | cons branch rest ih =>
      obtain ⟨first, ordered, placed⟩ := placed
      intro other member
      rcases List.mem_cons.mp member with rfl | member
      · exact ⟨_, ordered, (ordered.items_chain _ _ _).2.trans first⟩
      · exact ih placed other member

/-- An entry list with a first key has a first entry under it. -/
theorem exists_head {entries : List ι} {first : κ} (head : (entries.map key).head? = some first)
    : ∃ entry rest, entries = entry :: rest ∧ key entry = first := by
  obtain ⟨entry, starts, same⟩ : ∃ entry, entries.head? = some entry ∧ key entry = first := by
    simpa [List.head?_map] using head
  obtain ⟨rest, split⟩ := List.head?_eq_some_iff.mp starts
  exact ⟨entry, rest, split, same⟩

/-- The keys of branches in place are among those of the entries below them, in their order. By
induction on the branches.
-/
theorem Placed.keys_sublist {n : Nat} (branches : List (Branch κ A (Tree κ A ι n)))
    (bound : Option κ)
    (placed : Placed (fun tree => (keys key n tree).head?) (Ordered R key n) branches bound)
    : (branches.map Branch.key ++ bound.toList).Sublist
        ((branches.flatMap fun branch => items n branch.below).map key ++ bound.toList) := by
  induction branches with
  | nil => exact List.Sublist.refl _
  | cons branch rest ih =>
      obtain ⟨-, -, head⟩ := placed.after branch List.mem_cons_self
      obtain ⟨entry, others, split, same⟩ := exists_head head
      have later := ih placed.2.2
      rw [List.flatMap_cons, split, List.map_cons, ← same, List.map_append, List.map_cons,
        List.cons_append, List.cons_append, List.cons_append, List.append_assoc]
      exact (later.trans (List.sublist_append_right _ _)).cons_cons _

/-- What holds between the entries of branches in place holds within each of them, and up to the key
that bounds it. By induction on the branches.
-/
theorem Placed.of_pairwise {S : κ → κ → Prop} {n : Nat}
    (below : ∀ (tree : Tree κ A ι n) bound, Ordered R key n tree bound
      → ((items n tree).map key ++ bound.toList).Pairwise S → Ordered S key n tree bound)
    (branches : List (Branch κ A (Tree κ A ι n))) (bound : Option κ)
    (placed : Placed (fun tree => (keys key n tree).head?) (Ordered R key n) branches bound)
    (all : ((branches.flatMap fun branch => items n branch.below).map key
      ++ bound.toList).Pairwise S)
    : Placed (fun tree => (keys key n tree).head?) (Ordered S key n) branches bound := by
  induction branches with
  | nil => trivial
  | cons branch rest ih =>
      obtain ⟨first, ordered, placed⟩ := placed
      rw [List.flatMap_cons, List.map_append, List.append_assoc] at all
      refine ⟨first, below _ _ ordered (all.sublist ?_), ih placed (all.sublist ?_)⟩
      · refine (List.Sublist.refl _).append ?_
        have upto := placed.keys_sublist
        cases rest with
        | nil => exact upto
        | cons next others =>
            exact (List.singleton_sublist.mpr (by simp)).trans upto
      · exact List.sublist_append_right _ _

/-- A tree in order is in any order that holds between its entries, by induction on the height. -/
theorem Ordered.of_pairwise {S : κ → κ → Prop} (n : Nat) (tree : Tree κ A ι n) (bound : Option κ)
    (ordered : Ordered R key n tree bound)
    (all : ((items n tree).map key ++ bound.toList).Pairwise S)
    : Ordered S key n tree bound := by
  induction n generalizing bound with
  | zero => exact all.isChain
  | succ n ih =>
      exact ⟨(all.sublist ordered.2.keys_sublist).isChain, ordered.2.of_pairwise ih tree bound all⟩

end Order

/-- A part that does not hold of its first entry is where the leading entries end at the latest. -/
theorem takeWhile_append_stop {p : ι → Bool} (first : List ι) {second : List ι}
    (stop : ∀ entry ∈ second.head?, p entry = false)
    : (first ++ second).takeWhile p = first.takeWhile p := by
  induction first with
  | nil =>
      cases second with
      | nil => rfl
      | cons entry rest => simp [stop entry rfl]
  | cons entry rest ih =>
      cases holds : p entry with
      | true => simp [holds, ih]
      | false => simp [holds]

/-- A part that does not hold of its first entry is kept whole. -/
theorem dropWhile_append_stop {p : ι → Bool} (first : List ι) {second : List ι}
    (stop : ∀ entry ∈ second.head?, p entry = false)
    : (first ++ second).dropWhile p = first.dropWhile p ++ second := by
  induction first with
  | nil =>
      cases second with
      | nil => rfl
      | cons entry rest => simp [stop entry rfl]
  | cons entry rest ih =>
      cases holds : p entry with
      | true => simp [holds, ih]
      | false => simp [holds]

theorem drop_length_takeWhile (p : ι → Bool) (entries : List ι)
    : entries.drop (entries.takeWhile p).length = entries.dropWhile p := by
  induction entries with
  | nil => rfl
  | cons entry rest ih => cases holds : p entry <;> simp [holds, ih]

/-- Entries of which what holds of one holds of every earlier one: the leading ones are all it holds
of. By induction on the entries.
-/
theorem takeWhile_eq_filter {p : ι → Bool} {entries : List ι}
    (leading : entries.Pairwise fun a b => p b → p a)
    : entries.takeWhile p = entries.filter p := by
  induction entries with
  | nil => rfl
  | cons entry rest ih =>
      obtain ⟨later, others⟩ := List.pairwise_cons.mp leading
      cases holds : p entry with
      | true => simp [holds, ih others]
      | false =>
          have none : ∀ other ∈ rest, ¬ p other := fun other member held => by
            have := later other member held
            rw [holds] at this
            cases this
          simpa [holds] using none

/-- Then those after them are all it does not hold of, by induction on the entries. -/
theorem dropWhile_eq_filter {p : ι → Bool} {entries : List ι}
    (leading : entries.Pairwise fun a b => p b → p a)
    : entries.dropWhile p = entries.filter fun entry => !p entry := by
  induction entries with
  | nil => rfl
  | cons entry rest ih =>
      obtain ⟨later, others⟩ := List.pairwise_cons.mp leading
      cases holds : p entry with
      | true => simp [holds, ih others]
      | false =>
          have all : ∀ other ∈ rest, (!p other) = true := fun other member => by
            cases held : p other with
            | false => rfl
            | true => exact absurd (later other member held) (by simp [holds])
          simp [holds, List.filter_eq_self.mpr all]

section Search

variable {R : κ → κ → Prop} {lt le : κ → Bool} {key : ι → κ}

/-- Along keys in order, what is at or before the target has everything earlier before it. -/
theorem Cuts.pairwise (cuts : Cuts R lt le) {list : List κ} (chain : list.IsChain R)
    : list.Pairwise fun a b => le b → lt a := by
  let before : κ → κ → Prop := fun a b => le b → lt a
  have : Trans before before before := ⟨fun ab bc holds => ab (cuts.weaken _ (bc holds))⟩
  exact (List.IsChain.imp cuts.before chain).pairwise (R := before)

theorem Cuts.leading_le (cuts : Cuts R lt le) {list : List κ} (chain : list.IsChain R)
    : list.Pairwise fun a b => le b → le a :=
  (cuts.pairwise chain).imp fun before holds => cuts.weaken _ (before holds)

theorem Cuts.leading_lt (cuts : Cuts R lt le) {list : List κ} (chain : list.IsChain R)
    : list.Pairwise fun a b => lt b → lt a :=
  (cuts.pairwise chain).imp fun before holds => before (cuts.weaken _ holds)

/-- The branches a search passes over, the one it enters, and those it leaves for later: entries
below the first are all before the target, and the last are all after it.
-/
theorem Ordered.branches (cuts : Cuts R lt le) {n : Nat}
    {branches : List (Branch κ A (Tree κ A ι n))} {bound : Option κ}
    (ordered : Ordered R key (n + 1) branches bound) (nonempty : branches ≠ [])
    : ∃ passed entered later,
        branches = passed ++ entered :: later
        ∧ branches.drop (startOf lt le (n + 1) (branches.map Branch.key)) = entered :: later
        ∧ (passed ≠ [] → le entered.key)
        ∧ ∀ branch ∈ later, le branch.key = false := by
  let leading := ((branches.map Branch.key).takeWhile le).length
  have short : leading ≤ branches.length := by
    simpa using (List.takeWhile_prefix le (l := branches.map Branch.key)).length_le
  have inside : leading - 1 < branches.length := by
    have := List.length_pos_iff.mpr nonempty
    omega
  have chain := List.IsChain.left_of_append ordered.1
  have holds := Bisect.holds_iff_lt_takeWhile (cuts.leading_le chain)
  refine ⟨branches.take (leading - 1), branches[leading - 1], branches.drop (leading - 1 + 1),
    ?_, List.drop_eq_getElem_cons inside, ?_, ?_⟩
  · rw [← List.drop_eq_getElem_cons inside, List.take_append_drop]
  · intro some
    have := holds (leading - 1) (by simpa using inside)
    rw [List.getElem_map] at this
    rw [this, decide_eq_true_iff]
    have : leading - 1 ≠ 0 := fun zero => some (by rw [zero, List.take_zero])
    omega
  · intro branch member
    obtain ⟨i, bounded, rfl⟩ := List.mem_iff_getElem.mp member
    rw [List.length_drop] at bounded
    have := holds (leading - 1 + 1 + i) (by simpa using Nat.add_lt_of_lt_sub' bounded)
    rw [List.getElem_map] at this
    rw [List.getElem_drop, this, decide_eq_false_iff_not]
    omega

/-- What a search passes over is before the target, because the entries stand in order and those
of the branch it enters begin at that branch's key.
-/
theorem Ordered.passed (cuts : Cuts R lt le) {n : Nat}
    {passed later : List (Branch κ A (Tree κ A ι n))} {entered : Branch κ A (Tree κ A ι n)}
    {bound : Option κ} (ordered : Ordered R key (n + 1) (passed ++ entered :: later) bound)
    (steered : passed ≠ [] → le entered.key)
    : ∀ entry ∈ passed.flatMap fun branch => items n branch.below, lt (key entry) := by
  intro entry member
  have some : passed ≠ [] := by
    rintro rfl
    cases member
  have chain := List.IsChain.left_of_append (ordered.items_chain _ _ _).1
  have placed := ordered.2.after entered (List.mem_append_right _ List.mem_cons_self)
  obtain ⟨next, -, head⟩ := placed
  have spread : ((items (n + 1) (passed ++ entered :: later)).map key)
      = ((passed.flatMap fun branch => items n branch.below).map key)
        ++ ((items n entered.below).map key
          ++ (later.flatMap fun branch => items n branch.below).map key) := by
    simp [items, List.flatMap_append, List.flatMap_cons]
  rw [spread] at chain
  have apart := (List.pairwise_append.mp (cuts.pairwise chain)).2.2
  exact apart (key entry) (List.mem_map_of_mem member) entered.key
    (List.mem_append_left _ (List.mem_of_mem_head? head)) (steered some)

/-- What a search leaves for later begins after the target. -/
theorem head_after {n : Nat} {later : List (Branch κ A (Tree κ A ι n))}
    (heads : ∀ branch ∈ later, ((items n branch.below).map key).head? = some branch.key)
    (after : ∀ branch ∈ later, le branch.key = false)
    : ∀ entry ∈ (later.flatMap fun branch => items n branch.below).head?,
        le (key entry) = false := by
  cases later with
  | nil => exact nofun
  | cons branch rest =>
      obtain ⟨entry, others, split, same⟩ := exists_head (heads branch List.mem_cons_self)
      intro other member
      simp only [List.flatMap_cons, split, List.cons_append, List.head?_cons,
        Option.mem_some_iff] at member
      rw [← member, same]
      exact after branch List.mem_cons_self

/-- What is after the target is not before it. -/
theorem Cuts.not_lt (cuts : Cuts R lt le) {k : κ} (high : le k = false) : lt k = false :=
  Bool.eq_false_iff.mpr fun low => Bool.false_ne_true (high.symm.trans (cuts.weaken _ low))

/-- The entries from the target on are those of the branch a search enters from there on, and all
of those it leaves for later.
-/
theorem Ordered.dropWhile_items (cuts : Cuts R lt le) {n : Nat}
    {passed later : List (Branch κ A (Tree κ A ι n))} {entered : Branch κ A (Tree κ A ι n)}
    {bound : Option κ} (ordered : Ordered R key (n + 1) (passed ++ entered :: later) bound)
    (steered : passed ≠ [] → le entered.key) (after : ∀ branch ∈ later, le branch.key = false)
    : ((items (n + 1) (passed ++ entered :: later)).dropWhile fun entry => lt (key entry))
      = ((items n entered.below).dropWhile fun entry => lt (key entry))
        ++ later.flatMap fun branch => items n branch.below := by
  have heads : ∀ branch ∈ later, ((items n branch.below).map key).head? = some branch.key :=
    fun branch member => (ordered.2.after branch (by simp [member])).choose_spec.2
  rw [items, List.flatMap_append, List.flatMap_cons,
    List.dropWhile_append_of_pos (ordered.passed cuts steered),
    dropWhile_append_stop _ fun entry member => cuts.not_lt (head_after heads after entry member)]

/-- A walk that starts every node where the search does meets the entries from the target on, by
induction on the height.
-/
theorem Ordered.itemsFrom_eq (cuts : Cuts R lt le) (n : Nat) (tree : Tree κ A ι n)
    (bound : Option κ) (ordered : Ordered R key n tree bound)
    : itemsFrom lt le key n tree = (items n tree).dropWhile fun entry => lt (key entry) := by
  induction n generalizing bound with
  | zero =>
      have start : startOf lt le 0 (List.map key tree)
          = (List.takeWhile (fun entry => lt (key entry)) tree).length := by
        simp [startOf, List.takeWhile_map, Function.comp_def]
      rw [itemsFrom, start, items]
      exact drop_length_takeWhile _ _
  | succ n ih =>
      by_cases empty : tree = []
      · subst empty
        rfl
      · obtain ⟨passed, entered, later, rfl, starts, steered, after⟩ :=
          ordered.branches cuts empty
        have placed := ordered.2.after
        have untouched : ∀ branch ∈ later, itemsFrom lt le key n branch.below
            = items n branch.below := by
          intro branch member
          obtain ⟨next, within, head⟩ := placed branch (by simp [member])
          obtain ⟨entry, rest, split, same⟩ := exists_head head
          rw [ih branch.below next within, split, List.dropWhile_cons_of_neg]
          rw [same, cuts.not_lt (after branch member)]
          exact Bool.false_ne_true
        obtain ⟨next, within, -⟩ := placed entered (by simp)
        rw [ordered.dropWhile_items cuts steered after, itemsFrom, starts, List.flatMap_cons,
          ih entered.below next within, List.flatMap_congr untouched]

/-- A search descends to the leaf of the last entry at or before the target, by induction on the
height: in the branch it enters the first entry is at or before the target, unless the target is
before every entry.
-/
theorem Ordered.floor_eq (cuts : Cuts R lt le) (n : Nat) (tree : Tree κ A ι n)
    (bound : Option κ) (ordered : Ordered R key n tree bound)
    : floor lt le key n tree
      = ((items n tree).takeWhile fun entry => le (key entry)).getLast? := by
  induction n generalizing bound with
  | zero => rfl
  | succ n ih =>
      by_cases empty : tree = []
      · subst empty
        rfl
      · obtain ⟨passed, entered, later, rfl, starts, steered, after⟩ :=
          ordered.branches cuts empty
        have placed := ordered.2.after
        have heads : ∀ branch ∈ later, ((items n branch.below).map key).head? = some branch.key :=
          fun branch member => (placed branch (by simp [member])).choose_spec.2
        obtain ⟨next, within, head⟩ := placed entered (by simp)
        rw [floor, starts, List.head?_cons, Option.bind_some, ih entered.below next within, items,
          List.flatMap_append, List.flatMap_cons,
          List.takeWhile_append_of_pos fun entry member =>
            cuts.weaken _ (ordered.passed cuts steered entry member),
          takeWhile_append_stop _ (head_after heads after)]
        obtain ⟨entry, rest, split, same⟩ := exists_head head
        rw [split]
        cases holds : le (key entry) with
        | true =>
            simp only [List.takeWhile_cons, holds, if_true]
            exact (List.getLast?_append_of_ne_nil _ (List.cons_ne_nil _ _)).symm
        | false =>
            have none : passed = [] := by
              by_contra some
              rw [same, steered some] at holds
              cases holds
            simp [none]

end Search

end SearchTree
