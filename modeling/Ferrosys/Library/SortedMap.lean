import Mathlib.Data.List.Basic
import Mathlib.Data.List.Induction
import Mathlib.Order.Lattice

/-! A map kept as a list in the order of its keys: lookup, insertion, the entries whose keys
lie between two bounds, and the last insertion of a list of them.
-/

namespace SortedMaps

variable {κ α : Type} [LinearOrder κ]

/-- Put `value` under `key` in a list ordered by key. -/
def insertEntry (key : κ) (value : α) : List (κ × α) → List (κ × α)
  | [] => [(key, value)]
  | entry :: rest =>
      if key < entry.1 then (key, value) :: entry :: rest
      else if key = entry.1 then (key, value) :: rest
      else entry :: insertEntry key value rest

/-- What is in the list afterwards was put there or was there before. -/
theorem mem_insertEntry {key : κ} {value : α} {entry : κ × α} {entries : List (κ × α)}
    (h : entry ∈ insertEntry key value entries)
    : entry = (key, value) ∨ entry ∈ entries := by
  induction entries with
  | nil => exact .inl (List.mem_singleton.mp h)
  | cons first rest ih =>
      unfold insertEntry at h
      split_ifs at h with below same
      · exact List.mem_cons.mp h
      · exact (List.mem_cons.mp h).imp_right (List.mem_cons_of_mem _)
      · rcases List.mem_cons.mp h with rfl | later
        · exact .inr List.mem_cons_self
        · exact (ih later).imp_right (List.mem_cons_of_mem _)

/-- Insertion keeps the order, by walking to the place it happens at. -/
theorem insertEntry_sorted (key : κ) (value : α) {entries : List (κ × α)}
    (sorted : entries.Pairwise (·.1 < ·.1))
    : (insertEntry key value entries).Pairwise (·.1 < ·.1) := by
  induction entries with
  | nil => exact List.pairwise_singleton _ _
  | cons first rest ih =>
      obtain ⟨least, tail⟩ := List.pairwise_cons.mp sorted
      unfold insertEntry
      split_ifs with below same
      · refine .cons ?_ sorted
        intro entry member
        rcases List.mem_cons.mp member with rfl | later
        · exact below
        · exact below.trans (least entry later)
      · exact .cons (fun entry member => same ▸ least entry member) tail
      · refine .cons ?_ (ih tail)
        intro entry member
        rcases mem_insertEntry member with rfl | later
        · exact lt_of_le_of_ne (not_lt.mp below) (Ne.symm same)
        · exact least entry later

/-- Entries in the strict order of their keys. -/
structure SortedMap (κ α : Type) [LinearOrder κ] where
  entries : List (κ × α)
  sorted : entries.Pairwise (·.1 < ·.1)

namespace SortedMap

def empty : SortedMap κ α := ⟨[], .nil⟩

/-- What the map holds under `key`. -/
def get? (m : SortedMap κ α) (key : κ) : Option α :=
  (m.entries.find? (·.1 = key)).map Prod.snd

def insert (m : SortedMap κ α) (key : κ) (value : α) : SortedMap κ α :=
  ⟨insertEntry key value m.entries, insertEntry_sorted key value m.sorted⟩

/-- The entries whose keys lie from `lo` to `hi`, both included, in order. -/
def range (m : SortedMap κ α) (lo hi : κ) : List (κ × α) :=
  m.entries.filter fun entry => lo ≤ entry.1 && entry.1 ≤ hi

@[simp] theorem get?_empty (key : κ) : (empty : SortedMap κ α).get? key = none := rfl

/-- A map holds an entry exactly where looking its key up finds it. -/
theorem mem_entries_iff (m : SortedMap κ α) {key : κ} {value : α}
    : (key, value) ∈ m.entries ↔ m.get? key = some value := by
  obtain ⟨entries, sorted⟩ := m
  simp only [get?]
  induction entries with
  | nil => simp
  | cons first rest ih =>
      obtain ⟨least, tail⟩ := List.pairwise_cons.mp sorted
      by_cases same : first.1 = key
      · rw [List.find?_cons_of_pos (by simpa using same), Option.map_some, Option.some.injEq]
        constructor
        · intro member
          rcases List.mem_cons.mp member with rfl | later
          · rfl
          · exact absurd same (least _ later).ne
        · rintro rfl
          exact List.mem_cons.mpr (.inl (Prod.ext same.symm rfl))
      · rw [List.find?_cons_of_neg (by simpa using same), ← ih tail, List.mem_cons]
        exact or_iff_right fun equal => same (congrArg Prod.fst equal).symm

/-- Insertion changes what is under its own key, and nothing else. -/
theorem get?_insert (m : SortedMap κ α) (key : κ) (value : α) (key' : κ)
    : (m.insert key value).get? key' = if key' = key then some value else m.get? key' := by
  obtain ⟨entries, sorted⟩ := m
  simp only [get?, insert]
  induction entries with
  | nil =>
      by_cases same : key' = key
      · simp [insertEntry, same]
      · simp [insertEntry, same, Ne.symm same]
  | cons first rest ih =>
      have later := ih (List.pairwise_cons.mp sorted).2
      unfold insertEntry
      by_cases here : key' = key
      · subst here
        rw [if_pos rfl] at later ⊢
        split_ifs with below same
        · simp
        · simp
        · rw [List.find?_cons_of_neg (by simpa using Ne.symm same), later]
      · rw [if_neg here]
        rw [if_neg here] at later
        split_ifs with below same
        · rw [List.find?_cons_of_neg (by simpa using Ne.symm here)]
        · have other : ¬ first.1 = key' := fun equal => here (equal.symm.trans same.symm)
          rw [List.find?_cons_of_neg (by simpa using Ne.symm here),
            List.find?_cons_of_neg (by simpa using other)]
        · by_cases found : first.1 = key'
          · rw [List.find?_cons_of_pos (by simpa using found),
              List.find?_cons_of_pos (by simpa using found)]
          · rw [List.find?_cons_of_neg (by simpa using found),
              List.find?_cons_of_neg (by simpa using found), later]

theorem get?_insert_self (m : SortedMap κ α) (key : κ) (value : α)
    : (m.insert key value).get? key = some value := by
  rw [get?_insert, if_pos rfl]

/-- A range holds the map's entries between its bounds. -/
theorem mem_range_iff (m : SortedMap κ α) {lo hi key : κ} {value : α}
    : (key, value) ∈ m.range lo hi ↔ m.get? key = some value ∧ lo ≤ key ∧ key ≤ hi := by
  simp [range, mem_entries_iff]

/-- Insert each of a list of entries in turn. -/
def insertAll (m : SortedMap κ α) (added : List (κ × α)) : SortedMap κ α :=
  added.foldl (fun m entry => m.insert entry.1 entry.2) m

/-- The last of a list of entries under `key`. -/
def lastOf (added : List (κ × α)) (key : κ) : Option α :=
  ((added.filter (·.1 = key)).getLast?).map Prod.snd

@[simp] theorem lastOf_nil (key : κ) : lastOf ([] : List (κ × α)) key = none := rfl

/-- The last entry of two lists in a row is the second's where it has one. -/
theorem lastOf_append (first second : List (κ × α)) (key : κ)
    : lastOf (first ++ second) key = (lastOf second key).or (lastOf first key) := by
  unfold lastOf
  rw [List.filter_append, List.getLast?_append]
  cases (second.filter (·.1 = key)).getLast? <;> rfl

theorem lastOf_singleton (entry : κ × α) (key : κ)
    : lastOf [entry] key = if key = entry.1 then some entry.2 else none := by
  unfold lastOf
  by_cases same : key = entry.1
  · simp [same]
  · simp [same, Ne.symm same]

/-- The last of a list of entries that all hold one value is that value, where there is any. -/
theorem lastOf_map_const (keys : List κ) (value : α) (key : κ)
    : lastOf (keys.map fun k => (k, value)) key = if key ∈ keys then some value else none := by
  induction keys with
  | nil => rfl
  | cons first rest ih =>
      rw [List.map_cons, ← List.singleton_append, lastOf_append, ih, lastOf_singleton]
      by_cases later : key ∈ rest
      · simp [later]
      · simp [later]

/-- After a list of insertions into an empty map each key holds the last entry under it, by
induction on the list from its end.
-/
theorem get?_insertAll_empty (added : List (κ × α)) (key : κ)
    : ((empty : SortedMap κ α).insertAll added).get? key = lastOf added key := by
  induction added using List.reverseRecOn with
  | nil => rfl
  | append_singleton added entry ih =>
      rw [insertAll, List.foldl_append, List.foldl_cons, List.foldl_nil, get?_insert,
        lastOf_append, lastOf_singleton, ← ih]
      by_cases same : key = entry.1
      · simp [same]
      · simp [same, insertAll]

end SortedMap

end SortedMaps

/-! A map's entries kept by their keys, and a list's members gathered under what each is counted to.
-/

namespace SortedMaps.SortedMap

variable {κ α β : Type} [LinearOrder κ]

/-- The entries whose keys are kept. -/
def keep (m : SortedMap κ α) (kept : κ → Bool) : SortedMap κ α :=
  ⟨m.entries.filter fun entry => kept entry.1, m.sorted.filter _⟩

theorem get?_keep (m : SortedMap κ α) (kept : κ → Bool) (key : κ)
    : (m.keep kept).get? key = if kept key then m.get? key else none := by
  apply Option.ext
  intro value
  rw [← mem_entries_iff]
  unfold keep
  rw [List.mem_filter, m.mem_entries_iff]
  split
  next yes => exact and_iff_left yes
  next no => exact iff_of_false (fun both => no both.2) (Option.not_mem_none value)

/-- One member more under what it is counted to. -/
def gatherOne (group : α → Option κ) (value : α → β) (m : SortedMap κ (List β)) (a : α)
    : SortedMap κ (List β) :=
  match group a with
  | some key => m.insert key ((m.get? key).getD [] ++ [value a])
  | none => m

/-- The members of a list by what each is counted to, in the list's order. -/
def gather (group : α → Option κ) (value : α → β) (list : List α) : SortedMap κ (List β) :=
  list.foldl (gatherOne group value) empty

variable {group : α → Option κ} {value : α → β}

/-- What is gathered under a key is what was and what is counted to it, where there is any, by
induction on the list.
-/
theorem get?_foldl_gatherOne (list : List α) (m : SortedMap κ (List β)) (key : κ)
    : (list.foldl (gatherOne group value) m).get? key
      = if (list.filter fun a => group a = some key) = [] then m.get? key
        else some ((m.get? key).getD [] ++ (list.filter fun a => group a = some key).map value) := by
  induction list generalizing m with
  | nil => rfl
  | cons a rest ih =>
      rw [List.foldl_cons, ih, gatherOne]
      by_cases here : group a = some key
      · rw [List.filter_cons_of_pos (by simpa using here), if_neg (List.cons_ne_nil _ _), here]
        simp only [get?_insert_self, Option.getD_some]
        split
        next none_ => rw [none_, List.map_cons, List.map_nil]
        next => rw [List.map_cons, List.append_assoc, List.singleton_append]
      · rw [List.filter_cons_of_neg (by simpa using here)]
        cases counted : group a with
        | none => rfl
        | some other =>
            have apart : key ≠ other := fun same => here (counted.trans (congrArg some same.symm))
            simp only [get?_insert, if_neg apart]

/-- A key's members are those counted to it; a key none is counted to holds nothing. -/
theorem get?_gather (list : List α) (key : κ)
    : (gather group value list).get? key
      = if (list.filter fun a => group a = some key) = [] then none
        else some ((list.filter fun a => group a = some key).map value) := by
  rw [gather, get?_foldl_gatherOne, get?_empty, Option.getD_none, List.nil_append]

end SortedMaps.SortedMap
