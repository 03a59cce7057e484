import Ferrosys.Cache
import Ferrosys.Library.Recency
import Mathlib.Data.List.Induction

/-! What a cache holds after any run of accesses is decided by the order of their last use. -/

namespace Ferrosys.BlockCache

open Recency

variable {α ε : Type} {cache : BlockCache α} {slots : List (Slot α)} {keys : List Nat} {key : Nat}
  {read : Nat → Except ε α}

/-- An access as a reader makes it: what the cache does not hold is read, and held from then on. -/
def access (self : BlockCache α) (read : Nat → Except ε α) (key : Nat)
    : Except ε α × BlockCache α :=
  match self.get key with
  | (some value, cache) => (.ok value, cache)
  | (none, cache) =>
      match read key with
      | .ok value => (.ok value, cache.insert key value)
      | .error error => (.error error, cache)

/-- A cache of `capacity` values after the accesses of a trace. -/
def after (read : Nat → Except ε α) (capacity : Nat) (trace : List Nat) : BlockCache α :=
  trace.foldl (fun cache key => (cache.access read key).2) (new capacity)

/-- Whether there is a value to hold. -/
def readable (read : Nat → Except ε α) (key : Nat) : Bool := (read key).isOk

/-- The slots in the order of their last use, the latest first. -/
structure Ranked (cache : BlockCache α) (slots : List (Slot α)) : Prop where
  same : slots.Perm cache.slots
  order : slots.Pairwise fun newer older => older.used < newer.used
  past : ∀ slot ∈ slots, slot.used ≤ cache.clock

/-- A cache holds what was read under the keys used last, as many as it has room for. -/
structure Keeps (read : Nat → Except ε α) (keys : List Nat) (cache : BlockCache α)
    (slots : List (Slot α)) : Prop where
  distinct : keys.Nodup
  ranked : cache.Ranked slots
  latest : slots.map Slot.key = keys.take cache.capacity
  read_ : ∀ slot ∈ slots, read slot.key = .ok slot.value

theorem modifyFirst_append {which : Slot α → Bool} {f : Slot α → Slot α} {slot : Slot α}
    {before : List (Slot α)} (rest : List (Slot α)) (clear : ∀ other ∈ before, which other = false)
    (here : which slot = true)
    : modifyFirst which f (before ++ slot :: rest) = before ++ f slot :: rest := by
  induction before with
  | nil => rw [List.nil_append, modifyFirst, if_pos here]; rfl
  | cons first before ih =>
      rw [List.cons_append, modifyFirst,
        if_neg (by simp [clear first List.mem_cons_self]),
        ih fun other member => clear other (List.mem_cons_of_mem _ member)]
      rfl

/-- A slot used now comes before those used until now, whichever it takes the place of. -/
theorem Ranked.front (ranked : cache.Ranked slots) {before after newer older : List (Slot α)}
    {old : Slot α} (slot : Slot α) (split : cache.slots = before ++ old :: after)
    (stood : slots = newer ++ old :: older) (now : slot.used = cache.clock + 1)
    : Ranked { cache with clock := cache.clock + 1, slots := before ++ slot :: after }
        (slot :: (newer ++ older)) := by
  have same := ranked.same
  rw [split, stood] at same
  have others : (newer ++ older).Sublist slots := by
    rw [stood]
    exact (List.Sublist.refl newer).append (List.sublist_cons_self old older)
  refine ⟨?_, List.pairwise_cons.mpr ⟨fun other member => ?_, ranked.order.sublist others⟩, ?_⟩
  · have rest := ((List.perm_middle.symm.trans same).trans List.perm_middle).cons_inv
    exact (rest.cons slot).trans List.perm_middle.symm
  · have past := ranked.past other (others.subset member)
    omega
  · intro other member
    rcases List.mem_cons.mp member with rfl | member
    · exact Nat.le_of_eq now
    · exact Nat.le_succ_of_le (ranked.past other (others.subset member))

/-- A slot used now comes before all others. -/
theorem Ranked.push (ranked : cache.Ranked slots) (slot : Slot α)
    (now : slot.used = cache.clock + 1)
    : Ranked { cache with clock := cache.clock + 1, slots := cache.slots ++ [slot] }
        (slot :: slots) := by
  refine ⟨?_, List.pairwise_cons.mpr ⟨fun other member => ?_, ranked.order⟩, ?_⟩
  · exact (ranked.same.cons slot).trans (List.perm_append_singleton slot cache.slots).symm
  · have past := ranked.past other member
    omega
  · intro other member
    rcases List.mem_cons.mp member with rfl | member
    · exact Nat.le_of_eq now
    · exact Nat.le_succ_of_le (ranked.past other member)

theorem Ranked.eq_of_used (ranked : cache.Ranked slots) {a b : Slot α} (left : a ∈ slots)
    (right : b ∈ slots) (used : a.used = b.used) : a = b := by
  refine List.inj_on_of_nodup_map ?_ left right used
  exact List.pairwise_map.mpr (ranked.order.imp fun later => (Nat.ne_of_lt later).symm)

/-- The slot given up is the one used longest ago. -/
theorem Ranked.oldest {newer : List (Slot α)} {old : Slot α}
    (ranked : cache.Ranked (newer ++ [old]))
    : (cache.slots.map Slot.used).min? = some old.used := by
  rw [List.min?_eq_some_iff]
  refine ⟨List.mem_map_of_mem (ranked.same.subset (by simp)), fun used member => ?_⟩
  obtain ⟨slot, held, rfl⟩ := List.mem_map.mp member
  rcases List.mem_append.mp (ranked.same.symm.subset held) with before | last
  · exact Nat.le_of_lt ((List.pairwise_append.mp ranked.order).2.2 slot before old (by simp))
  · exact Nat.le_of_eq (congrArg Slot.used (List.mem_singleton.mp last).symm)

theorem get_of_none (absent : cache.slots.find? (·.key == key) = none)
    : cache.get key = (none, { cache with clock := cache.clock + 1 }) := by
  unfold get
  rw [absent]

theorem get_of_some {slot : Slot α} (found : cache.slots.find? (·.key == key) = some slot)
    : cache.get key = (some slot.value,
        { cache with
          clock := cache.clock + 1
          slots := modifyFirst (·.key == key) (fun slot => { slot with used := cache.clock + 1 })
            cache.slots }) := by
  unfold get
  rw [found]

theorem Keeps.mem_iff (keeps : Keeps read keys cache slots)
    : (∃ slot ∈ cache.slots, slot.key = key) ↔ key ∈ keys.take cache.capacity := by
  rw [← keeps.latest, List.mem_map]
  exact exists_congr fun slot => and_congr_left' keeps.ranked.same.symm.mem_iff

/-- A key the cache holds is looked up, and is the one used last from then on. -/
theorem Keeps.hit (keeps : Keeps read keys cache slots) (held : key ∈ keys.take cache.capacity)
    : ∃ value after, cache.get key = (some value, after) ∧ read key = .ok value
      ∧ after.capacity = cache.capacity ∧ ∃ slots, Keeps read (touch keys key) after slots := by
  obtain ⟨slot, found⟩ : ∃ slot, cache.slots.find? (·.key == key) = some slot := by
    obtain ⟨slot, member, same⟩ := keeps.mem_iff.mpr held
    exact Option.isSome_iff_exists.mp (List.find?_isSome.mpr ⟨slot, member, beq_iff_eq.mpr same⟩)
  obtain ⟨isKey, before, behind, split, clear⟩ := List.find?_eq_some_iff_append.mp found
  have same : slot.key = key := beq_iff_eq.mp isKey
  have member : slot ∈ slots :=
    keeps.ranked.same.symm.subset (List.mem_of_find?_eq_some found)
  obtain ⟨newer, older, stood⟩ := List.append_of_mem member
  rw [get_of_some found, split,
    modifyFirst_append _ (fun other inside => by simpa using clear other inside) isKey]
  refine ⟨slot.value, _, rfl, same ▸ keeps.read_ slot member, rfl, _,
    nodup_touch keeps.distinct, keeps.ranked.front _ split stood rfl, ?_, ?_⟩
  · have latest := keeps.latest
    obtain ⟨room, isRoom⟩ : ∃ room, cache.capacity = room + 1 :=
      Nat.exists_eq_succ_of_ne_zero fun none_ => by simp [none_] at held
    change _ = (touch keys key).take cache.capacity
    rw [isRoom] at held latest ⊢
    have apart : (newer ++ slot :: older).map Slot.key
        = newer.map Slot.key ++ key :: older.map Slot.key := by
      rw [List.map_append, List.map_cons, same]
    rw [stood, apart] at latest
    have others : key ∉ newer.map Slot.key := by
      have distinct := keeps.distinct.sublist (List.take_sublist (room + 1) keys)
      rw [← latest] at distinct
      exact fun inside => (List.nodup_append.mp distinct).2.2 key inside key (by simp) rfl
    rw [touch, List.take_succ_cons, take_erase_of_mem held, ← latest,
      List.erase_append_right _ others, List.erase_cons_head, List.map_cons, List.map_append, same]
  · intro other inside
    rcases List.mem_cons.mp inside with rfl | inside
    · exact keeps.read_ slot member
    · refine keeps.read_ other (stood ▸ ?_)
      exact List.mem_append.mpr ((List.mem_append.mp inside).imp id (List.mem_cons_of_mem _))

/-- A key the cache does not hold is not found, and nothing is given up for that. -/
theorem Keeps.miss (keeps : Keeps read keys cache slots) (absent : key ∉ keys.take cache.capacity)
    : ∃ after, cache.get key = (none, after) ∧ after.capacity = cache.capacity
      ∧ Keeps read keys after slots := by
  have none_ : cache.slots.find? (·.key == key) = none := by
    rw [List.find?_eq_none]
    exact fun slot member same => absent (keeps.mem_iff.mp ⟨slot, member, beq_iff_eq.mp same⟩)
  rw [get_of_none none_]
  refine ⟨_, rfl, rfl, keeps.distinct, ?_, keeps.latest, keeps.read_⟩
  exact ⟨keeps.ranked.same, keeps.ranked.order,
    fun slot member => Nat.le_succ_of_le (keeps.ranked.past slot member)⟩

/-- What is read is held, in the place of what was used longest ago where there is no room. -/
theorem Keeps.insert {value : α} (keeps : Keeps read keys cache slots)
    (absent : key ∉ keys.take cache.capacity) (isRead : read key = .ok value)
    : (cache.insert key value).capacity = cache.capacity
      ∧ ∃ slots, Keeps read (touch keys key) (cache.insert key value) slots := by
  have distinct : (touch keys key).Nodup := nodup_touch keeps.distinct
  have latest := keeps.latest
  have count : slots.length = cache.slots.length := keeps.ranked.same.length_eq
  unfold BlockCache.insert
  split_ifs with none_ room
  · refine ⟨rfl, slots, distinct, keeps.ranked, ?_, keeps.read_⟩
    rw [latest, none_, List.take_zero, List.take_zero]
  all_goals
    obtain ⟨most, isMost⟩ := Nat.exists_eq_succ_of_ne_zero none_
    have rest : (touch keys key).take cache.capacity = key :: keys.take most := by
      rw [isMost, touch, List.take_succ_cons, take_erase_of_not_mem]
      exact fun inside => absent ((List.take_subset_take_left keys (by omega)) inside)
  · refine ⟨rfl, _, distinct, keeps.ranked.push _ rfl, ?_, ?_⟩
    · change _ = (touch keys key).take cache.capacity
      have few := congrArg List.length latest
      rw [List.length_map, List.length_take] at few
      rw [rest, List.map_cons, latest, List.take_of_length_le (by omega),
        List.take_of_length_le (by omega)]
    · intro slot member
      rcases List.mem_cons.mp member with rfl | member
      · exact isRead
      · exact keeps.read_ slot member
  · have full := congrArg List.length latest
    rw [List.length_map, List.length_take] at full
    obtain ⟨newer, old, stood⟩ : ∃ newer old, slots = newer ++ [old] := by
      rcases List.eq_nil_or_concat slots with none_ | ⟨newer, old, stood⟩
      · rw [none_] at count
        simp at count
        omega
      · exact ⟨newer, old, by simpa using stood⟩
    subst stood
    have isOldest := keeps.ranked.oldest
    have held : old ∈ cache.slots := keeps.ranked.same.subset (by simp)
    obtain ⟨given, found⟩ : ∃ given, cache.slots.find?
        (fun other => some other.used == (cache.slots.map Slot.used).min?) = some given :=
      Option.isSome_iff_exists.mp
        (List.find?_isSome.mpr ⟨old, held, beq_iff_eq.mpr isOldest.symm⟩)
    obtain ⟨last, before, behind, split, clear⟩ := List.find?_eq_some_iff_append.mp found
    have same : given = old := by
      rw [isOldest] at last
      have member := keeps.ranked.same.symm.subset (List.mem_of_find?_eq_some found)
      exact keeps.ranked.eq_of_used member (by simp) (Option.some_inj.mp (beq_iff_eq.mp last))
    subst same
    refine ⟨rfl, ⟨key, cache.clock + 1, value⟩ :: (newer ++ []), distinct, ?_, ?_, ?_⟩
    · have placed : modifyFirst
          (fun other => some other.used == (cache.slots.map Slot.used).min?)
          (fun _ => ⟨key, cache.clock + 1, value⟩) cache.slots
            = before ++ ⟨key, cache.clock + 1, value⟩ :: behind := by
        refine (congrArg (modifyFirst _ _) split).trans (modifyFirst_append behind ?_ last)
        exact fun other inside => Bool.not_eq_true' _ ▸ clear other inside
      have front := keeps.ranked.front ⟨key, cache.clock + 1, value⟩ split rfl rfl
      rw [← placed] at front
      exact front
    · change _ = (touch keys key).take cache.capacity
      have count : (newer.map Slot.key).length = most := by
        rw [List.length_append, List.length_singleton] at count full
        rw [List.length_map]
        omega
      have kept := congrArg (List.take most) latest
      rw [List.map_append, List.take_left' count, List.take_take, isMost,
        Nat.min_eq_left (Nat.le_succ most)] at kept
      rw [rest, List.append_nil, List.map_cons, kept]
    · intro slot member
      rcases List.mem_cons.mp member with rfl | member
      · exact isRead
      · exact keeps.read_ slot (List.mem_append_left _ (List.append_nil newer ▸ member))

/-- An access answers what is read uncached, and only a key there is a value for is used. -/
theorem Keeps.access (keeps : Keeps read keys cache slots) (key : Nat)
    : (cache.access read key).1 = read key
      ∧ (cache.access read key).2.capacity = cache.capacity
      ∧ ∃ slots, Keeps read (if readable read key then touch keys key else keys)
          (cache.access read key).2 slots := by
  by_cases held : key ∈ keys.take cache.capacity
  · obtain ⟨value, after, got, isRead, room, slots, keeps⟩ := keeps.hit held
    rw [BlockCache.access, got, readable, isRead]
    exact ⟨rfl, room, slots, keeps⟩
  · obtain ⟨after, got, room, keeps⟩ := keeps.miss held
    rw [BlockCache.access, got, readable]
    cases isRead : read key with
    | error error => exact ⟨rfl, room, slots, keeps⟩
    | ok value =>
        obtain ⟨same, keeps⟩ := keeps.insert (room ▸ held) isRead
        exact ⟨rfl, same.trans room, keeps⟩

theorem access_congr {read' : Nat → Except ε α} (cache : BlockCache α)
    (alike : ∀ value, read key = .ok value ↔ read' key = .ok value)
    : (cache.access read key).2 = (cache.access read' key).2 := by
  unfold access
  rcases cache.get key with ⟨_ | value, held⟩
  · cases isRead : read key with
    | ok value => rw [(alike value).mp isRead]
    | error error =>
        cases isRead' : read' key with
        | ok value => cases isRead.symm.trans ((alike value).mpr isRead')
        | error error => rfl
  · rfl

/-- What a cache holds after a trace, by induction on the accesses from the last. -/
theorem keeps_after (read : Nat → Except ε α) (capacity : Nat) (trace : List Nat)
    : (after read capacity trace).capacity = capacity
      ∧ ∃ slots, Keeps read (recent (trace.filter (readable read))) (after read capacity trace)
          slots := by
  induction trace using List.reverseRecOn with
  | nil =>
      exact ⟨rfl, [], List.nodup_nil, ⟨List.Perm.refl _, List.Pairwise.nil, nofun⟩,
        (List.take_nil).symm, nofun⟩
  | append_singleton trace key ih =>
      obtain ⟨room, slots, keeps⟩ := ih
      obtain ⟨-, same, keeps⟩ := keeps.access key
      rw [after, List.foldl_append, List.filter_append]
      refine ⟨same.trans room, ?_⟩
      by_cases used : readable read key = true
      · rw [if_pos used] at keeps
        rw [List.filter_cons_of_pos used, recent, List.foldl_append]
        exact keeps
      · rw [if_neg used] at keeps
        rw [List.filter_cons_of_neg used, List.filter_nil, List.append_nil]
        exact keeps

theorem held_iff (read : Nat → Except ε α) (capacity : Nat) (trace : List Nat) (key : Nat)
    : ((after read capacity trace).get key).1.isSome
      ↔ key ∈ (recent (trace.filter (readable read))).take capacity := by
  obtain ⟨room, slots, keeps⟩ := keeps_after read capacity trace
  by_cases held : key ∈ (recent (trace.filter (readable read))).take capacity
  · obtain ⟨value, after, got, -⟩ := keeps.hit (room.symm ▸ held)
    simp [got, held]
  · obtain ⟨after, got, -⟩ := keeps.miss (room.symm ▸ held)
    simp [got, held]

theorem length_after (read : Nat → Except ε α) (capacity : Nat) (trace : List Nat)
    : (after read capacity trace).slots.length ≤ capacity := by
  obtain ⟨room, slots, keeps⟩ := keeps_after read capacity trace
  rw [← keeps.ranked.same.length_eq, ← List.length_map Slot.key, keeps.latest, room]
  exact List.length_take_le _ _

/-- Whatever is accessed and whichever reads fail, a cache answers what an uncached read would,
holds the keys used last, no more of them than its capacity, and all that a smaller cache holds.
-/
theorem serves_recent (read : Nat → Except ε α) (capacity more : Nat) (trace : List Nat) (key : Nat)
    : ((after read capacity trace).access read key).1 = read key
      ∧ (after read capacity trace).slots.length ≤ capacity
      ∧ (((after read capacity trace).get key).1.isSome
        ↔ key ∈ (recent (trace.filter (readable read))).take capacity)
      ∧ (((after read capacity trace).get key).1.isSome
        → ((after read (capacity + more) trace).get key).1.isSome) := by
  refine ⟨?_, length_after read capacity trace, held_iff read capacity trace key, fun held => ?_⟩
  · obtain ⟨-, slots, keeps⟩ := keeps_after read capacity trace
    exact (keeps.access key).1
  · rw [held_iff] at held ⊢
    exact List.take_subset_take_left _ (Nat.le_add_right capacity more) held

end Ferrosys.BlockCache
