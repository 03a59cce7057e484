import Mathlib.Data.List.Basic

/-! A bounded cache of blocks read from a source, the least recently used given up first. -/

namespace Ferrosys

structure Slot (α : Type) where
  key : Nat
  used : Nat
  value : α
deriving DecidableEq

/-- At most `capacity` values, each under the address it was read from. -/
structure BlockCache (α : Type) where
  slots : List (Slot α)
  capacity : Nat
  clock : Nat
deriving DecidableEq

namespace BlockCache

variable {α : Type}

def new (capacity : Nat) : BlockCache α := ⟨[], capacity, 0⟩

/-- A cache of `budget` bytes of blocks `block` bytes long, and never fewer than `floor`. -/
def within (budget block floor : Nat) : BlockCache α :=
  new (max (budget / max block 1) floor)

/-- Change the first slot `which` holds of. -/
def modifyFirst (which : Slot α → Bool) (f : Slot α → Slot α) : List (Slot α) → List (Slot α)
  | [] => []
  | slot :: rest =>
      if which slot then f slot :: rest else slot :: modifyFirst which f rest

/-- The value held under `key`, which becomes the most recently used. -/
def get (self : BlockCache α) (key : Nat) : Option α × BlockCache α :=
  let clock := self.clock + 1
  match self.slots.find? (·.key == key) with
  | none => (none, { self with clock := clock })
  | some slot =>
      (some slot.value,
        { self with
          clock := clock
          slots := modifyFirst (·.key == key) (fun slot => { slot with used := clock })
            self.slots })

/-- Hold `value` under `key`, giving up the least recently used value if the cache is full. -/
def insert (self : BlockCache α) (key : Nat) (value : α) : BlockCache α :=
  if self.capacity = 0 then self
  else
    let clock := self.clock + 1
    let slot : Slot α := ⟨key, clock, value⟩
    if self.slots.length < self.capacity then
      { self with clock := clock, slots := self.slots ++ [slot] }
    else
      let oldest := (self.slots.map Slot.used).min?
      { self with
        clock := clock
        slots := modifyFirst (fun other => some other.used == oldest) (fun _ => slot)
          self.slots }

/-- Every value the cache holds under a key is one `holds` allows. -/
def Holds (holds : Nat → α → Prop) (self : BlockCache α) : Prop :=
  ∀ slot ∈ self.slots, holds slot.key slot.value

theorem new_holds (holds : Nat → α → Prop) (capacity : Nat)
    : (new capacity : BlockCache α).Holds holds := nofun

theorem mem_modifyFirst {which : Slot α → Bool} {f : Slot α → Slot α} {slots : List (Slot α)}
    {slot : Slot α} (h : slot ∈ modifyFirst which f slots)
    : slot ∈ slots ∨ ∃ old ∈ slots, slot = f old := by
  induction slots with
  | nil => cases h
  | cons first rest ih =>
      unfold modifyFirst at h
      split at h
      · rcases List.mem_cons.mp h with rfl | later
        · exact .inr ⟨first, List.mem_cons_self, rfl⟩
        · exact .inl (List.mem_cons_of_mem _ later)
      · rcases List.mem_cons.mp h with rfl | later
        · exact .inl List.mem_cons_self
        · rcases ih later with kept | ⟨old, member, changed⟩
          · exact .inl (List.mem_cons_of_mem _ kept)
          · exact .inr ⟨old, List.mem_cons_of_mem _ member, changed⟩

/-- Looking a key up answers a value the cache held, and keeps what it holds. -/
theorem Holds.get {holds : Nat → α → Prop} {self : BlockCache α} (h : self.Holds holds)
    (key : Nat)
    : (self.get key).2.Holds holds ∧ ∀ value, (self.get key).1 = some value → holds key value := by
  unfold BlockCache.get
  cases found : self.slots.find? (·.key == key) with
  | none => exact ⟨h, nofun⟩
  | some slot =>
      have same : slot.key = key := by simpa using List.find?_some found
      have member := List.mem_of_find?_eq_some found
      constructor
      · intro kept isKept
        rcases mem_modifyFirst isKept with old | ⟨old, isOld, rfl⟩
        · exact h kept old
        · exact h old isOld
      · rintro value ⟨⟩
        exact same ▸ h slot member

/-- Holding a further value keeps what the cache holds. -/
theorem Holds.insert {holds : Nat → α → Prop} {self : BlockCache α} (h : self.Holds holds)
    {key : Nat} {value : α} (new_ : holds key value)
    : (self.insert key value).Holds holds := by
  unfold BlockCache.insert
  split_ifs
  · exact h
  · intro slot member
    rcases List.mem_append.mp member with old | added
    · exact h slot old
    · obtain rfl := List.mem_singleton.mp added
      exact new_
  · intro slot member
    rcases mem_modifyFirst member with old | ⟨_, _, rfl⟩
    · exact h slot old
    · exact new_

end BlockCache

end Ferrosys
