import Ferrosys.Library.Checked
import Ferrosys.Library.Linked
import Mathlib.Data.List.Perm.Subperm
import Mathlib.Data.UInt

/-! The internal pool's ring of bitmap blocks: each block kept for the bitmap is one the bitmap is
in or has its place on a free list, which the space manager links through an array of its own.
-/

namespace Ferrosys.Apfs.Space

open Checked Linked

/-- What a block kept for the internal pool's bitmap is given to. -/
inductive Slot where
  | unplaced
  | bitmap
  | listed
deriving DecidableEq

/-- The mark of no block. -/
def noBlock : UInt16 := 0xFFFF

/-- A field that names a block, or none. -/
def named (block : UInt16) : Option UInt16 := some block |>.filter (· != noBlock)

/-- The block `next` puts after another. -/
def nextBlock (next : List UInt16) (block : UInt16) : Option UInt16 :=
  next[block.toNat]?.bind named

/-- Give a block to `kind`, which it must not be given to yet. -/
def place (kind : Slot) (taken : UInt16 → Slot → String) (missing : UInt16 → String)
    (slots : List Slot) (block : UInt16) : Except String (List Slot) :=
  match slots[block.toNat]? with
  | some .unplaced => .ok (slots.set block.toNat kind)
  | some slot => .error (taken block slot)
  | none => .error (missing block)

def placeBitmap (n : Nat) : List Slot → UInt16 → Except String (List Slot) :=
  place .bitmap (fun block _ => s!"is beside a bitmap with two blocks in block {block}")
    fun block => s!"is beside a bitmap in block {block}, past the {n} kept for it"

def placeListed (n : Nat) : List Slot → UInt16 → Except String (List Slot) :=
  place .listed (fun block slot => if slot = .bitmap
      then s!"holds block {block}, which the bitmap is in" else s!"reaches block {block} twice")
    fun block => s!"names block {block} of the {n} kept for the bitmap"

/-- The list must end where the space manager records its tail. -/
def checkTail (order : List UInt16) (tail : UInt16) : Except String Unit :=
  match order.getLast? with
  | none => refuseIf (tail != noBlock) "is empty and records a tail"
  | some last =>
      if last = tail then .ok ()
      else if order.contains tail then .error "does not end at its tail"
      else .error "ends before its tail"

/-- The array an order is linked through, over what every other block holds. -/
def wanted : List UInt16 → List UInt16 → List UInt16
  | block :: after :: rest, want => wanted (after :: rest) (want.set block.toNat after)
  | _, want => want

/-- The array the space manager records is held to the one the list's order gives. -/
def checkLinks (next order : List UInt16) : Except String Unit :=
  let want := wanted order (List.replicate next.length noBlock)
  match (List.range next.length).find? fun block => next[block]? != want[block]? with
  | some block => .error s!"leads on from block {block}, which the bitmap is in"
  | none => .ok ()

/-- The checks of the free list of a bitmap's ring, in the source's order. The list is followed for
one block more than there are, so that a loop is seen as a block met twice.
-/
def checkFreeList (next bitmap : List UInt16) (head tail : UInt16) : Except String Unit := do
  let n := next.length
  let order := follow (nextBlock next) (n + 1) (named head)
  let slots ← bitmap.foldlM (placeBitmap n) (List.replicate n .unplaced)
  let slots ← order.foldlM (placeListed n) slots
  checkTail order tail
  let unplaced := slots.count .unplaced
  let blocks := order.length
  let unused := order.length + unplaced
  refuseIf (unplaced != 0)
    s!"holds {blocks} blocks, and {unused} of the {n} kept for the bitmap are not in use"
  checkLinks next order

/-- What is wrong with the free list, if anything. -/
def freeListFault (next bitmap : List UInt16) (head tail : UInt16) : Option String :=
  match checkFreeList next bitmap head tail with
  | .ok () => none
  | .error fault => some fault

/-- A slot is one of these blocks. -/
def Holds (blocks : List UInt16) (slot : Nat) : Prop := ∃ block ∈ blocks, block.toNat = slot

/-- An order takes every slot the bitmap is not in once, and ends at the tail. -/
structure Orders (next bitmap order : List UInt16) (tail : UInt16) : Prop where
  distinct : order.Nodup
  inside : ∀ block ∈ order, block.toNat < next.length
  others : ∀ slot < next.length, Holds order slot ↔ ¬ Holds bitmap slot
  ends : order.getLast? = named tail

/-- A ring kept as it is meant to be: the bitmap is in blocks of its own, following the list from
its head takes every other block, and no block off the list leads on.
-/
structure Kept (next bitmap : List UInt16) (head tail : UInt16) : Prop where
  distinct : bitmap.Nodup
  inside : ∀ block ∈ bitmap, block.toNat < next.length
  listed : ∃ order, Follows (nextBlock next) (named head) order ∧ Orders next bitmap order tail
    ∧ ∀ slot < next.length, ¬ Holds order slot → next[slot]? = some noBlock

theorem named_eq_some {block named' : UInt16}
    : named block = some named' ↔ block = named' ∧ block ≠ noBlock := by
  simp only [named, Option.filter_eq_some_iff, Option.some.injEq, bne_iff_ne]
  constructor
  · rintro ⟨rfl, other⟩
    exact ⟨rfl, other⟩
  · rintro ⟨rfl, other⟩
    exact ⟨rfl, other⟩

theorem named_eq_none {block : UInt16} : named block = none ↔ block = noBlock := by
  simp [named, Option.filter_eq_none_iff]

/-- What a block on a list holds is what comes after it, or the mark of no block. -/
theorem getElem?_of_nextBlock {next : List UInt16} {block : UInt16}
    (inside : block.toNat < next.length)
    : next[block.toNat]? = some ((nextBlock next block).getD noBlock) := by
  rw [nextBlock, List.getElem?_eq_getElem inside, Option.bind_some]
  cases after : named next[block.toNat] with
  | none => rw [Option.getD_none, named_eq_none.mp after]
  | some found => rw [Option.getD_some, (named_eq_some.mp after).1]

/-- Slots once blocks are given to `kind`. -/
def fill (kind : Slot) (slots : List Slot) (blocks : List UInt16) : List Slot :=
  blocks.foldl (fun slots block => slots.set block.toNat kind) slots

/-- Blocks are given away where each is met once and was given to nothing before, by induction on
them.
-/
theorem foldlM_place_eq_ok {kind : Slot} (placed : kind ≠ .unplaced)
    {taken : UInt16 → Slot → String} {missing : UInt16 → String} {blocks : List UInt16}
    {slots slots' : List Slot}
    : blocks.foldlM (place kind taken missing) slots = .ok slots'
      ↔ blocks.Nodup ∧ (∀ block ∈ blocks, slots[block.toNat]? = some .unplaced)
        ∧ slots' = fill kind slots blocks := by
  induction blocks generalizing slots with
  | nil =>
      rw [List.foldlM_nil]
      constructor
      · rintro ⟨⟩
        exact ⟨.nil, fun _ member => absurd member List.not_mem_nil, rfl⟩
      · rintro ⟨-, -, rfl⟩
        rfl
  | cons block rest ih =>
      rw [List.foldlM_cons, List.nodup_cons]
      have apart : ∀ other ∈ rest, block ≠ other → (slots.set block.toNat kind)[other.toNat]?
          = slots[other.toNat]? := fun other _ differ =>
        List.getElem?_set_ne fun same => differ (UInt16.toNat_inj.mp same)
      constructor
      · intro done
        obtain ⟨after, step, done⟩ := bind_eq_ok.mp done
        unfold place at step
        split at step
        next free =>
          obtain rfl := Except.ok.inj step
          obtain ⟨distinct, unplaced, rfl⟩ := ih.mp done
          have fresh : block ∉ rest := by
            intro again
            have kept := unplaced block again
            have inside := (List.getElem?_eq_some_iff.mp free).1
            rw [List.getElem?_set_self inside, Option.some.injEq] at kept
            exact placed kept
          refine ⟨⟨fresh, distinct⟩, ?_, rfl⟩
          intro other member
          rcases List.mem_cons.mp member with rfl | later
          · exact free
          · rw [← apart other later fun same => fresh (same ▸ later)]
            exact unplaced other later
        next => cases step
        next => cases step
      · rintro ⟨⟨fresh, distinct⟩, unplaced, rfl⟩
        refine bind_eq_ok.mpr ⟨slots.set block.toNat kind, ?_, ?_⟩
        · rw [place, unplaced block List.mem_cons_self]
        · refine ih.mpr ⟨distinct, fun other later => ?_, rfl⟩
          rw [apart other later fun same => fresh (same ▸ later)]
          exact unplaced other (List.mem_cons_of_mem _ later)

/-- A slot is of `kind` once its block was given to it, and as it was where its block was not, by
induction on the blocks.
-/
theorem getElem?_fill (kind : Slot) (slots : List Slot) (blocks : List UInt16) (slot : Nat)
    : (Holds blocks slot → slot < slots.length → (fill kind slots blocks)[slot]? = some kind)
      ∧ (¬ Holds blocks slot → (fill kind slots blocks)[slot]? = slots[slot]?) := by
  induction blocks generalizing slots with
  | nil => exact ⟨fun ⟨_, member, _⟩ => absurd member List.not_mem_nil, fun _ => rfl⟩
  | cons block rest ih =>
      have ⟨given, kept⟩ := ih (slots.set block.toNat kind)
      rw [List.length_set] at given
      constructor
      · rintro ⟨other, member, here⟩ inside
        by_cases later : Holds rest slot
        · exact given later inside
        · rcases List.mem_cons.mp member with rfl | among
          · subst here
            exact (kept later).trans (List.getElem?_set_self inside)
          · exact absurd ⟨other, among, here⟩ later
      · intro none_
        refine (kept fun ⟨other, among, here⟩ =>
          none_ ⟨other, List.mem_cons_of_mem _ among, here⟩).trans ?_
        exact List.getElem?_set_ne fun here => none_ ⟨block, List.mem_cons_self, here⟩

@[simp] theorem length_fill (kind : Slot) (slots : List Slot) (blocks : List UInt16)
    : (fill kind slots blocks).length = slots.length := by
  induction blocks generalizing slots with
  | nil => rfl
  | cons block rest ih => exact (ih _).trans (List.length_set ..)

/-- Linking an order changes what its blocks hold alone, by induction on the order. -/
theorem getElem?_wanted_of_not_holds {order want : List UInt16} {slot : Nat}
    (off : ¬ Holds order slot) : (wanted order want)[slot]? = want[slot]? := by
  fun_induction wanted order want with
  | case1 block after rest want ih =>
      refine (ih fun ⟨other, among, here⟩ =>
        off ⟨other, List.mem_cons_of_mem _ among, here⟩).trans ?_
      exact List.getElem?_set_ne fun here => off ⟨block, List.mem_cons_self, here⟩
  | case2 => rfl

/-- Linking an order of blocks that are met once puts behind each what follows it, and nothing
behind the last, by induction on the order.
-/
theorem getElem?_wanted {next order want : List UInt16} {start : Option UInt16}
    (follows : Follows (nextBlock next) start order) (distinct : order.Nodup)
    (inside : ∀ block ∈ order, block.toNat < want.length)
    (bare : ∀ block ∈ order, want[block.toNat]? = some noBlock)
    : ∀ block ∈ order,
      (wanted order want)[block.toNat]? = some ((nextBlock next block).getD noBlock) := by
  induction follows generalizing want with
  | stop => exact fun _ member => absurd member List.not_mem_nil
  | @go block rest on ih =>
      rw [List.nodup_cons] at distinct
      obtain ⟨fresh, distinct⟩ := distinct
      have first : ¬ Holds rest block.toNat := fun ⟨other, among, here⟩ =>
        fresh (UInt16.toNat_inj.mp here ▸ among)
      cases after : nextBlock next block with
      | none =>
          rw [after] at on
          cases on
          intro other member
          obtain rfl := List.mem_singleton.mp member
          rw [after]
          exact bare other member
      | some following =>
          rw [after] at on
          cases on with
          | @go following rest on =>
          have apart : ∀ other ∈ following :: rest, (want.set block.toNat following)[other.toNat]?
              = want[other.toNat]? := fun other among =>
            List.getElem?_set_ne fun same => first ⟨other, among, same.symm⟩
          intro other member
          rcases List.mem_cons.mp member with rfl | among
          · rw [wanted, getElem?_wanted_of_not_holds first, after]
            exact List.getElem?_set_self (inside other List.mem_cons_self)
          · rw [wanted]
            refine ih distinct ?_ ?_ other among
            · intro block' among'
              rw [List.length_set]
              exact inside block' (List.mem_cons_of_mem _ among')
            · intro block' among'
              rw [apart block' among']
              exact bare block' (List.mem_cons_of_mem _ among')

/-- Blocks that are met once are no more than there are. -/
theorem length_le_of_distinct {order : List UInt16} {n : Nat} (distinct : order.Nodup)
    (inside : ∀ block ∈ order, block.toNat < n) : order.length ≤ n := by
  have apart : (order.map UInt16.toNat).Nodup :=
    distinct.map fun _ _ same => UInt16.toNat_inj.mp same
  have within : order.map UInt16.toNat ⊆ List.range n := by
    intro slot member
    obtain ⟨block, among, rfl⟩ := List.mem_map.mp member
    exact List.mem_range.mpr (inside block among)
  simpa using (apart.subperm within).length_le

/-- A list ends where its tail is recorded, where none of its blocks is the mark of no block. -/
theorem checkTail_eq_ok {order : List UInt16} {tail : UInt16}
    (some_ : ∀ block ∈ order, block ≠ noBlock)
    : checkTail order tail = .ok () ↔ order.getLast? = named tail := by
  unfold checkTail
  cases ends : order.getLast? with
  | none =>
      dsimp only
      rw [refuseIf_eq_ok, bne_eq_false_iff_eq, eq_comm (a := none), named_eq_none]
  | some last =>
      have named_ := some_ last (List.mem_of_getLast? ends)
      dsimp only
      rw [eq_comm (a := some last), named_eq_some]
      split
      next same => exact iff_of_true rfl ⟨same.symm, same ▸ named_⟩
      next differ =>
        have other : ¬ (tail = last ∧ tail ≠ noBlock) := fun ⟨same, _⟩ => differ same.symm
        split
        · exact iff_of_false (by simp) other
        · exact iff_of_false (by simp) other

/-- A slot stays unplaced exactly where neither the bitmap nor the list is in it. -/
theorem getElem?_placed {n slot : Nat} (inside : slot < n) (bitmap order : List UInt16)
    : (fill .listed (fill .bitmap (List.replicate n .unplaced) bitmap) order)[slot]?
        = some .unplaced
      ↔ ¬ Holds order slot ∧ ¬ Holds bitmap slot := by
  have ⟨given, kept⟩ := getElem?_fill .bitmap (List.replicate n .unplaced) bitmap slot
  have ⟨given', kept'⟩ :=
    getElem?_fill .listed (fill .bitmap (List.replicate n .unplaced) bitmap) order slot
  rw [length_fill] at given'
  rw [List.length_replicate] at given given'
  by_cases listed : Holds order slot
  · rw [given' listed inside]
    exact iff_of_false (by simp) fun ⟨off, _⟩ => off listed
  · rw [kept' listed]
    by_cases mapped : Holds bitmap slot
    · rw [given mapped inside]
      exact iff_of_false (by simp) fun ⟨_, off⟩ => off mapped
    · rw [kept mapped, List.getElem?_replicate, if_pos inside]
      exact iff_of_true rfl ⟨listed, mapped⟩

/-- No block is left unplaced exactly where every slot is the bitmap's or on the list. -/
theorem count_unplaced_eq_zero {n : Nat} {bitmap order : List UInt16}
    : (fill .listed (fill .bitmap (List.replicate n .unplaced) bitmap) order).count .unplaced = 0
      ↔ ∀ slot < n, ¬ Holds bitmap slot → Holds order slot := by
  rw [List.count_eq_zero, List.mem_iff_getElem?, not_exists]
  constructor
  · intro none_ slot inside off
    by_contra unlisted
    exact none_ slot ((getElem?_placed inside bitmap order).mpr ⟨unlisted, off⟩)
  · intro all slot unplaced
    have inside := (List.getElem?_eq_some_iff.mp unplaced).1
    simp only [length_fill, List.length_replicate] at inside
    have ⟨unlisted, off⟩ := (getElem?_placed inside bitmap order).mp unplaced
    exact unlisted (all slot inside off)

/-- A block on a followed list is none that marks no block. -/
theorem Follows.ne_noBlock {next order : List UInt16} {start : Option UInt16}
    (follows : Follows (nextBlock next) start order) (some_ : ∀ block ∈ start, block ≠ noBlock)
    : ∀ block ∈ order, block ≠ noBlock := by
  induction follows with
  | stop => exact fun _ member => absurd member List.not_mem_nil
  | @go block rest on ih =>
      intro other member
      rcases List.mem_cons.mp member with rfl | later
      · exact some_ other rfl
      · refine ih (fun after found => ?_) other later
        obtain ⟨field, -, named_⟩ := Option.bind_eq_some_iff.mp (Option.mem_def.mp found)
        obtain ⟨rfl, other⟩ := named_eq_some.mp named_
        exact other

/-- The bitmap's blocks are placed where they are distinct and in range. -/
theorem placeBitmap_eq_ok {n : Nat} {bitmap : List UInt16} {slots : List Slot}
    : bitmap.foldlM (placeBitmap n) (List.replicate n .unplaced) = .ok slots
      ↔ bitmap.Nodup ∧ (∀ block ∈ bitmap, block.toNat < n)
        ∧ slots = fill .bitmap (List.replicate n .unplaced) bitmap := by
  refine (foldlM_place_eq_ok (by decide)).trans ?_
  refine and_congr_right fun _ => and_congr_left fun _ => ?_
  refine forall₂_congr fun block _ => ?_
  rw [List.getElem?_replicate]
  split
  next inside => exact iff_of_true rfl inside
  next outside => exact iff_of_false (by simp) outside

/-- The list's blocks are placed where they are distinct, in range and none of them the bitmap's. -/
theorem placeListed_eq_ok {n : Nat} {bitmap order : List UInt16} {slots : List Slot}
    : order.foldlM (placeListed n) (fill .bitmap (List.replicate n .unplaced) bitmap) = .ok slots
      ↔ order.Nodup
        ∧ (∀ block ∈ order, block.toNat < n ∧ ¬ Holds bitmap block.toNat)
        ∧ slots = fill .listed (fill .bitmap (List.replicate n .unplaced) bitmap) order := by
  refine (foldlM_place_eq_ok (by decide)).trans ?_
  refine and_congr_right fun _ => and_congr_left fun _ => ?_
  refine forall₂_congr fun block _ => ?_
  constructor
  · intro unplaced
    have inside := (List.getElem?_eq_some_iff.mp unplaced).1
    simp only [length_fill, List.length_replicate] at inside
    have unlisted : ¬ Holds [] block.toNat := fun ⟨_, member, _⟩ => absurd member List.not_mem_nil
    exact ⟨inside, ((getElem?_placed inside bitmap []).mp unplaced).2⟩
  · rintro ⟨inside, off⟩
    rw [(getElem?_fill .bitmap _ bitmap _).2 off, List.getElem?_replicate, if_pos inside]

/-- Every slot's link is the one its order gives it, where nothing off the order leads on. -/
theorem checkLinks_eq_ok {next order : List UInt16} {start : Option UInt16}
    (follows : Follows (nextBlock next) start order) (distinct : order.Nodup)
    (inside : ∀ block ∈ order, block.toNat < next.length)
    : checkLinks next order = .ok ()
      ↔ ∀ slot < next.length, ¬ Holds order slot → next[slot]? = some noBlock := by
  have found : checkLinks next order = .ok () ↔ ((List.range next.length).find? fun block =>
      next[block]? != (wanted order (List.replicate next.length noBlock))[block]?) = none := by
    unfold checkLinks
    dsimp only
    split
    next some_ => rw [some_]; simp
    next none_ => rw [none_]; simp
  rw [found, List.find?_eq_none]
  have bare : ∀ slot < next.length, (List.replicate next.length noBlock)[slot]? = some noBlock :=
    fun slot inside => by rw [List.getElem?_replicate, if_pos inside]
  constructor
  · intro linked slot within off
    have same := linked slot (List.mem_range.mpr within)
    rw [Bool.not_eq_true, bne_eq_false_iff_eq, getElem?_wanted_of_not_holds off,
      bare slot within] at same
    exact same
  · intro off slot within
    rw [List.mem_range] at within
    rw [Bool.not_eq_true, bne_eq_false_iff_eq]
    by_cases on : Holds order slot
    · obtain ⟨block, among, rfl⟩ := on
      rw [getElem?_wanted follows distinct (by simpa using inside)
        (fun block among => bare _ (inside block among)) block among]
      exact getElem?_of_nextBlock (inside block among)
    · rw [getElem?_wanted_of_not_holds on, bare slot within]
      exact off slot within on

/-- Nothing is wrong with the free list exactly where the ring is kept as it is meant to be, and the
list is followed for one block more than there are at most.
-/
theorem freeListFault_eq_none_iff (next bitmap : List UInt16) (head tail : UInt16)
    : (freeListFault next bitmap head tail = none ↔ Kept next bitmap head tail)
      ∧ (follow (nextBlock next) (next.length + 1) (named head)).length ≤ next.length + 1 := by
  refine ⟨?_, length_follow_le _ _ _⟩
  have passes : freeListFault next bitmap head tail = none
      ↔ checkFreeList next bitmap head tail = .ok () := by
    unfold freeListFault
    cases checkFreeList next bitmap head tail <;> simp
  rw [passes]
  have some_ : ∀ block ∈ named head, block ≠ noBlock := fun block found => by
    obtain ⟨rfl, other⟩ := named_eq_some.mp (Option.mem_def.mp found)
    exact other
  constructor
  · intro passed
    obtain ⟨slots, mapped, passed⟩ := bind_eq_ok.mp passed
    obtain ⟨slots', listed, passed⟩ := bind_eq_ok.mp passed
    obtain ⟨_, ends, passed⟩ := bind_eq_ok.mp passed
    obtain ⟨_, unplaced, linked⟩ := bind_eq_ok.mp passed
    obtain ⟨distinct, inside, rfl⟩ := placeBitmap_eq_ok.mp mapped
    obtain ⟨distinct', inside', rfl⟩ := placeListed_eq_ok.mp listed
    have within := fun block among => (inside' block among).1
    have short := length_le_of_distinct distinct' within
    have follows := follows_of_length_lt (Nat.lt_succ_of_le short)
    have others := count_unplaced_eq_zero.mp (by simpa using unplaced)
    refine ⟨distinct, inside, _, follows, ⟨distinct', within, ?_, ?_⟩, ?_⟩
    · intro slot below
      refine ⟨?_, others slot below⟩
      rintro ⟨block, among, rfl⟩
      exact (inside' block among).2
    · exact (checkTail_eq_ok (Follows.ne_noBlock follows some_)).mp ends
    · exact (checkLinks_eq_ok follows distinct' within).mp linked
  · rintro ⟨distinct, inside, order, follows, orders, off⟩
    have short := length_le_of_distinct orders.distinct orders.inside
    have followed : follow (nextBlock next) (next.length + 1) (named head) = order :=
      follow_eq follows (Nat.le_succ_of_le short)
    have linked := (checkLinks_eq_ok follows orders.distinct orders.inside).mpr off
    have left := count_unplaced_eq_zero.mpr fun slot below => (orders.others slot below).mpr
    have placed := placeListed_eq_ok.mpr ⟨orders.distinct, fun block among =>
      ⟨orders.inside block among,
        (orders.others _ (orders.inside block among)).mp ⟨block, among, rfl⟩⟩, rfl⟩
    simp only [checkFreeList, followed]
    rw [placeBitmap_eq_ok.mpr ⟨distinct, inside, rfl⟩, ok_bind, placed, ok_bind,
      (checkTail_eq_ok (Follows.ne_noBlock follows some_)).mpr orders.ends, ok_bind, left, linked]
    rfl

end Ferrosys.Apfs.Space
