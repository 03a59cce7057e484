import Ferrosys.Bytes
import Ferrosys.Library.Checked
import Ferrosys.Library.Chunks
import Mathlib.Data.List.Sort
import Mathlib.Data.Nat.Bitwise
import Mathlib.Data.UInt

/-! POSIX access control lists, and the bytes one is written in at every boundary outside a
filesystem: a version, then an entry of eight bytes for each of its own.
-/

namespace Ferrosys

open Checked Splice

inductive AclError where
  | missingRequired (tag : String)
  | duplicate (tag : String)
  | maskRequired
  | invalidPerm (perm : UInt16)
  | undefinedId (tag : String)
  | malformed (reason : String)
deriving DecidableEq

/-- Who an entry grants permissions to. -/
inductive AclQualifier where
  | userObj
  | user (id : UInt32)
  | groupObj
  | group (id : UInt32)
  | mask
  | other
deriving DecidableEq

structure AclEntry where
  who : AclQualifier
  perm : UInt16
deriving DecidableEq

namespace Acl

/-- The version of the form a boundary speaks. -/
def xattrVersion : Nat := 2

def xattrEntryLen : Nat := 8

/-- The id an entry carries that names nobody in particular. -/
def undefinedId : UInt32 := 0xFFFFFFFF

def read : UInt16 := 4
def write : UInt16 := 2
def exec : UInt16 := 1

def tagUserObj : Nat := 0x01
def tagUser : Nat := 0x02
def tagGroupObj : Nat := 0x04
def tagGroup : Nat := 0x08
def tagMask : Nat := 0x10
def tagOther : Nat := 0x20

/-- A qualifier's tag and the id that goes with it. -/
def tagAndId : AclQualifier → Nat × Option UInt32
  | .userObj => (tagUserObj, none)
  | .user id => (tagUser, some id)
  | .groupObj => (tagGroupObj, none)
  | .group id => (tagGroup, some id)
  | .mask => (tagMask, none)
  | .other => (tagOther, none)

/-- The qualifier a tag names: the id is kept by the two that identify somebody. -/
def fromTag (tag : Nat) (id : UInt32) : Option AclQualifier :=
  if tag = tagUserObj then some .userObj
  else if tag = tagUser then some (.user id)
  else if tag = tagGroupObj then some .groupObj
  else if tag = tagGroup then some (.group id)
  else if tag = tagMask then some .mask
  else if tag = tagOther then some .other
  else none

/-- The key entries are ordered by: the tag, then the id within it. -/
def sortKey (who : AclQualifier) : Nat × Nat :=
  ((tagAndId who).1, ((tagAndId who).2.getD 0).toNat)

/-- Canonical order. -/
def Precedes (a b : AclEntry) : Prop :=
  (sortKey a.who).1 < (sortKey b.who).1
    ∨ (sortKey a.who).1 = (sortKey b.who).1 ∧ (sortKey a.who).2 ≤ (sortKey b.who).2

instance : DecidableRel Precedes := fun _ _ => inferInstanceAs (Decidable (_ ∨ _))

/-- A permission field sets no bit but those of reading, writing and executing. -/
def checkPerm (entry : AclEntry) : Except AclError Unit :=
  refuseIf (entry.perm &&& ~~~(read ||| write ||| exec) != 0) (.invalidPerm entry.perm)

/-- How many entries are for `who`. -/
def countOf (entries : List AclEntry) (who : AclQualifier) : Nat :=
  entries.countP fun entry => entry.who == who

/-- The named entries met so far. -/
structure Seen where
  named : Bool
  users : List UInt32
  groups : List UInt32
deriving DecidableEq

/-- Named users and groups must have distinct ids, none of them the undefined one. -/
def see (seen : Seen) (entry : AclEntry) : Except AclError Seen :=
  match entry.who with
  | .user id => do
      refuseIf (id == undefinedId) (.undefinedId "named-user")
      refuseIf (seen.users.contains id) (.duplicate "named-user")
      return { seen with named := true, users := seen.users ++ [id] }
  | .group id => do
      refuseIf (id == undefinedId) (.undefinedId "named-group")
      refuseIf (seen.groups.contains id) (.duplicate "named-group")
      return { seen with named := true, groups := seen.groups ++ [id] }
  | _ => .ok seen

/-- The rules on required entries and on the mask. -/
def validate (entries : List AclEntry) : Except AclError Unit := do
  let userObj := countOf entries .userObj
  let groupObj := countOf entries .groupObj
  let other := countOf entries .other
  let mask := countOf entries .mask
  refuseIf (userObj == 0) (.missingRequired "owner")
  refuseIf (groupObj == 0) (.missingRequired "owning-group")
  refuseIf (other == 0) (.missingRequired "other")
  refuseIf (1 < userObj) (.duplicate "owner")
  refuseIf (1 < groupObj) (.duplicate "owning-group")
  refuseIf (1 < other) (.duplicate "other")
  refuseIf (1 < mask) (.duplicate "mask")
  let seen ← entries.foldlM see ⟨false, [], []⟩
  refuseIf (seen.named && mask == 0) .maskRequired

/-- The user an entry names. -/
def userId (entry : AclEntry) : Option UInt32 :=
  match entry.who with
  | .user id => some id
  | _ => none

/-- The group an entry names. -/
def groupId (entry : AclEntry) : Option UInt32 :=
  match entry.who with
  | .group id => some id
  | _ => none

/-- The entries of an access control list: every permission is at most seven, each base entry stands
once and a mask once at most, no named id is repeated or the undefined one, and a mask stands where
a named entry does.
-/
structure Valid (entries : List AclEntry) : Prop where
  perms : ∀ entry ∈ entries, entry.perm ≤ 7
  userObj : countOf entries .userObj = 1
  groupObj : countOf entries .groupObj = 1
  other : countOf entries .other = 1
  mask : countOf entries .mask ≤ 1
  users : (entries.filterMap userId).Nodup
  groups : (entries.filterMap groupId).Nodup
  defined : undefinedId ∉ entries.filterMap userId ∧ undefinedId ∉ entries.filterMap groupId
  masked : (∃ entry ∈ entries, (userId entry).isSome ∨ (groupId entry).isSome) →
    countOf entries .mask = 1

end Acl

/-- An access control list: entries in canonical order that make one. -/
structure Acl where
  entries : List AclEntry
  sorted : entries.Pairwise Acl.Precedes
  valid : Acl.Valid entries
deriving DecidableEq

namespace Acl

/-- A permission field of sixteen bits sets none past the lowest three where it is at most seven. -/
theorem stray_eq_zero_iff (perm : UInt16)
    : perm &&& ~~~(read ||| write ||| exec) = 0 ↔ perm ≤ 7 := by
  have rest : ~~~(read ||| write ||| exec) = (0xFFF8 : UInt16) := by decide
  rw [rest, ← UInt16.toNat_inj, UInt16.le_iff_toNat_le, UInt16.toNat_and]
  show perm.toNat &&& 0xFFF8 = 0 ↔ perm.toNat ≤ 7
  have narrow := perm.toNat_lt
  have high : (perm.toNat &&& 0xFFF8) / 2 ^ 3 = perm.toNat / 2 ^ 3 := by
    rw [Nat.and_div_two_pow, show 0xFFF8 / 2 ^ 3 = 2 ^ 13 - 1 by decide,
      Nat.and_two_pow_sub_one_eq_mod, Nat.mod_eq_of_lt (by omega)]
  have low : (perm.toNat &&& 0xFFF8) % 2 ^ 3 = 0 := by
    rw [Nat.and_mod_two_pow]
    exact Nat.and_zero _
  omega

/-- Ids that may be met after these: each once, none of them the undefined one. -/
def Fresh (seen ids : List UInt32) : Prop := ids.Nodup ∧ ∀ id ∈ ids, id ∉ seen ∧ id ≠ undefinedId

theorem fresh_cons {seen ids : List UInt32} {id : UInt32}
    : Fresh seen (id :: ids) ↔ (id ∉ seen ∧ id ≠ undefinedId) ∧ Fresh (seen ++ [id]) ids := by
  simp only [Fresh, List.nodup_cons, List.forall_mem_cons, List.mem_append, List.mem_singleton,
    not_or]
  constructor
  · rintro ⟨⟨once, distinct⟩, here, rest⟩
    refine ⟨here, distinct, fun other member =>
      ⟨⟨(rest other member).1, ?_⟩, (rest other member).2⟩⟩
    rintro rfl
    exact once member
  · rintro ⟨here, distinct, rest⟩
    refine ⟨⟨fun member => (rest id member).1.2 rfl, distinct⟩, here, fun other member => ?_⟩
    exact ⟨(rest other member).1.1, (rest other member).2⟩

/-- A named entry is met where its id is fresh. -/
theorem fresh_eq_ok {ids : List UInt32} {id : UInt32} {undefined repeated : AclError}
    {seen seen' : Seen}
    : (do
        refuseIf (id == undefinedId) undefined
        refuseIf (ids.contains id) repeated
        return seen : Except AclError Seen) = .ok seen'
      ↔ (id ∉ ids ∧ id ≠ undefinedId) ∧ seen' = seen := by
  constructor
  · intro met
    obtain ⟨_, other, met⟩ := bind_eq_ok.mp met
    obtain ⟨_, once, met⟩ := bind_eq_ok.mp met
    cases met
    rw [refuseIf_eq_ok, beq_eq_false_iff_ne] at other
    rw [refuseIf_eq_ok, List.contains_eq_mem, decide_eq_false_iff_not] at once
    exact ⟨⟨once, other⟩, rfl⟩
  · rintro ⟨⟨once, other⟩, rfl⟩
    rw [beq_eq_false_iff_ne.mpr other, List.contains_eq_mem, decide_eq_false once]
    rfl

/-- The named entries are all met where their ids are fresh, by induction on the entries. -/
theorem foldlM_see_eq_ok {entries : List AclEntry} {seen seen' : Seen}
    : entries.foldlM see seen = .ok seen'
      ↔ Fresh seen.users (entries.filterMap userId) ∧ Fresh seen.groups (entries.filterMap groupId)
        ∧ seen' = ⟨seen.named || entries.any fun entry =>
            (userId entry).isSome || (groupId entry).isSome,
          seen.users ++ entries.filterMap userId, seen.groups ++ entries.filterMap groupId⟩ := by
  induction entries generalizing seen with
  | nil =>
      rw [List.foldlM_nil]
      constructor
      · rintro ⟨⟩
        simp [Fresh]
      · rintro ⟨-, -, rfl⟩
        simp [pure, Except.pure]
  | cons entry rest ih =>
      obtain ⟨who, perm⟩ := entry
      rw [List.foldlM_cons]
      cases who with
      | user id =>
          have users : (⟨.user id, perm⟩ :: rest).filterMap userId
              = id :: rest.filterMap userId := rfl
          have groups : (⟨.user id, perm⟩ :: rest).filterMap groupId = rest.filterMap groupId := rfl
          have met : ∀ seen', see seen ⟨.user id, perm⟩ = .ok seen'
              ↔ (id ∉ seen.users ∧ id ≠ undefinedId)
                ∧ seen' = { seen with named := true, users := seen.users ++ [id] } :=
            fun _ => fresh_eq_ok
          simp only [bind_eq_ok, met, users, groups, fresh_cons, List.any_cons]
          constructor
          · rintro ⟨_, ⟨here, rfl⟩, done⟩
            obtain ⟨users, groups, rfl⟩ := ih.mp done
            exact ⟨⟨here, users⟩, groups, by simp [userId]⟩
          · rintro ⟨⟨here, users⟩, groups, rfl⟩
            exact ⟨_, ⟨here, rfl⟩, ih.mpr ⟨users, groups, by simp [userId, groupId]⟩⟩
      | group id =>
          have users : (⟨.group id, perm⟩ :: rest).filterMap userId = rest.filterMap userId := rfl
          have groups : (⟨.group id, perm⟩ :: rest).filterMap groupId
              = id :: rest.filterMap groupId := rfl
          have met : ∀ seen', see seen ⟨.group id, perm⟩ = .ok seen'
              ↔ (id ∉ seen.groups ∧ id ≠ undefinedId)
                ∧ seen' = { seen with named := true, groups := seen.groups ++ [id] } :=
            fun _ => fresh_eq_ok
          simp only [bind_eq_ok, met, users, groups, fresh_cons, List.any_cons]
          constructor
          · rintro ⟨_, ⟨here, rfl⟩, done⟩
            obtain ⟨users, groups, rfl⟩ := ih.mp done
            exact ⟨users, ⟨here, groups⟩, by simp [groupId]⟩
          · rintro ⟨users, ⟨here, groups⟩, rfl⟩
            exact ⟨_, ⟨here, rfl⟩, ih.mpr ⟨users, groups, by simp [userId, groupId]⟩⟩
      | userObj => exact ih
      | groupObj => exact ih
      | mask => exact ih
      | other => exact ih

/-- The checks pass exactly what makes a list. -/
theorem checks_eq_ok_iff {entries : List AclEntry}
    : (∀ entry ∈ entries, checkPerm entry = .ok ()) ∧ validate entries = .ok ()
      ↔ Valid entries := by
  have perms : (∀ entry ∈ entries, checkPerm entry = .ok ())
      ↔ ∀ entry ∈ entries, entry.perm ≤ 7 := by
    refine forall₂_congr fun entry _ => ?_
    rw [checkPerm, refuseIf_eq_ok, bne_eq_false_iff_eq, stray_eq_zero_iff]
  rw [perms]
  have defined : ∀ ids, Fresh [] ids ↔ ids.Nodup ∧ undefinedId ∉ ids := fun ids =>
    and_congr_right fun _ => by
      constructor
      · exact fun free member => (free _ member).2 rfl
      · exact fun free id member => ⟨List.not_mem_nil, fun same => free (same ▸ member)⟩
  constructor
  · rintro ⟨perms, valid⟩
    obtain ⟨_, userObj, valid⟩ := bind_eq_ok.mp valid
    obtain ⟨_, groupObj, valid⟩ := bind_eq_ok.mp valid
    obtain ⟨_, other, valid⟩ := bind_eq_ok.mp valid
    obtain ⟨_, userObj', valid⟩ := bind_eq_ok.mp valid
    obtain ⟨_, groupObj', valid⟩ := bind_eq_ok.mp valid
    obtain ⟨_, other', valid⟩ := bind_eq_ok.mp valid
    obtain ⟨_, mask, valid⟩ := bind_eq_ok.mp valid
    obtain ⟨seen, met, valid⟩ := bind_eq_ok.mp valid
    obtain ⟨users, groups, rfl⟩ := foldlM_see_eq_ok.mp met
    simp only [refuseIf_eq_ok, beq_eq_false_iff_ne] at userObj groupObj other valid
    simp only [refuseIf_eq_ok, decide_eq_false_iff_not] at userObj' groupObj' other' mask
    rw [defined] at users groups
    refine ⟨perms, by omega, by omega, by omega, by omega, users.1, groups.1,
      ⟨users.2, groups.2⟩, ?_⟩
    rintro ⟨entry, member, named⟩
    have any : (entries.any fun entry => (userId entry).isSome || (groupId entry).isSome) = true :=
      List.any_eq_true.mpr ⟨entry, member, (Bool.or_eq_true _ _).mpr named⟩
    rw [any, Bool.or_true, Bool.true_and, beq_eq_false_iff_ne] at valid
    omega
  · intro valid
    refine ⟨valid.perms, ?_⟩
    have met := (@foldlM_see_eq_ok entries ⟨false, [], []⟩ _).mpr
      ⟨(defined _).mpr ⟨valid.users, valid.defined.1⟩,
      (defined _).mpr ⟨valid.groups, valid.defined.2⟩, rfl⟩
    have once : decide (1 < countOf entries .mask) = false :=
      decide_eq_false (Nat.not_lt.mpr valid.mask)
    simp only [validate, valid.userObj, valid.groupObj, valid.other, once, met]
    show refuseIf _ _ = _
    rw [refuseIf_eq_ok, Bool.false_or, Bool.and_eq_false_iff]
    by_cases named : (∃ entry ∈ entries, (userId entry).isSome ∨ (groupId entry).isSome)
    · right
      rw [valid.masked named]
      rfl
    · left
      rw [List.any_eq_false]
      exact fun entry member holds => named ⟨entry, member, (Bool.or_eq_true _ _).mp holds⟩

/-- What makes a list does so in any order. -/
theorem Valid.perm {entries entries' : List AclEntry} (valid : Valid entries)
    (same : entries.Perm entries') : Valid entries' := by
  have counts : ∀ who, countOf entries' who = countOf entries who := fun _ =>
    (same.countP_eq _).symm
  have users := same.filterMap userId
  have groups := same.filterMap groupId
  refine {
    perms := fun entry member => valid.perms entry (same.mem_iff.mpr member)
    userObj := (counts _).trans valid.userObj
    groupObj := (counts _).trans valid.groupObj
    other := (counts _).trans valid.other
    mask := (counts _).trans_le valid.mask
    users := users.nodup_iff.mp valid.users
    groups := groups.nodup_iff.mp valid.groups
    defined := ⟨fun member => valid.defined.1 (users.mem_iff.mpr member),
      fun member => valid.defined.2 (groups.mem_iff.mpr member)⟩
    masked := ?_
  }
  rintro ⟨entry, member, named⟩
  exact (counts _).trans (valid.masked ⟨entry, same.mem_iff.mpr member, named⟩)

/-- No two entries of a list are for the same. -/
theorem Valid.countOf_le {entries : List AclEntry} (valid : Valid entries) (who : AclQualifier)
    : countOf entries who ≤ 1 := by
  cases who with
  | userObj => exact Nat.le_of_eq valid.userObj
  | groupObj => exact Nat.le_of_eq valid.groupObj
  | other => exact Nat.le_of_eq valid.other
  | mask => exact valid.mask
  | user id =>
      have once := List.nodup_iff_count_le_one.mp valid.users id
      rw [List.count_filterMap] at once
      refine Nat.le_trans (Nat.le_of_eq (List.countP_congr fun entry _ => ?_)) once
      obtain ⟨who, perm⟩ := entry
      cases who <;> simp [userId]
  | group id =>
      have once := List.nodup_iff_count_le_one.mp valid.groups id
      rw [List.count_filterMap] at once
      refine Nat.le_trans (Nat.le_of_eq (List.countP_congr fun entry _ => ?_)) once
      obtain ⟨who, perm⟩ := entry
      cases who <;> simp [groupId]

/-- A key says who an entry is for. -/
theorem sortKey_injective : Function.Injective sortKey := by
  intro who who' same
  cases who <;> cases who' <;>
    simp_all [sortKey, tagAndId, tagUserObj, tagUser, tagGroupObj, tagGroup, tagMask, tagOther,
      UInt32.toNat_inj]

/-- Two entries of a list that each precede the other are the same. -/
theorem Valid.eq_of_precedes {entries : List AclEntry} (valid : Valid entries) {a b : AclEntry}
    (first : a ∈ entries) (second : b ∈ entries) (before : Precedes a b) (behind : Precedes b a)
    : a = b := by
  have key : sortKey a.who = sortKey b.who := by
    unfold Precedes at before behind
    exact Prod.ext (by omega) (by omega)
  have who := sortKey_injective key
  by_contra differ
  have two : [a, b].Subperm entries :=
    List.subperm_of_subset (by simpa using differ) (by simp [first, second])
  have many := two.countP_le fun entry => entry.who == a.who
  have once := valid.countOf_le a.who
  rw [countOf] at once
  simp [who] at many once
  omega

instance : Std.Total Precedes where
  total a b := by
    unfold Precedes
    omega

instance : IsTrans AclEntry Precedes where
  trans a b c := by
    unfold Precedes
    omega

/-- A list has one canonical order. -/
theorem sort_eq_of_perm {entries entries' : List AclEntry} (valid : Valid entries)
    (same : entries.Perm entries')
    : entries.insertionSort Precedes = entries'.insertionSort Precedes := by
  have sorted := List.perm_insertionSort Precedes entries
  have sorted' := List.perm_insertionSort Precedes entries'
  refine List.Perm.eq_of_pairwise (fun a b first second => ?_)
    (List.pairwise_insertionSort Precedes entries) (List.pairwise_insertionSort Precedes entries')
    (sorted.trans (same.trans sorted'.symm))
  exact valid.eq_of_precedes (sorted.mem_iff.mp first)
    (same.mem_iff.mpr (sorted'.mem_iff.mp second))

/-- The list some entries make, in canonical order. -/
def new (entries : List AclEntry) : Except AclError Acl :=
  match perms : entries.forM checkPerm with
  | .error error => .error error
  | .ok () =>
      match rules : validate (entries.insertionSort Precedes) with
      | .error error => .error error
      | .ok () => .ok {
          entries := entries.insertionSort Precedes
          sorted := List.pairwise_insertionSort Precedes entries
          valid := checks_eq_ok_iff.mp ⟨fun entry member => forM_eq_ok.mp perms entry
            ((List.mem_insertionSort Precedes).mp member), rules⟩
        }

/-- Entries make a list exactly where they are valid, which is them in canonical order. -/
theorem new_eq_ok_iff {entries : List AclEntry} {acl : Acl}
    : new entries = .ok acl
      ↔ Valid entries ∧ acl.entries = entries.insertionSort Precedes := by
  have sorted := List.perm_insertionSort Precedes entries
  constructor
  · intro made
    unfold new at made
    split at made
    next => cases made
    next =>
      split at made
      next => cases made
      next rules =>
        cases made
        exact ⟨Valid.perm (checks_eq_ok_iff.mp ⟨fun entry member => forM_eq_ok.mp ‹_› entry
          (sorted.mem_iff.mp member), rules⟩) sorted, rfl⟩
  · rintro ⟨valid, same⟩
    have passed := checks_eq_ok_iff.mpr valid
    have passed' := checks_eq_ok_iff.mpr (valid.perm sorted.symm)
    unfold new
    split
    next error refused =>
      rw [forM_eq_ok.mpr passed.1] at refused
      cases refused
    next =>
      split
      next error refused =>
        rw [passed'.2] at refused
        cases refused
      next =>
        obtain ⟨entries', _, _⟩ := acl
        obtain rfl := same
        rfl

/-- A list is made of its own entries, in any order. -/
theorem new_of_perm (acl : Acl) {entries : List AclEntry} (same : acl.entries.Perm entries)
    : new entries = .ok acl := by
  refine new_eq_ok_iff.mpr ⟨acl.valid.perm same, ?_⟩
  rw [← sort_eq_of_perm acl.valid same, acl.sorted.insertionSort_eq]

/-- Entries in another order make the same list. -/
theorem new_perm {entries entries' : List AclEntry} {acl : Acl} (made : new entries = .ok acl)
    (same : entries.Perm entries') : new entries' = .ok acl := by
  obtain ⟨-, sorted⟩ := new_eq_ok_iff.mp made
  refine new_of_perm acl ?_
  rw [sorted]
  exact (List.perm_insertionSort Precedes entries).trans same

/-- An entry as a boundary carries it, with this id. -/
def entryBytes (entry : AclEntry) (id : UInt32) : Bytes :=
  toLeBytes16 (tagAndId entry.who).1 ++ toLeBytes16 entry.perm.toNat ++ toLeBytes32 id.toNat

/-- An entry as it is written at a boundary: where it names nobody it carries the undefined id. -/
def writeEntry (entry : AclEntry) : Bytes :=
  entryBytes entry ((tagAndId entry.who).2.getD undefinedId)

/-- A list as a boundary carries it. -/
def encode (acl : Acl) : Bytes := toLeBytes32 xattrVersion ++ acl.entries.flatMap writeEntry

/-- An entry as it is read at a boundary. -/
def readEntry (piece : Bytes) : Except AclError AclEntry := do
  let who ← okOr (fromTag (getU16 piece 0) (UInt32.ofNat (getU32 piece 4)))
    (.malformed "unknown tag")
  return ⟨who, UInt16.ofNat (getU16 piece 2)⟩

/-- The list a boundary's bytes hold. -/
def decode (bytes : Bytes) : Except AclError Acl := do
  refuseIf (bytes.length < 4) (.malformed "shorter than the version header")
  let body := bytes.drop 4
  refuseIf (getU32 (bytes.take 4) 0 != xattrVersion) (.malformed "unexpected version")
  refuseIf (body.length % xattrEntryLen != 0) (.malformed "truncated entry")
  let entries ← (Chunks.chunks xattrEntryLen body).mapM readEntry
  new entries

/-- Entries written one behind the other, each as `spell` allows. -/
inductive Spelled (spell : AclEntry → Bytes → Prop) : List AclEntry → Bytes → Prop
  | nil : Spelled spell [] []
  | cons {entry : AclEntry} {piece : Bytes} {entries : List AclEntry} {rest : Bytes}
      (first : spell entry piece) (others : Spelled spell entries rest)
      : Spelled spell (entry :: entries) (piece ++ rest)

/-- An entry of eight bytes: one that names somebody carries that id, any other whichever it has. -/
def Carried (entry : AclEntry) (piece : Bytes) : Prop :=
  ∃ id, (∀ own ∈ (tagAndId entry.who).2, id = own) ∧ piece = entryBytes entry id

/-- A word of two bytes is written as it was read. -/
theorem toLeBytes16_getU16 {buf : Bytes} {off : Nat} (inside : off + 2 ≤ buf.length)
    : toLeBytes16 (getU16 buf off) = slice buf off 2 := by
  obtain ⟨b₀, first⟩ : ∃ b, buf[off]? = some b := ⟨_, List.getElem?_eq_getElem (by omega)⟩
  obtain ⟨b₁, second⟩ : ∃ b, buf[off + 1]? = some b := ⟨_, List.getElem?_eq_getElem (by omega)⟩
  have low := b₀.toNat_lt
  have high := b₁.toNat_lt
  refine List.ext_getElem? fun i => ?_
  rw [getElem?_slice, toLeBytes16, getU16, getU8, getU8, first, second, Option.getD_some,
    Option.getD_some]
  rcases i with _ | _ | i
  · rw [if_pos (by decide), Nat.add_zero, first, List.getElem?_cons_zero, Option.some.injEq,
      ← UInt8.toNat_inj, UInt8.toNat_ofNat']
    omega
  · rw [if_pos (by decide), second, List.getElem?_cons_succ, List.getElem?_cons_zero,
      Option.some.injEq, ← UInt8.toNat_inj, UInt8.toNat_ofNat']
    omega
  · rw [if_neg (by omega)]
    rfl

theorem slice_add (buf : Bytes) (off m n : Nat)
    : slice buf off (m + n) = slice buf off m ++ slice buf (off + m) n := by
  rw [slice, List.take_add, List.drop_drop, slice, slice]

/-- A word of four bytes is written as it was read. -/
theorem toLeBytes32_getU32 {buf : Bytes} {off : Nat} (inside : off + 4 ≤ buf.length)
    : toLeBytes32 (getU32 buf off) = slice buf off 4 := by
  have low := getU16_lt buf off
  have cut : toLeBytes16 (getU32 buf off) = toLeBytes16 (getU16 buf off) := by
    simp only [toLeBytes16, getU32, List.cons.injEq, and_true, ← UInt8.toNat_inj,
      UInt8.toNat_ofNat']
    omega
  have high : getU32 buf off / 2 ^ 16 = getU16 buf (off + 2) := by
    rw [getU32]
    omega
  rw [toLeBytes32, cut, high, toLeBytes16_getU16 (by omega), toLeBytes16_getU16 (by omega),
    ← slice_add]

/-- A tag names who it and its id are of. -/
theorem fromTag_eq_some {tag : Nat} {id : UInt32} {who : AclQualifier}
    : fromTag tag id = some who
      ↔ (tagAndId who).1 = tag ∧ ∀ own ∈ (tagAndId who).2, id = own := by
  constructor
  · intro named
    unfold fromTag at named
    repeat' split at named
    all_goals
      cases named <;> subst_vars <;> simp [tagAndId]
  · rintro ⟨rfl, own⟩
    cases who with
    | user id' => rw [own id' rfl]; rfl
    | group id' => rw [own id' rfl]; rfl
    | userObj => rfl
    | groupObj => rfl
    | mask => rfl
    | other => rfl

theorem tag_lt (who : AclQualifier) : (tagAndId who).1 < 2 ^ 16 := by
  cases who <;> simp [tagAndId, tagUserObj, tagUser, tagGroupObj, tagGroup, tagMask, tagOther]

@[simp] theorem length_entryBytes (entry : AclEntry) (id : UInt32)
    : (entryBytes entry id).length = xattrEntryLen := rfl

/-- The fields of an entry's bytes. -/
theorem getU16_entryBytes_tag (entry : AclEntry) (id : UInt32)
    : getU16 (entryBytes entry id) 0 = (tagAndId entry.who).1 := by
  rw [entryBytes, List.append_assoc, getU16_toLeBytes16_append, Nat.mod_eq_of_lt (tag_lt _)]

theorem getU16_entryBytes_perm (entry : AclEntry) (id : UInt32)
    : getU16 (entryBytes entry id) 2 = entry.perm.toNat := by
  rw [entryBytes, List.append_assoc]
  exact (getU16_append_right (toLeBytes16 _) _ 0).trans
    ((getU16_toLeBytes16_append _ _).trans (Nat.mod_eq_of_lt entry.perm.toNat_lt))

theorem getU32_entryBytes (entry : AclEntry) (id : UInt32)
    : getU32 (entryBytes entry id) 4 = id.toNat :=
  (getU32_append_right (toLeBytes16 _ ++ toLeBytes16 _) _ 0).trans
    ((getU32_toLeBytes32 _).trans (Nat.mod_eq_of_lt id.toNat_lt))

/-- Eight bytes are an entry exactly where they carry it. -/
theorem readEntry_eq_ok {piece : Bytes} (sized : piece.length = xattrEntryLen) {entry : AclEntry}
    : readEntry piece = .ok entry ↔ Carried entry piece := by
  constructor
  · intro done
    obtain ⟨who, named, done⟩ := bind_eq_ok.mp done
    cases done
    obtain ⟨tag, own⟩ := fromTag_eq_some.mp (okOr_eq_ok.mp named)
    refine ⟨_, own, ?_⟩
    have perm : (UInt16.ofNat (getU16 piece 2)).toNat = getU16 piece 2 :=
      (UInt16.toNat_ofNat' ..).trans (Nat.mod_eq_of_lt (getU16_lt _ _))
    have id : (UInt32.ofNat (getU32 piece 4)).toNat = getU32 piece 4 :=
      (UInt32.toNat_ofNat' ..).trans (Nat.mod_eq_of_lt (getU32_lt _ _))
    rw [entryBytes, tag, perm, id]
    rw [toLeBytes16_getU16 (by rw [sized]; decide), toLeBytes16_getU16 (by rw [sized]; decide),
      toLeBytes32_getU32 (by rw [sized]; decide), ← slice_add, ← slice_add]
    exact (List.take_of_length_le (Nat.le_of_eq sized)).symm
  · rintro ⟨id, own, rfl⟩
    rw [readEntry, getU16_entryBytes_tag, getU32_entryBytes, getU16_entryBytes_perm,
      UInt32.ofNat_toNat, UInt16.ofNat_toNat, fromTag_eq_some.mpr ⟨rfl, own⟩]
    rfl

theorem Carried.length_eq {entry : AclEntry} {piece : Bytes} (carried : Carried entry piece)
    : piece.length = xattrEntryLen := by
  obtain ⟨id, -, rfl⟩ := carried
  rfl

/-- What is spelled as no entry or some is nothing, or an entry and what is behind it. -/
theorem Spelled.cases_body {spell : AclEntry → Bytes → Prop} {entries : List AclEntry}
    {body : Bytes} (spelled : Spelled spell entries body)
    : entries = [] ∧ body = [] ∨ ∃ entry rest piece others, entries = entry :: rest
      ∧ body = piece ++ others ∧ spell entry piece ∧ Spelled spell rest others := by
  cases spelled with
  | nil => exact .inl ⟨rfl, rfl⟩
  | cons first others => exact .inr ⟨_, _, _, _, rfl, rfl, first, others⟩

/-- A body of whole entries is read piece by piece, by induction on the pieces. -/
theorem mapM_readEntry_eq_ok {fuel : Nat} {body : Bytes} (enough : body.length ≤ fuel)
    {entries : List AclEntry}
    : body.length % xattrEntryLen = 0
        ∧ (Chunks.chunksFrom xattrEntryLen fuel body).mapM readEntry = .ok entries
      ↔ Spelled Carried entries body := by
  have nothing : ∀ {entries}, Spelled Carried entries [] → entries = [] := by
    intro entries spelled
    rcases spelled.cases_body with ⟨none_, -⟩ | ⟨_, _, piece, others, -, nil, carried, -⟩
    · exact none_
    · have long := carried.length_eq
      rw [(List.append_eq_nil_iff.mp nil.symm).1] at long
      cases long
  induction fuel generalizing body entries with
  | zero =>
      obtain rfl := List.eq_nil_of_length_eq_zero (Nat.le_zero.mp enough)
      constructor
      · rintro ⟨-, done⟩
        cases done
        exact .nil
      · intro spelled
        rw [nothing spelled]
        exact ⟨rfl, rfl⟩
  | succ fuel ih =>
      cases body with
      | nil =>
          constructor
          · rintro ⟨-, done⟩
            cases done
            exact .nil
          · intro spelled
            rw [nothing spelled]
            exact ⟨rfl, rfl⟩
      | cons byte bytes =>
          generalize whole : byte :: bytes = body at enough
          have some_ : 0 < body.length := by rw [← whole]; exact Nat.succ_pos _
          have cut : Chunks.chunksFrom xattrEntryLen (fuel + 1) body = body.take xattrEntryLen
              :: Chunks.chunksFrom xattrEntryLen fuel (body.drop xattrEntryLen) := by
            rw [← whole]
            rfl
          have eight : xattrEntryLen = 8 := rfl
          have left : (body.drop xattrEntryLen).length = body.length - 8 := List.length_drop
          have rest := @ih (body.drop xattrEntryLen) (by omega)
          rw [cut, List.mapM_cons]
          constructor
          · rintro ⟨sized, done⟩
            obtain ⟨entry, first, done⟩ := bind_eq_ok.mp done
            obtain ⟨others, later, done⟩ := bind_eq_ok.mp done
            cases done
            rw [eight] at sized
            have piece : (body.take xattrEntryLen).length = xattrEntryLen := by
              rw [List.length_take, eight]
              omega
            have multiple : (body.drop xattrEntryLen).length % xattrEntryLen = 0 := by
              rw [left, eight]
              omega
            rw [← List.take_append_drop xattrEntryLen body]
            exact .cons ((readEntry_eq_ok piece).mp first) (rest.mp ⟨multiple, later⟩)
          · intro spelled
            rcases spelled.cases_body with ⟨-, none_⟩ | ⟨entry, entries, piece, others, rfl, split,
              carried, spelled⟩
            · rw [none_] at some_
              exact absurd some_ (Nat.lt_irrefl 0)
            · have sized := carried.length_eq
              have first : body.take xattrEntryLen = piece := by
                rw [split, List.take_left' sized]
              have second : body.drop xattrEntryLen = others := by
                rw [split, List.drop_left' sized]
              have ⟨multiple, later⟩ := rest.mpr (second ▸ spelled)
              refine ⟨?_, ?_⟩
              · have long : 8 ≤ body.length := by
                  rw [split, List.length_append, sized]
                  exact Nat.le_add_right _ _
                rw [left, eight] at multiple
                rw [eight]
                omega
              · rw [first, (readEntry_eq_ok sized).mpr carried, ok_bind, later]
                rfl

/-- Bytes begin with a version exactly where it is read off them. -/
theorem headed_iff {bytes : Bytes} {version : Nat} (narrow : version < 2 ^ 32)
    : ¬ bytes.length < 4 ∧ getU32 (bytes.take 4) 0 = version
      ↔ bytes = toLeBytes32 version ++ bytes.drop 4 := by
  constructor
  · rintro ⟨long, rfl⟩
    have head : (bytes.take 4).length = 4 := by
      rw [List.length_take]
      omega
    rw [toLeBytes32_getU32 (Nat.le_of_eq head.symm), slice, List.drop_zero,
      List.take_of_length_le (Nat.le_of_eq head), List.take_append_drop]
  · intro split
    refine ⟨?_, ?_⟩
    · rw [split, List.length_append, length_toLeBytes32]
      omega
    · rw [split, List.take_left' (length_toLeBytes32 _), getU32_toLeBytes32,
        Nat.mod_eq_of_lt narrow]

/-- A version in front of a body is all that is in front of it. -/
theorem drop_headed (version : Nat) (body : Bytes) : (toLeBytes32 version ++ body).drop 4 = body :=
  List.drop_left' (length_toLeBytes32 _)

/-- A boundary's bytes are read exactly where they are the version and whole entries of known tags
that make a list.
-/
theorem decode_eq_ok_iff {bytes : Bytes} {acl : Acl}
    : decode bytes = .ok acl
      ↔ ∃ entries body, bytes = toLeBytes32 xattrVersion ++ body ∧ Spelled Carried entries body
        ∧ new entries = .ok acl := by
  constructor
  · intro done
    obtain ⟨_, long, done⟩ := bind_eq_ok.mp done
    obtain ⟨_, version, done⟩ := bind_eq_ok.mp done
    obtain ⟨_, whole, done⟩ := bind_eq_ok.mp done
    obtain ⟨entries, spelled, done⟩ := bind_eq_ok.mp done
    rw [refuseIf_eq_ok, decide_eq_false_iff_not] at long
    rw [refuseIf_eq_ok, bne_eq_false_iff_eq] at version whole
    exact ⟨entries, _, (headed_iff (by decide)).mp ⟨long, version⟩,
      (mapM_readEntry_eq_ok (Nat.le_refl _)).mp ⟨whole, spelled⟩, done⟩
  · rintro ⟨entries, body, rfl, spelled, made⟩
    have ⟨long, version⟩ := (headed_iff (show xattrVersion < 2 ^ 32 by decide)).mpr
      (congrArg _ (drop_headed _ body)).symm
    have ⟨whole, done⟩ := (mapM_readEntry_eq_ok (Nat.le_refl _)).mpr spelled
    simp only [decode, decide_eq_false long, version, drop_headed, whole, bne_self_eq_false]
    show (Chunks.chunks xattrEntryLen body).mapM readEntry >>= new = _
    rw [Chunks.chunks, done]
    exact made

/-- Entries written one behind the other are spelled so, by induction on them. -/
theorem spelled_flatMap {spell : AclEntry → Bytes → Prop} {write : AclEntry → Bytes}
    (each : ∀ entry, spell entry (write entry)) (entries : List AclEntry)
    : Spelled spell entries (entries.flatMap write) := by
  induction entries with
  | nil => exact .nil
  | cons entry rest ih => exact .cons (each entry) ih

/-- What is written carries its entry. -/
theorem carried_writeEntry (entry : AclEntry) : Carried entry (writeEntry entry) :=
  ⟨_, fun own named => by rw [Option.mem_def.mp named]; rfl, rfl⟩

end Acl

end Ferrosys
