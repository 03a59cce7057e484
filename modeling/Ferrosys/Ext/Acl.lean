import Ferrosys.Acl
import Ferrosys.Ext.Xattr

/-! The form ext stores an access control list in: a version of its own, and an id on the entries
alone that name somebody. A set of attributes is narrowed to it on the way in and widened to the
form a boundary speaks on the way out.
-/

namespace Ferrosys.Ext

open Checked Acl

/-- The version of the stored form. -/
def aclVersion : Nat := 1

/-- An entry as it is stored. -/
def storedEntry (entry : AclEntry) : Bytes :=
  toLeBytes16 (tagAndId entry.who).1 ++ toLeBytes16 entry.perm.toNat
    ++ ((tagAndId entry.who).2.elim [] fun id => toLeBytes32 id.toNat)

/-- A list as ext stores it. -/
def encodeAcl (acl : Acl) : Bytes := toLeBytes32 aclVersion ++ acl.entries.flatMap storedEntry

/-- The id behind a tag, where the tag stores one. -/
def takeId (tag : Nat) (rest : Bytes) : Except AclError (UInt32 × Bytes) :=
  if tag = tagUser ∨ tag = tagGroup then
    if rest.length < 4 then .error (.malformed "truncated entry id")
    else .ok (UInt32.ofNat (getU32 rest 0), rest.drop 4)
  else .ok (0, rest)

/-- The first of some stored entries, and what is behind it. -/
def takeEntry (rest : Bytes) : Except AclError (AclEntry × Bytes) := do
  refuseIf (rest.length < 4) (.malformed "truncated entry")
  let tag := getU16 rest 0
  let perm := UInt16.ofNat (getU16 rest 2)
  let taken ← takeId tag (rest.drop 4)
  let who ← okOr (fromTag tag taken.1) (.malformed "unknown tag")
  return (⟨who, perm⟩, taken.2)

/-- The entries that are stored. `turns` is as many as the bytes left, and every entry takes more
than one.
-/
def takeEntries : (turns : Nat) → Bytes → Except AclError (List AclEntry)
  | 0, _ => .ok []
  | turns + 1, rest =>
      if rest.isEmpty then .ok []
      else do
        let taken ← takeEntry rest
        let more ← takeEntries turns taken.2
        return taken.1 :: more

/-- The list stored bytes hold. -/
def decodeAcl (bytes : Bytes) : Except AclError Acl := do
  refuseIf (bytes.length < 4) (.malformed "shorter than the version header")
  refuseIf (getU32 (bytes.take 4) 0 != aclVersion) (.malformed "unexpected version")
  let rest := bytes.drop 4
  let entries ← takeEntries rest.length rest
  Acl.new entries

/-- Why a set of attributes is refused over a list it holds. -/
inductive AclRefused where
  | acl (path : Bytes) (source : AclError)
  | malformedAcl (name : Bytes) (source : AclError)
deriving DecidableEq

def accessName : Bytes := "system.posix_acl_access".toUTF8.toList
def defaultName : Bytes := "system.posix_acl_default".toUTF8.toList

/-- An attribute that holds a list. -/
def isAcl (x : Xattr) : Bool := x.name == accessName || x.name == defaultName

/-- An attribute as ext stores it. -/
def storedXattr (path : Bytes) (x : Xattr) : Except AclRefused Xattr :=
  if isAcl x then do
    let acl ← (Acl.decode x.value).mapError (.acl path)
    return { x with value := encodeAcl acl }
  else .ok x

/-- The attributes of an entry as ext stores them. -/
def storedXattrs (path : Bytes) (xattrs : List Xattr) : Except AclRefused (List Xattr) :=
  xattrs.mapM (storedXattr path)

/-- A stored attribute as a boundary speaks it. -/
def spokenXattr (x : Xattr) : Except AclRefused Xattr :=
  if isAcl x then do
    let acl ← (decodeAcl x.value).mapError (.malformedAcl x.name)
    return { x with value := acl.encode }
  else .ok x

/-- The attributes a read hands out. -/
def spokenXattrs (xattrs : List Xattr) : Except AclRefused (List Xattr) := xattrs.mapM spokenXattr

/-- An entry in its stored form. -/
def Stored (entry : AclEntry) (piece : Bytes) : Prop := piece = storedEntry entry

/-- The tags that store an id are the ones that name somebody. -/
theorem isSome_id_iff (who : AclQualifier)
    : (tagAndId who).2.isSome ↔ (tagAndId who).1 = tagUser ∨ (tagAndId who).1 = tagGroup := by
  cases who <;> simp [tagAndId, tagUserObj, tagUser, tagGroupObj, tagGroup, tagMask, tagOther]

/-- The tag and the permissions of an entry are written as they were read. -/
theorem fields_of_length {rest : Bytes} (long : 4 ≤ rest.length)
    : toLeBytes16 (getU16 rest 0) ++ toLeBytes16 (UInt16.ofNat (getU16 rest 2)).toNat
      = rest.take 4 := by
  have perm : (UInt16.ofNat (getU16 rest 2)).toNat = getU16 rest 2 :=
    (UInt16.toNat_ofNat' ..).trans (Nat.mod_eq_of_lt (getU16_lt _ _))
  rw [perm, toLeBytes16_getU16 (by omega), toLeBytes16_getU16 (by omega), ← slice_add]
  rfl

/-- An id is taken where its qualifier stores one, as it is stored. -/
theorem takeId_eq_ok {who : AclQualifier} {rest rest' : Bytes} {id : UInt32}
    : takeId (tagAndId who).1 rest = .ok (id, rest') ∧ (∀ own ∈ (tagAndId who).2, id = own)
      ↔ rest = ((tagAndId who).2.elim [] fun id => toLeBytes32 id.toNat) ++ rest'
        ∧ id = (tagAndId who).2.getD 0 := by
  cases own : (tagAndId who).2 with
  | none =>
      have bare : ¬ ((tagAndId who).1 = tagUser ∨ (tagAndId who).1 = tagGroup) := by
        rw [← isSome_id_iff, own]
        exact Bool.false_ne_true
      rw [takeId, if_neg bare]
      constructor
      · rintro ⟨done, -⟩
        cases done
        exact ⟨rfl, rfl⟩
      · rintro ⟨rfl, rfl⟩
        exact ⟨rfl, fun _ none_ => absurd none_ (Option.not_mem_none _)⟩
  | some found =>
      have some_ : (tagAndId who).1 = tagUser ∨ (tagAndId who).1 = tagGroup := by
        rw [← isSome_id_iff, own]
        rfl
      rw [takeId, if_pos some_]
      constructor
      · rintro ⟨done, named⟩
        split at done
        next => cases done
        next long =>
          obtain ⟨read, behind⟩ := Prod.mk.inj (Except.ok.inj done)
          obtain rfl := named found rfl
          have id : (UInt32.ofNat (getU32 rest 0)).toNat = getU32 rest 0 :=
            (UInt32.toNat_ofNat' ..).trans (Nat.mod_eq_of_lt (getU32_lt _ _))
          refine ⟨?_, rfl⟩
          rw [Option.elim_some, ← read, id, toLeBytes32_getU32 (by omega), ← behind]
          exact (List.take_append_drop 4 rest).symm
      · rintro ⟨rfl, rfl⟩
        rw [Option.elim_some, getU32_toLeBytes32_append, Nat.mod_eq_of_lt id.toNat_lt,
          UInt32.ofNat_toNat,
          List.drop_left' (length_toLeBytes32 _), List.length_append, length_toLeBytes32,
          if_neg (by omega)]
        exact ⟨rfl, fun own same => Option.some.inj (Option.mem_def.mp same)⟩

/-- An entry is taken off what begins with its stored form. -/
theorem takeEntry_eq_ok {rest rest' : Bytes} {entry : AclEntry}
    : takeEntry rest = .ok (entry, rest') ↔ rest = storedEntry entry ++ rest' := by
  constructor
  · intro done
    obtain ⟨_, long, done⟩ := bind_eq_ok.mp done
    obtain ⟨taken, took, done⟩ := bind_eq_ok.mp done
    obtain ⟨who, named, done⟩ := bind_eq_ok.mp done
    cases done
    rw [refuseIf_eq_ok, decide_eq_false_iff_not, Nat.not_lt] at long
    obtain ⟨tag, own⟩ := fromTag_eq_some.mp (okOr_eq_ok.mp named)
    rw [← tag] at took
    have ⟨behind, _⟩ := takeId_eq_ok.mp ⟨took, own⟩
    rw [storedEntry, tag, fields_of_length long, List.append_assoc, ← behind,
      List.take_append_drop]
  · rintro rfl
    obtain ⟨who, perm⟩ := entry
    let id : Bytes := (tagAndId who).2.elim [] fun id => toLeBytes32 id.toNat
    have split : storedEntry ⟨who, perm⟩ ++ rest'
        = toLeBytes16 (tagAndId who).1 ++ (toLeBytes16 perm.toNat ++ (id ++ rest')) := by
      simp only [storedEntry, List.append_assoc, id]
    have tag : getU16 (storedEntry ⟨who, perm⟩ ++ rest') 0 = (tagAndId who).1 := by
      rw [split, getU16_toLeBytes16_append, Nat.mod_eq_of_lt (tag_lt _)]
    have perms : getU16 (storedEntry ⟨who, perm⟩ ++ rest') 2 = perm.toNat := by
      rw [split]
      exact (getU16_append_right (toLeBytes16 _) _ 0).trans
        ((getU16_toLeBytes16_append _ _).trans (Nat.mod_eq_of_lt perm.toNat_lt))
    have behind : (storedEntry ⟨who, perm⟩ ++ rest').drop 4 = id ++ rest' := by
      rw [split]
      rfl
    have long : ¬ (storedEntry ⟨who, perm⟩ ++ rest').length < 4 := by
      rw [split]
      simp only [List.length_append, length_toLeBytes16]
      omega
    have ⟨took, own⟩ := (@takeId_eq_ok who (id ++ rest') rest' _).mpr ⟨rfl, rfl⟩
    simp only [takeEntry, decide_eq_false long, tag, perms, behind, took, UInt16.ofNat_toNat]
    show okOr _ _ >>= _ = _
    rw [fromTag_eq_some.mpr ⟨rfl, own⟩]
    rfl

theorem storedEntry_ne_nil (entry : AclEntry) : 0 < (storedEntry entry).length := by
  simp only [storedEntry, List.length_append, length_toLeBytes16]
  omega

/-- Nothing spells no entry alone. -/
theorem spelled_nil_iff {entries : List AclEntry} : Spelled Stored entries [] ↔ entries = [] := by
  constructor
  · intro spelled
    rcases spelled.cases_body with ⟨none_, -⟩ | ⟨entry, _, piece, others, -, nil, rfl, -⟩
    · exact none_
    · have long := storedEntry_ne_nil entry
      rw [(List.append_eq_nil_iff.mp nil.symm).1] at long
      exact absurd long (Nat.lt_irrefl 0)
  · rintro rfl
    exact .nil

/-- A body is read entry by entry to its end, by induction on the turns it is given. -/
theorem takeEntries_eq_ok {turns : Nat} {body : Bytes} (enough : body.length ≤ turns)
    {entries : List AclEntry}
    : takeEntries turns body = .ok entries ↔ Spelled Stored entries body := by
  induction turns generalizing body entries with
  | zero =>
      obtain rfl := List.eq_nil_of_length_eq_zero (Nat.le_zero.mp enough)
      rw [spelled_nil_iff, takeEntries, Except.ok.injEq, eq_comm]
  | succ turns ih =>
      rw [takeEntries]
      split
      next empty =>
        rw [List.isEmpty_iff.mp empty, spelled_nil_iff, Except.ok.injEq, eq_comm]
      next some_ =>
        constructor
        · intro done
          obtain ⟨⟨entry, rest⟩, first, done⟩ := bind_eq_ok.mp done
          obtain ⟨more, later, done⟩ := bind_eq_ok.mp done
          cases done
          obtain rfl := takeEntry_eq_ok.mp first
          have long := storedEntry_ne_nil entry
          rw [List.length_append] at enough
          exact .cons rfl ((ih (by omega)).mp later)
        · intro spelled
          rcases spelled.cases_body with ⟨-, none_⟩ | ⟨entry, more, piece, rest, rfl, rfl, rfl,
            later⟩
          · exact absurd (List.isEmpty_iff.mpr none_) some_
          · have long := storedEntry_ne_nil entry
            rw [List.length_append] at enough
            have taken := (@ih rest (by omega) more).mpr later
            rw [takeEntry_eq_ok.mpr rfl, ok_bind, taken]
            rfl

/-- Stored bytes are read exactly where they are the version and whole entries of known tags that
make a list.
-/
theorem decodeAcl_eq_ok_iff {bytes : Bytes} {acl : Acl}
    : decodeAcl bytes = .ok acl
      ↔ ∃ entries body, bytes = toLeBytes32 aclVersion ++ body ∧ Spelled Stored entries body
        ∧ Acl.new entries = .ok acl := by
  constructor
  · intro done
    obtain ⟨_, long, done⟩ := bind_eq_ok.mp done
    obtain ⟨_, version, done⟩ := bind_eq_ok.mp done
    obtain ⟨entries, spelled, done⟩ := bind_eq_ok.mp done
    rw [refuseIf_eq_ok, decide_eq_false_iff_not] at long
    rw [refuseIf_eq_ok, bne_eq_false_iff_eq] at version
    exact ⟨entries, _, (headed_iff (by decide)).mp ⟨long, version⟩,
      (takeEntries_eq_ok (Nat.le_refl _)).mp spelled, done⟩
  · rintro ⟨entries, body, rfl, spelled, made⟩
    have ⟨long, version⟩ := (headed_iff (show aclVersion < 2 ^ 32 by decide)).mpr
      (congrArg _ (drop_headed _ body)).symm
    simp only [decodeAcl, decide_eq_false long, version, drop_headed, bne_self_eq_false,
      (takeEntries_eq_ok (Nat.le_refl _)).mpr spelled]
    exact made

theorem spelled_storedEntry (entries : List AclEntry)
    : Spelled Stored entries (entries.flatMap storedEntry) :=
  @spelled_flatMap Stored storedEntry (fun _ => rfl) entries

theorem decodeAcl_encodeAcl (acl : Acl) : decodeAcl (encodeAcl acl) = .ok acl :=
  decodeAcl_eq_ok_iff.mpr
    ⟨_, _, rfl, spelled_storedEntry acl.entries, new_of_perm acl (List.Perm.refl _)⟩

theorem decode_encode (acl : Acl) : Acl.decode acl.encode = .ok acl :=
  decode_eq_ok_iff.mpr ⟨_, _, rfl, spelled_flatMap carried_writeEntry acl.entries,
    new_of_perm acl (List.Perm.refl _)⟩

/-- An attribute as it comes back from ext: one that holds a list holds its canonical encoding, any
other is as it was.
-/
def Canonical (x spoken : Xattr) : Prop :=
  if isAcl x then ∃ acl, Acl.decode x.value = .ok acl ∧ spoken = { x with value := acl.encode }
  else spoken = x

/-- An attribute that was narrowed is widened to its canonical form. -/
theorem spokenXattr_of_stored {path : Bytes} {x stored : Xattr}
    (narrowed : storedXattr path x = .ok stored)
    : ∃ spoken, spokenXattr stored = .ok spoken ∧ Canonical x spoken := by
  unfold storedXattr at narrowed
  split at narrowed
  next holds =>
    obtain ⟨acl, decoded, narrowed⟩ := bind_eq_ok.mp narrowed
    cases narrowed
    refine ⟨{ x with value := acl.encode }, ?_, ?_⟩
    · have kept : isAcl { x with value := encodeAcl acl } = true := holds
      rw [spokenXattr, if_pos kept, decodeAcl_encodeAcl]
      rfl
    · rw [Canonical, if_pos holds]
      exact ⟨acl, mapError_eq_ok.mp decoded, rfl⟩
  next bare =>
    cases narrowed
    refine ⟨x, if_neg bare, ?_⟩
    rw [Canonical, if_neg bare]

/-- Attributes that were narrowed are widened to their canonical forms, by induction on them. -/
theorem spokenXattrs_of_stored {path : Bytes} {xattrs stored : List Xattr}
    (narrowed : storedXattrs path xattrs = .ok stored)
    : ∃ spoken, spokenXattrs stored = .ok spoken ∧ List.Forall₂ Canonical xattrs spoken := by
  unfold storedXattrs spokenXattrs at *
  induction xattrs generalizing stored with
  | nil =>
      cases narrowed
      exact ⟨[], rfl, .nil⟩
  | cons x rest ih =>
      rw [List.mapM_cons] at narrowed
      obtain ⟨y, first, narrowed⟩ := bind_eq_ok.mp narrowed
      obtain ⟨ys, later, narrowed⟩ := bind_eq_ok.mp narrowed
      cases narrowed
      obtain ⟨z, spoke, canonical⟩ := spokenXattr_of_stored first
      obtain ⟨zs, spoken, all⟩ := ih later
      exact ⟨z :: zs, by rw [List.mapM_cons, spoke, ok_bind, spoken]; rfl, .cons canonical all⟩

/-- The codecs of access control lists agree: what makes a list, that it is read back from the form
a boundary speaks and from the one ext stores, that the order of entries is of no account in
any of them, that narrowing and widening a set of attributes leaves each list canonical, and which
bytes each decoder reads.
-/
theorem acl_codecs_agree
    : (∀ entries, (∃ acl, Acl.new entries = .ok acl) ↔ Valid entries)
      ∧ (∀ acl : Acl, Acl.decode acl.encode = .ok acl ∧ decodeAcl (encodeAcl acl) = .ok acl)
      ∧ (∀ (entries entries' : List AclEntry) (acl : Acl), entries.Perm entries' →
        Acl.new entries = .ok acl →
          Acl.new entries' = .ok acl
          ∧ (∀ body, Spelled Carried entries' body →
            Acl.decode (toLeBytes32 xattrVersion ++ body) = .ok acl)
          ∧ ∀ body, Spelled Stored entries' body →
            decodeAcl (toLeBytes32 aclVersion ++ body) = .ok acl)
      ∧ (∀ path xattrs stored, storedXattrs path xattrs = .ok stored →
        ∃ spoken, spokenXattrs stored = .ok spoken ∧ List.Forall₂ Canonical xattrs spoken)
      ∧ (∀ bytes acl, Acl.decode bytes = .ok acl
        ↔ ∃ entries body, bytes = toLeBytes32 xattrVersion ++ body ∧ Spelled Carried entries body
          ∧ Acl.new entries = .ok acl)
      ∧ ∀ bytes acl, decodeAcl bytes = .ok acl
        ↔ ∃ entries body, bytes = toLeBytes32 aclVersion ++ body ∧ Spelled Stored entries body
          ∧ Acl.new entries = .ok acl := by
  refine ⟨fun entries => ?_, fun acl => ⟨decode_encode acl, decodeAcl_encodeAcl acl⟩,
    fun entries entries' acl same made => ?_, fun _ _ _ => spokenXattrs_of_stored,
    fun _ _ => decode_eq_ok_iff, fun _ _ => decodeAcl_eq_ok_iff⟩
  · constructor
    · rintro ⟨acl, made⟩
      exact (new_eq_ok_iff.mp made).1
    · intro valid
      have sorted := List.perm_insertionSort Precedes entries
      exact ⟨⟨_, List.pairwise_insertionSort Precedes entries, valid.perm sorted.symm⟩,
        new_eq_ok_iff.mpr ⟨valid, rfl⟩⟩
  · have made' := new_perm made same
    exact ⟨made', fun body spelled => decode_eq_ok_iff.mpr ⟨_, body, rfl, spelled, made'⟩,
      fun body spelled => decodeAcl_eq_ok_iff.mpr ⟨_, body, rfl, spelled, made'⟩⟩

end Ferrosys.Ext
