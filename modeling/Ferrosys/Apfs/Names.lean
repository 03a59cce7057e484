import Ferrosys.Crc32c
import Ferrosys.Library.CanonicalOrder
import Ferrosys.Library.Utf
import Mathlib.Logic.Relation

/-! The form a volume compares names in and the hash it files one under: the canonical decomposition
of the name, with its case folded and decomposed again where the volume folds it.
-/

namespace Ferrosys.Apfs.Names

def hashMask : Nat := 0x3FFFFF

/-- The first Hangul syllable, and the arithmetic one is decomposed by. -/
def sBase : Nat := 0xAC00
def lBase : Nat := 0x1100
def vBase : Nat := 0x1161
def tBase : Nat := 0x11A7
def vCount : Nat := 21
def tCount : Nat := 28
def nCount : Nat := vCount * tCount
def sCount : Nat := 19 * nCount

def IsSyllable (cp : Nat) : Prop := sBase ≤ cp ∧ cp < sBase + sCount

instance (cp : Nat) : Decidable (IsSyllable cp) := inferInstanceAs (Decidable (_ ∧ _))

/-- What a syllable is decomposed into is: a leading consonant, a vowel or a trailing consonant. -/
def IsJamo (cp : Nat) : Prop :=
  (lBase ≤ cp ∧ cp < lBase + 19) ∨ (vBase ≤ cp ∧ cp < vBase + vCount)
    ∨ (tBase < cp ∧ cp < tBase + tCount)

instance (cp : Nat) : Decidable (IsJamo cp) := inferInstanceAs (Decidable (_ ∨ _ ∨ _))

/-- What a Hangul syllable decomposes into. -/
def syllable (cp : Nat) : List Nat :=
  let s := cp - sBase
  [lBase + s / nCount, vBase + (s % nCount) / tCount]
    ++ if s % tCount = 0 then [] else [tBase + s % tCount]

/-- Tables that say of a code point what it decomposes into, what its case folds to and its
combining class, each in the order of the code points, so that a search by halves finds what is
said: one decomposition and folding at most takes each as far as it goes, and a mark's keeps its
class.
-/
structure Unicode where
  decomposition : List (Nat × List Nat)
  caseFolding : List (Nat × List Nat)
  combiningClass : List (Nat × Nat)
  decomposition_sorted : (decomposition.map Prod.fst).IsChain (· < ·)
  caseFolding_sorted : (caseFolding.map Prod.fst).IsChain (· < ·)
  combiningClass_sorted : (combiningClass.map Prod.fst).IsChain (· < ·)
  settled : ∀ e ∈ decomposition, ∀ cp ∈ e.2, decomposition.lookup cp = none ∧ ¬IsSyllable cp
  jamo : ∀ e ∈ decomposition, ¬IsJamo e.1
  starters : ∀ e ∈ combiningClass, ¬IsSyllable e.1
  marks : ∀ e ∈ decomposition, combiningClass.lookup e.1 ≠ none →
    ∀ cp ∈ e.2, combiningClass.lookup cp = combiningClass.lookup e.1
  folded : ∀ e ∈ caseFolding, ∀ cp ∈ e.2, ¬IsSyllable cp
    ∧ ∀ d ∈ (decomposition.lookup cp).getD [cp], caseFolding.lookup d = none
  scalar : ∀ e ∈ decomposition ++ caseFolding, ∀ cp ∈ e.2, cp.isValidChar

/-- What a table says of a code point is one of its entries. -/
theorem mem_of_lookup {β : Type} {table : List (Nat × β)} {cp : Nat} {said : β}
    (found : table.lookup cp = some said) : (cp, said) ∈ table := by
  obtain ⟨before, behind, rfl, -⟩ := List.lookup_eq_some_iff.mp found
  exact List.mem_append_right _ List.mem_cons_self

variable (unicode : Unicode)

/-- A code point's canonical combining class. -/
def classOf (cp : Nat) : Nat := (unicode.combiningClass.lookup cp).getD 0

/-- What a code point decomposes into. -/
def expand (cp : Nat) : List Nat :=
  if IsSyllable cp then syllable cp else (unicode.decomposition.lookup cp).getD [cp]

/-- The canonical decomposition of code points, canonically ordered. -/
def decompose (codePoints : List Nat) : List Nat :=
  CanonicalOrder.reorder (classOf unicode) (codePoints.flatMap (expand unicode))

/-- What a code point's case folds to. -/
def foldCase (cp : Nat) : List Nat := (unicode.caseFolding.lookup cp).getD [cp]

/-- The form code points are compared in. -/
def form (codePoints : List Nat) (fold : Bool) : List Nat :=
  let decomposed := decompose unicode codePoints
  if !fold then decomposed else decompose unicode (decomposed.flatMap (foldCase unicode))

/-- The form a name is compared and hashed as, where it is text. -/
def key (name : Bytes) (fold : Bool) : Option (List Nat) :=
  (Utf.decode name).map fun text => form unicode (text.map Char.toNat) fold

/-- The hash a directory entry for a name of this form is stored by. -/
def hash (form : List Nat) : Nat := crc32c (2 ^ 32 - 1) (form.flatMap toLeBytes32) &&& hashMask

end Ferrosys.Apfs.Names

/-! A name is compared in a form that is its own form, that is in canonical order and that is kept
by what makes two strings the same text: exchanging marks of different classes and replacing a
character by what it decomposes into.
-/

namespace Ferrosys.Apfs.Names

variable {unicode : Unicode}

/-- The syllables and the jamo, and what the one decomposes into of the other, as numbers. -/
theorem isSyllable_iff {cp : Nat} : IsSyllable cp ↔ 0xAC00 ≤ cp ∧ cp < 0xD7A4 := Iff.rfl

theorem isJamo_iff {cp : Nat}
    : IsJamo cp ↔ (0x1100 ≤ cp ∧ cp < 0x1113) ∨ (0x1161 ≤ cp ∧ cp < 0x1176)
      ∨ (0x11A7 < cp ∧ cp < 0x11C3) := Iff.rfl

theorem mem_syllable {c cp : Nat}
    : cp ∈ syllable c ↔ cp = 0x1100 + (c - 0xAC00) / 588
      ∨ cp = 0x1161 + (c - 0xAC00) % 588 / 28
      ∨ ((c - 0xAC00) % 28 ≠ 0 ∧ cp = 0x11A7 + (c - 0xAC00) % 28) := by
  change cp ∈ [0x1100 + (c - 0xAC00) / 588, 0x1161 + (c - 0xAC00) % 588 / 28]
    ++ (if (c - 0xAC00) % 28 = 0 then [] else [0x11A7 + (c - 0xAC00) % 28]) ↔ _
  rw [List.mem_append, List.mem_cons, List.mem_singleton, or_assoc]
  split
  next whole => simp [whole]
  next more => simp [more]

theorem isJamo_of_mem_syllable {c cp : Nat} (isSyllable : IsSyllable c)
    (member : cp ∈ syllable c) : IsJamo cp := by
  rw [isSyllable_iff] at isSyllable
  rw [mem_syllable] at member
  rw [isJamo_iff]
  omega

theorem IsJamo.not_isSyllable {cp : Nat} (isJamo : IsJamo cp) : ¬IsSyllable cp := by
  rw [isJamo_iff] at isJamo
  rw [isSyllable_iff]
  omega

theorem IsJamo.isValidChar {cp : Nat} (isJamo : IsJamo cp) : cp.isValidChar := by
  rw [isJamo_iff] at isJamo
  exact .inl (by omega)

theorem expand_of_lookup {cp : Nat} (plain : ¬IsSyllable cp)
    (none_ : unicode.decomposition.lookup cp = none) : expand unicode cp = [cp] := by
  rw [expand, if_neg plain, none_, Option.getD_none]

/-- What a character that is not a syllable decomposes into is what the table says, or itself. -/
theorem mem_expand {c cp : Nat} (member : cp ∈ expand unicode c)
    : (IsSyllable c ∧ IsJamo cp)
      ∨ (∃ mapping, (c, mapping) ∈ unicode.decomposition ∧ cp ∈ mapping)
      ∨ (cp = c ∧ expand unicode c = [c]) := by
  have member' := member
  rw [expand] at member'
  split at member'
  next isSyllable => exact .inl ⟨isSyllable, isJamo_of_mem_syllable isSyllable member'⟩
  next plain =>
    cases found : unicode.decomposition.lookup c with
    | none =>
        rw [found, Option.getD_none] at member'
        exact .inr (.inr ⟨List.mem_singleton.mp member', expand_of_lookup plain found⟩)
    | some mapping =>
        rw [found, Option.getD_some] at member'
        exact .inr (.inl ⟨mapping, mem_of_lookup found, member'⟩)

/-- What something decomposes into decomposes no further. -/
theorem expand_of_mem_expand {c cp : Nat} (member : cp ∈ expand unicode c)
    : expand unicode cp = [cp] := by
  rcases mem_expand member with ⟨-, isJamo⟩ | ⟨mapping, listed, inside⟩ | ⟨rfl, itself⟩
  · refine expand_of_lookup isJamo.not_isSyllable ?_
    cases found : unicode.decomposition.lookup cp with
    | none => rfl
    | some mapping => exact absurd isJamo (unicode.jamo _ (mem_of_lookup found))
  · have settled := unicode.settled _ listed cp inside
    exact expand_of_lookup settled.2 settled.1
  · exact itself

/-- What a mark decomposes into has its class. -/
theorem classOf_of_mem_expand {c cp : Nat} (member : cp ∈ expand unicode c)
    (isMark : classOf unicode c ≠ 0) : classOf unicode cp = classOf unicode c := by
  have listed : unicode.combiningClass.lookup c ≠ none := by
    intro none_
    exact isMark (by rw [classOf, none_, Option.getD_none])
  rcases mem_expand member with ⟨isSyllable, -⟩ | ⟨mapping, mapped, inside⟩ | ⟨rfl, -⟩
  · obtain ⟨combining, found⟩ := Option.ne_none_iff_exists'.mp listed
    exact absurd isSyllable (unicode.starters _ (mem_of_lookup found))
  · rw [classOf, unicode.marks _ mapped listed cp inside, classOf]
  · rfl

theorem isValidChar_of_mem_expand {c cp : Nat} (member : cp ∈ expand unicode c)
    (valid : c.isValidChar) : cp.isValidChar := by
  rcases mem_expand member with ⟨-, isJamo⟩ | ⟨mapping, mapped, inside⟩ | ⟨rfl, -⟩
  · exact isJamo.isValidChar
  · exact unicode.scalar _ (List.mem_append_left _ mapped) cp inside
  · exact valid

/-- What a character's case folds to is what the table says, or itself. -/
theorem mem_foldCase {c cp : Nat} (member : cp ∈ foldCase unicode c)
    : (∃ mapping, (c, mapping) ∈ unicode.caseFolding ∧ cp ∈ mapping)
      ∨ (cp = c ∧ foldCase unicode c = [c]) := by
  have member' := member
  rw [foldCase] at member'
  cases found : unicode.caseFolding.lookup c with
  | none =>
      rw [found, Option.getD_none] at member'
      exact .inr ⟨List.mem_singleton.mp member', by rw [foldCase, found, Option.getD_none]⟩
  | some mapping =>
      rw [found, Option.getD_some] at member'
      exact .inl ⟨mapping, mem_of_lookup found, member'⟩

/-- Code points each of which stands for itself stay as they are. -/
theorem flatMap_eq_self {replace : Nat → List Nat} {cps : List Nat}
    (stands : ∀ cp ∈ cps, replace cp = [cp]) : cps.flatMap replace = cps := by
  induction cps with
  | nil => rfl
  | cons cp rest ih =>
      rw [List.flatMap_cons, stands cp List.mem_cons_self,
        ih fun other later => stands other (List.mem_cons_of_mem _ later), List.singleton_append]

theorem mem_decompose {cps : List Nat} {cp : Nat}
    : cp ∈ decompose unicode cps ↔ ∃ c ∈ cps, cp ∈ expand unicode c := by
  rw [decompose, CanonicalOrder.mem_reorder, List.mem_flatMap]

theorem decompose_ordered (cps : List Nat)
    : CanonicalOrder.Ordered (classOf unicode) (decompose unicode cps) :=
  CanonicalOrder.reorder_ordered _

/-- A decomposition is its own. -/
theorem decompose_decompose (cps : List Nat)
    : decompose unicode (decompose unicode cps) = decompose unicode cps := by
  have stands : (decompose unicode cps).flatMap (expand unicode) = decompose unicode cps := by
    refine flatMap_eq_self fun cp member => ?_
    obtain ⟨c, -, inside⟩ := mem_decompose.mp member
    exact expand_of_mem_expand inside
  conv_lhs => rw [decompose, stands]
  exact (decompose_ordered cps).reorder_eq_self

/-- Folded once and decomposed, nothing folds any further. -/
theorem foldCase_of_mem {cps : List Nat} {cp : Nat}
    (member : cp ∈ decompose unicode ((decompose unicode cps).flatMap (foldCase unicode)))
    : foldCase unicode cp = [cp] := by
  obtain ⟨c, folded, inside⟩ := mem_decompose.mp member
  obtain ⟨d, decomposed, from_⟩ := List.mem_flatMap.mp folded
  rcases mem_foldCase from_ with ⟨mapping, listed, mapped⟩ | ⟨rfl, itself⟩
  · obtain ⟨plain, none_⟩ := unicode.folded _ listed c mapped
    rw [expand, if_neg plain] at inside
    rw [foldCase, none_ cp inside, Option.getD_none]
  · obtain ⟨e, -, within⟩ := mem_decompose.mp decomposed
    rw [expand_of_mem_expand within] at inside
    rw [List.mem_singleton.mp inside, itself]

theorem form_ordered (cps : List Nat) (fold : Bool)
    : CanonicalOrder.Ordered (classOf unicode) (form unicode cps fold) := by
  cases fold with
  | false => exact decompose_ordered cps
  | true => exact decompose_ordered _

/-- The form of a form is itself. -/
theorem form_form (cps : List Nat) (fold : Bool)
    : form unicode (form unicode cps fold) fold = form unicode cps fold := by
  cases fold with
  | false => exact decompose_decompose cps
  | true =>
      change decompose unicode ((decompose unicode (decompose unicode _)).flatMap _)
        = decompose unicode _
      rw [decompose_decompose, flatMap_eq_self fun cp member => foldCase_of_mem member,
        decompose_decompose]

/-- A form is of characters where what it is the form of is. -/
theorem form_valid {cps : List Nat} (valid : ∀ cp ∈ cps, cp.isValidChar) (fold : Bool)
    : ∀ cp ∈ form unicode cps fold, cp.isValidChar := by
  have decomposed {cps : List Nat} (valid : ∀ cp ∈ cps, cp.isValidChar)
      : ∀ cp ∈ decompose unicode cps, cp.isValidChar := by
    intro cp member
    obtain ⟨c, listed, inside⟩ := mem_decompose.mp member
    exact isValidChar_of_mem_expand inside (valid c listed)
  cases fold with
  | false => exact decomposed valid
  | true =>
      refine decomposed fun cp member => ?_
      obtain ⟨c, listed, inside⟩ := List.mem_flatMap.mp member
      rcases mem_foldCase inside with ⟨mapping, folds, mapped⟩ | ⟨rfl, -⟩
      · exact unicode.scalar _ (List.mem_append_right _ folds) cp mapped
      · exact decomposed valid cp listed

variable (unicode) in
/-- One string is made from another: neighbouring marks of different classes exchanged, or a
character replaced by what it decomposes into.
-/
inductive Step : List Nat → List Nat → Prop where
  | exchange (before after : List Nat) {a b : Nat} (markA : classOf unicode a ≠ 0)
      (markB : classOf unicode b ≠ 0) (differ : classOf unicode a ≠ classOf unicode b)
      : Step (before ++ a :: b :: after) (before ++ b :: a :: after)
  | replace (before after : List Nat) (c : Nat)
      : Step (before ++ c :: after) (before ++ expand unicode c ++ after)

/-- A string made from another decomposes as it does. -/
theorem Step.decompose_eq {text text' : List Nat} (step : Step unicode text text')
    : decompose unicode text' = decompose unicode text := by
  cases step with
  | exchange before after markA markB differ =>
      simp only [decompose, List.flatMap_append, List.flatMap_cons, ← List.append_assoc]
      refine CanonicalOrder.reorder_comm (fun x member => ?_) _ _
      have classX := classOf_of_mem_expand member markB
      refine ⟨classX ▸ markB, fun y member => ?_⟩
      have classY := classOf_of_mem_expand member markA
      exact ⟨classY ▸ markA, by rw [classX, classY]; exact Ne.symm differ⟩
  | replace before after c =>
      have stands : (expand unicode c).flatMap (expand unicode) = expand unicode c :=
        flatMap_eq_self fun cp member => expand_of_mem_expand member
      rw [decompose, decompose, List.flatMap_append, List.flatMap_append, List.flatMap_append,
        List.flatMap_cons, stands, List.append_assoc]

/-- Strings made from one another have one form, by induction on the steps. -/
theorem form_eq_of_steps {text text' : List Nat}
    (steps : Relation.ReflTransGen (Step unicode) text text') (fold : Bool)
    : form unicode text' fold = form unicode text fold := by
  induction steps with
  | refl => rfl
  | tail _ step ih =>
      rw [← ih, form, form, step.decompose_eq]

/-- A form is the key of a name: the one its characters spell. -/
theorem exists_key_form {cps : List Nat} (valid : ∀ cp ∈ cps, cp.isValidChar) (fold : Bool)
    : ∃ text : List Char, text.map Char.toNat = form unicode cps fold
      ∧ key unicode (Utf.encodeUtf8 text) fold = some (form unicode cps fold) := by
  have spelt : ((form unicode cps fold).map Char.ofNat).map Char.toNat = form unicode cps fold := by
    rw [List.map_map]
    refine (List.map_congr_left fun cp member => ?_).trans (List.map_id _)
    exact Utf.toNat_ofNat (form_valid valid fold cp member)
  exact ⟨_, spelt, by rw [key, Utf.decode_encodeUtf8, Option.map_some, spelt, form_form]⟩

end Ferrosys.Apfs.Names
