import Ferrosys.Fat.LongName
import Mathlib.Data.Nat.Digits.Lemmas

/-! The names of one directory: how the model gives each a short name of its own, refusing a pair
no driver would tell apart, and what holds of all the names a directory was given.
-/

namespace Ferrosys.Fat.Name

/-- Whether a short name may not hold the byte at a position. -/
def isReservedShortByteAt (byte : UInt8) (position : Nat) : Bool :=
  if position = 0 ∧ byte = nameLeadingE5 then false
  else if position = 0 ∧ byte = 0x20 then true
  else isReservedShortByte byte

inductive ModelError where
  | indistinguishable (path other : Bytes)
  | name (path : Bytes) (source : NameError)
deriving DecidableEq

/-- What the names given out in one directory leave: its short names, and every name and rendered
short name folded, each with the path it came from.
-/
structure Directory where
  names : DirNames
  folded : List (List Char × Bytes)
deriving DecidableEq

section

-- The standard library's lower case of a text. Nothing below depends on which one it is.
variable (lower : List Char → List Char)

/-- A name folded to a single case, where it is text. -/
def folded (name : Bytes) : Option (List Char) := (Utf.decode name).map lower

namespace Directory

def empty : Directory := ⟨.empty, []⟩

/-- Take a folded name for a path, unless it is taken. -/
def take (self : Directory) (key : List Char) (path : Bytes) : Except ModelError Directory :=
  match self.folded.find? (·.1 == key) with
  | some (_, other) => .error (.indistinguishable path other)
  | none => .ok { self with folded := (key, path) :: self.folded }

/-- Give a name a short name no other entry holds, refusing a pair no driver would tell apart. -/
def nameIn (self : Directory) (name path : Bytes) : Except ModelError (PlacedName × Directory) := do
  let self ←
    match Name.folded lower name with
    | some key => self.take key path
    | none => .ok self
  let (placed, names) ← (self.names.place name).mapError (.name path)
  let self := { self with names }
  -- A derived short name is a name in the directory too.
  let key := lower (render placed.short)
  let self ← if Name.folded lower name ≠ some key then self.take key path else .ok self
  return (placed, self)

/-- Give names out in a row, each to the path it stands at. -/
def nameAll (self : Directory)
    : List (Bytes × Bytes) → Except ModelError (List (Bytes × PlacedName) × Directory)
  | [] => .ok ([], self)
  | (name, path) :: rest => do
      let (placed, self) ← self.nameIn lower name path
      let (more, self) ← self.nameAll rest
      return ((name, placed) :: more, self)

end Directory

end

/-! The bytes of a short name. -/

/-- A byte a short name holds in front of its padding. -/
def Plain (byte : UInt8) : Prop :=
  isReservedShortByte byte = false ∧ byte ≠ 0x20 ∧ byte.toNat < 0x80

theorem plain_shortByte {ch : Char} (space : ch ≠ ' ') : Plain (shortByte ch) := by
  have each : ∀ n < 128, n ≠ 0x20 → isReservedShortByte (shortByte (Char.ofNat n)) = false
      ∧ shortByte (Char.ofNat n) ≠ 0x20 ∧ (shortByte (Char.ofNat n)).toNat < 0x80 := by
    decide +kernel
  by_cases ascii : ch.toNat < 0x80
  · have same : Char.ofNat ch.toNat = ch := Char.ofNat_toNat ch
    have holds := each ch.toNat ascii fun code => space (by rw [← same, code])
    rw [same] at holds
    exact holds
  · rw [shortByte, if_neg ascii]
    exact ⟨by decide, by decide, by decide⟩

/-- A folded part is no longer than its field and holds plain bytes, by induction on the part. -/
theorem shorten_spec (limit : Nat) (part : List Char)
    : (shorten limit part).length ≤ limit ∧ ∀ byte ∈ shorten limit part, Plain byte := by
  induction part generalizing limit with
  | nil => cases limit <;> exact ⟨Nat.zero_le _, nofun⟩
  | cons ch rest ih =>
      cases limit with
      | zero => exact ⟨Nat.zero_le _, nofun⟩
      | succ limit =>
          rw [shorten]
          split
          case isTrue => exact ih (limit + 1)
          case isFalse kept =>
            have later := ih limit
            refine ⟨by rw [List.length_cons]; omega, fun byte member => ?_⟩
            rcases List.mem_cons.mp member with rfl | member
            · exact plain_shortByte fun space => kept (.inr space)
            · exact later.2 byte member

/-- A base or a tailed base: some plain bytes, no more than the field has. -/
structure FitsBase (base : Bytes) : Prop where
  some_ : base ≠ []
  few : base.length ≤ baseLen
  plain : ∀ byte ∈ base, Plain byte

structure FitsExt (ext : Bytes) : Prop where
  few : ext.length ≤ extLen
  plain : ∀ byte ∈ ext, Plain byte

theorem plain_substitute : Plain substitute := ⟨by decide, by decide, by decide⟩

theorem stem_spec (text : List Char) : FitsBase (stem text).1 ∧ FitsExt (stem text).2 := by
  unfold stem
  dsimp only
  generalize splitLast _ = parts
  have base := shorten_spec baseLen parts.1
  have ext := shorten_spec extLen parts.2
  refine ⟨?_, ⟨ext.1, ext.2⟩⟩
  split
  case isTrue empty =>
    rw [List.isEmpty_iff.mp empty]
    refine ⟨by simp, by decide, fun byte member => ?_⟩
    rw [List.mem_singleton.mp member]
    exact plain_substitute
  case isFalse some_ =>
    exact ⟨fun none_ => some_ (List.isEmpty_iff.mpr none_), base.1, base.2⟩

/-- The digits of a tail are plain, and few enough to leave one character of the base. -/
theorem decimal_spec {n : Nat} (few : n ≤ maxTail)
    : (DirNames.decimal n).length ≤ 6 ∧ ∀ byte ∈ DirNames.decimal n, Plain byte := by
  constructor
  · rw [DirNames.decimal, List.length_map, List.length_reverse]
    refine (Nat.digits_length_le_iff (by decide) n).mpr ?_
    exact few.trans_lt (by decide)
  · intro byte member
    obtain ⟨digit, inside, rfl⟩ := List.mem_map.mp member
    have small := Nat.digits_lt_base (by decide) (List.mem_reverse.mp inside)
    have each : ∀ digit < 10, isReservedShortByte (UInt8.ofNat (0x30 + digit)) = false
        ∧ UInt8.ofNat (0x30 + digit) ≠ 0x20 ∧ (UInt8.ofNat (0x30 + digit)).toNat < 0x80 := by
      decide
    exact each digit small

theorem tailed_spec {base : Bytes} (fits : FitsBase base) {n : Nat} (few : n ≤ maxTail)
    : FitsBase (DirNames.tailed base n) := by
  have digits := decimal_spec few
  have size : baseLen = 8 := rfl
  refine ⟨by simp [DirNames.tailed], ?_, fun byte member => ?_⟩
  · simp only [DirNames.tailed, List.length_append, List.length_take, List.length_cons]
    omega
  · rcases List.mem_append.mp member with member | member
    · exact fits.plain byte (List.mem_of_mem_take member)
    · rcases List.mem_cons.mp member with rfl | member
      · exact ⟨by decide, by decide, by decide⟩
      · exact digits.2 byte member

/-- What the name field of an entry is to be. -/
structure WellFormed (short : Bytes) : Prop where
  length : short.length = shortNameLen
  first : short.head? ≠ some 0x20 ∧ short.head? ≠ some nameDeleted
  bytes : ∀ byte ∈ short, isReservedShortByte byte = false
  placed : ∀ position byte, short[position]? = some byte →
    isReservedShortByteAt byte position = false

theorem assemble_spec {base ext : Bytes} (fitsBase : FitsBase base) (fitsExt : FitsExt ext)
    : WellFormed (assemble base ext) := by
  obtain ⟨some_, few, plain⟩ := fitsBase
  cases base with
  | nil => exact absurd rfl some_
  | cons first rest =>
      have own := plain first List.mem_cons_self
      have live : first ≠ nameDeleted := by
        rintro rfl
        exact absurd own.2.2 (by decide)
      have field : assemble (first :: rest) ext
          = first :: (rest ++ List.replicate (baseLen - (rest.length + 1)) 0x20
            ++ padded ext extLen) := by
        unfold assemble padded
        rw [List.cons_append, List.cons_append]
        dsimp only
        rw [if_neg live]
        rfl
      have bytes : ∀ byte ∈ assemble (first :: rest) ext, isReservedShortByte byte = false := by
        intro byte member
        rw [field] at member
        rcases List.mem_cons.mp member with rfl | member
        · exact own.1
        rcases List.mem_append.mp member with member | member
        · rcases List.mem_append.mp member with member | member
          · exact (plain byte (List.mem_cons_of_mem _ member)).1
          · rw [(List.mem_replicate.mp member).2]
            decide
        · rcases List.mem_append.mp member with member | member
          · exact (fitsExt.plain byte member).1
          · rw [(List.mem_replicate.mp member).2]
            decide
      refine ⟨?_, ?_, bytes, fun position byte here => ?_⟩
      · have sizes : baseLen = 8 ∧ extLen = 3 ∧ shortNameLen = 11 := ⟨rfl, rfl, rfl⟩
        have short := fitsExt.few
        rw [List.length_cons] at few
        rw [field]
        simp only [List.length_cons, List.length_append, List.length_replicate, padded]
        omega
      · rw [field, List.head?_cons]
        exact ⟨fun same => own.2.1 (Option.some.inj same), fun same => live (Option.some.inj same)⟩
      · have good := bytes byte (List.mem_of_getElem? here)
        unfold isReservedShortByteAt
        split
        · rfl
        · rw [if_neg ?_]
          · exact good
          · rintro ⟨rfl, rfl⟩
            rw [field, List.getElem?_cons_zero] at here
            exact own.2.1 (Option.some.inj here)

/-- The first free form with a tail is free, and is a form of the stem with some tail, by induction
on the turns.
-/
theorem tailFrom_eq_some {used : List Bytes} {base ext candidate : Bytes} {turns n : Nat}
    (found : DirNames.tailFrom used base ext turns n = some candidate)
    : candidate ∉ used ∧ ∃ m < n + turns, candidate = assemble (DirNames.tailed base m) ext := by
  induction turns generalizing n with
  | zero => cases found
  | succ turns ih =>
      rw [DirNames.tailFrom] at found
      split at found
      case isTrue =>
        obtain ⟨free, m, below, same⟩ := ih found
        exact ⟨free, m, by omega, same⟩
      case isFalse free =>
        obtain rfl := Option.some.inj found
        exact ⟨fun member => free (List.contains_iff_mem.mpr member), n, by omega, rfl⟩

/-- A placed name's short name is well formed and was free, and is free no more. -/
theorem place_spec {self after : DirNames} {name : Bytes} {placed : PlacedName}
    (done : self.place name = .ok (placed, after))
    : WellFormed placed.short ∧ placed.short ∉ self.used
      ∧ after.used = placed.short :: self.used := by
  simp only [DirNames.place, Checked.bind_eq_ok, Checked.okOr_eq_ok] at done
  obtain ⟨units, held, text, decoded, made⟩ := done
  have stems := stem_spec text
  split at made
  case isTrue taken =>
    obtain ⟨⟨short, names⟩, tailed, made⟩ := Checked.bind_eq_ok.mp made
    obtain ⟨rfl, rfl⟩ := Prod.mk.inj (Except.ok.inj made)
    unfold DirNames.withTail at tailed
    split at tailed
    case h_1 candidate found =>
      obtain ⟨rfl, rfl⟩ := Prod.mk.inj (Except.ok.inj tailed)
      obtain ⟨free, m, below, rfl⟩ := tailFrom_eq_some found
      exact ⟨assemble_spec (tailed_spec stems.1 (by omega)) stems.2, free, rfl⟩
    case h_2 => cases tailed
  case isFalse free =>
    obtain ⟨⟨short, names⟩, plain, made⟩ := Checked.bind_eq_ok.mp made
    obtain ⟨rfl, rfl⟩ := Prod.mk.inj (Except.ok.inj made)
    obtain ⟨rfl, rfl⟩ := Prod.mk.inj (Except.ok.inj plain)
    exact ⟨assemble_spec stems.1 stems.2,
      fun member => free (List.contains_iff_mem.mpr member), rfl⟩

/-! The names of a directory. -/

section

variable {lower : List Char → List Char}

/-- The texts an entry is found by: its name and its rendered short name. -/
def spellings (entry : Bytes × PlacedName) : List (List Char) :=
  (Utf.decode entry.1).toList ++ [render entry.2.short]

/-- Whether a folded text is taken in a directory. -/
def Directory.Taken (self : Directory) (key : List Char) : Prop :=
  ∃ path, (key, path) ∈ self.folded

/-- What holds of one entry by itself. -/
structure Entry.Sound (entry : Bytes × PlacedName) : Prop where
  field : WellFormed entry.2.short
  long : entry.2.long = none ↔ Utf.decode entry.1 = some (render entry.2.short)

/-- Two entries share no short name, and no text under the fold. -/
def Apart (lower : List Char → List Char) (entry other : Bytes × PlacedName) : Prop :=
  entry.2.short ≠ other.2.short
    ∧ ∀ text ∈ spellings entry, ∀ also ∈ spellings other, lower text ≠ lower also

/-- A directory has none of an entry's names. -/
structure Directory.Free (lower : List Char → List Char) (dir : Directory)
    (entry : Bytes × PlacedName) : Prop where
  short : entry.2.short ∉ dir.names.used
  texts : ∀ text ∈ spellings entry, ¬ dir.Taken (lower text)

/-- A directory has all of an entry's names. -/
structure Directory.Has (lower : List Char → List Char) (dir : Directory)
    (entry : Bytes × PlacedName) : Prop where
  short : entry.2.short ∈ dir.names.used
  texts : ∀ text ∈ spellings entry, dir.Taken (lower text)

/-- A directory has what another has, and perhaps more. -/
structure Directory.Grows (dir after : Directory) : Prop where
  short : ∀ short ∈ dir.names.used, short ∈ after.names.used
  taken : ∀ key, dir.Taken key → after.Taken key

namespace Directory

theorem take_eq_ok {self after : Directory} {key : List Char} {path : Bytes}
    (took : self.take key path = .ok after)
    : ¬ self.Taken key ∧ after = { self with folded := (key, path) :: self.folded } := by
  unfold take at took
  split at took
  case h_1 => cases took
  case h_2 free =>
    refine ⟨?_, (Except.ok.inj took).symm⟩
    rintro ⟨path', member⟩
    exact List.find?_eq_none.mp free _ member (beq_self_eq_true key)

theorem taken_cons {self : Directory} {key other : List Char} {path : Bytes} {names : DirNames}
    : Taken ⟨names, (key, path) :: self.folded⟩ other ↔ other = key ∨ self.Taken other := by
  constructor
  · rintro ⟨at_, member⟩
    rcases List.mem_cons.mp member with same | member
    · exact .inl (Prod.mk.inj same).1
    · exact .inr ⟨at_, member⟩
  · rintro (rfl | ⟨at_, member⟩)
    · exact ⟨path, List.mem_cons_self⟩
    · exact ⟨at_, List.mem_cons_of_mem _ member⟩

theorem nameIn_spec {self after : Directory} {name path : Bytes} {placed : PlacedName}
    (done : self.nameIn lower name path = .ok (placed, after))
    : Entry.Sound (name, placed) ∧ self.Free lower (name, placed) ∧ after.Has lower (name, placed)
      ∧ self.Grows after := by
  unfold nameIn at done
  cases decoded : Utf.decode name with
  | none =>
      -- A name that is no text is not placed.
      have key : Name.folded lower name = none := by rw [Name.folded, decoded]; rfl
      rw [key] at done
      obtain ⟨_, _, done⟩ := Checked.bind_eq_ok.mp done
      obtain ⟨⟨_, _⟩, put, _⟩ := Checked.bind_eq_ok.mp done
      rw [Checked.mapError_eq_ok] at put
      obtain ⟨_, _, _, some_, _⟩ := place_eq_ok put
      rw [decoded] at some_
      cases some_
  | some text =>
      have key : Name.folded lower name = some (lower text) := by rw [Name.folded, decoded]; rfl
      rw [key] at done
      obtain ⟨first, took, done⟩ := Checked.bind_eq_ok.mp done
      obtain ⟨free, rfl⟩ := take_eq_ok took
      obtain ⟨⟨placed', names⟩, put, done⟩ := Checked.bind_eq_ok.mp done
      rw [Checked.mapError_eq_ok] at put
      obtain ⟨field, unused, used⟩ := place_spec put
      obtain ⟨text', _, _, same, stored⟩ := place_eq_ok put
      obtain rfl : text = text' := Option.some.inj (decoded.symm.trans same)
      have texts : ∀ text', text' ∈ spellings (name, placed') ↔
          text' = text ∨ text' = render placed'.short := by
        intro text'
        rw [spellings, decoded]
        simp
      have long : placed'.long = none ↔ Utf.decode name = some (render placed'.short) := by
        rw [stored, decoded]
        by_cases alike : render placed'.short = text
        · simp [alike]
        · simp [alike, Ne.symm alike]
      dsimp only at done
      split at done
      case isTrue differs =>
        have apart : lower (render placed'.short) ≠ lower text := fun alike =>
          differs (congrArg some alike.symm)
        obtain ⟨last, took, done⟩ := Checked.bind_eq_ok.mp done
        obtain ⟨rfl, rfl⟩ := Prod.mk.inj (Except.ok.inj done)
        obtain ⟨free', rfl⟩ := take_eq_ok took
        refine ⟨⟨field, long⟩, ⟨unused, fun other member => ?_⟩,
          ⟨by rw [used]; exact List.mem_cons_self, fun other member => ?_⟩,
          ⟨fun short member => by rw [used]; exact List.mem_cons_of_mem _ member,
            fun key taken => ?_⟩⟩
        · rcases (texts other).mp member with rfl | rfl
          · exact free
          · exact fun taken => free' (taken_cons.mpr (.inr taken))
        · rcases (texts other).mp member with rfl | rfl
          · exact taken_cons.mpr (.inr (taken_cons.mpr (.inl rfl)))
          · exact taken_cons.mpr (.inl rfl)
        · exact taken_cons.mpr (.inr (taken_cons.mpr (.inr taken)))
      case isFalse alike =>
        have same : lower (render placed'.short) = lower text :=
          (Option.some.inj (not_not.mp alike)).symm
        obtain ⟨last, kept, done⟩ := Checked.bind_eq_ok.mp done
        obtain ⟨rfl, rfl⟩ := Prod.mk.inj (Except.ok.inj done)
        obtain rfl := Except.ok.inj kept
        refine ⟨⟨field, long⟩, ⟨unused, fun other member => ?_⟩,
          ⟨by rw [used]; exact List.mem_cons_self, fun other member => ?_⟩,
          ⟨fun short member => by rw [used]; exact List.mem_cons_of_mem _ member,
            fun key taken => ?_⟩⟩
        · rcases (texts other).mp member with rfl | rfl
          · exact free
          · rw [same]
            exact free
        · rcases (texts other).mp member with rfl | rfl
          · exact taken_cons.mpr (.inl rfl)
          · exact taken_cons.mpr (.inl same)
        · exact taken_cons.mpr (.inr taken)

/-- What a directory gives out in a row is sound entry by entry, apart pair by pair, and free in the
directory before: by induction on the names.
-/
theorem nameAll_spec {self after : Directory} {names : List (Bytes × Bytes)}
    {entries : List (Bytes × PlacedName)} (done : self.nameAll lower names = .ok (entries, after))
    : entries.map Prod.fst = names.map Prod.fst ∧ entries.Pairwise (Apart lower)
      ∧ ∀ entry ∈ entries, Entry.Sound entry ∧ self.Free lower entry := by
  induction names generalizing self entries with
  | nil =>
      obtain ⟨rfl, -⟩ := Prod.mk.inj (Except.ok.inj done)
      exact ⟨rfl, .nil, nofun⟩
  | cons first rest ih =>
      obtain ⟨name, path⟩ := first
      rw [nameAll] at done
      obtain ⟨⟨placed, middle⟩, step, done⟩ := Checked.bind_eq_ok.mp done
      obtain ⟨⟨more, last⟩, later, done⟩ := Checked.bind_eq_ok.mp done
      obtain ⟨rfl, rfl⟩ := Prod.mk.inj (Except.ok.inj done)
      obtain ⟨sound, free, has, grows⟩ := nameIn_spec step
      obtain ⟨named, apart, others⟩ := ih later
      refine ⟨congrArg (name :: ·) named, .cons (fun entry member => ?_) apart,
        fun entry member => ?_⟩
      · have behind := (others entry member).2
        refine ⟨fun same => behind.short (same ▸ has.short), fun text inside also member' same => ?_⟩
        exact behind.texts also member' (same ▸ has.texts text inside)
      · rcases List.mem_cons.mp member with rfl | member
        · exact ⟨sound, free⟩
        · obtain ⟨own, behind⟩ := others entry member
          exact ⟨own, fun held => behind.short (grows.short _ held),
            fun text inside taken => behind.texts text inside (grows.taken _ taken)⟩

end Directory

/-- Whatever names are placed in a new directory without an error, and whatever the fold: each entry
has a well-formed short name, and a long form exactly where the short name does not render to the
name; and no two entries share a short name, or a name or rendered short name under the fold.
-/
theorem names_apart {names : List (Bytes × Bytes)} {entries : List (Bytes × PlacedName)}
    {after : Directory} (done : Directory.empty.nameAll lower names = .ok (entries, after))
    : entries.map Prod.fst = names.map Prod.fst ∧ (∀ entry ∈ entries, Entry.Sound entry)
      ∧ entries.Pairwise (Apart lower) := by
  obtain ⟨named, apart, each⟩ := Directory.nameAll_spec done
  exact ⟨named, fun entry member => (each entry member).1, apart⟩

end

/-- The lower case of a text of ASCII characters. -/
def asciiLower (text : List Char) : List Char := text.map Char.toLower

/-- The names `A b` and `A+b`, which shorten alike, and `X.Y`, which is its own short name. -/
def threeNames : List (Bytes × Bytes) :=
  [([0x41, 0x20, 0x62], [0x31]), ([0x41, 0x2B, 0x62], [0x32]), ([0x58, 0x2E, 0x59], [0x33])]

theorem names_apart_of_three
    : ∃ entries : List (Bytes × PlacedName), entries.map Prod.fst = threeNames.map Prod.fst
      ∧ (∀ entry ∈ entries, Entry.Sound entry) ∧ entries.Pairwise (Apart asciiLower) := by
  obtain ⟨done, made⟩ : ∃ done, Directory.empty.nameAll asciiLower threeNames = .ok done := by
    cases here : Directory.empty.nameAll asciiLower threeNames with
    | ok done => exact ⟨done, rfl⟩
    | error error =>
        have some_ : (Directory.empty.nameAll asciiLower threeNames).toOption.isSome = true := by
          decide +kernel
        rw [here] at some_
        cases some_
  exact ⟨done.1, names_apart made⟩

end Ferrosys.Fat.Name
