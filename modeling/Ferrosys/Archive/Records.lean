import Ferrosys.Bytes
import Ferrosys.Library.Checked

/-! PAX records as an extension header's body frames them: `LEN KEY=VALUE` and a newline, where the
length counts the whole record and alone ends it.
-/

namespace Ferrosys.Archive.Blocks

open Splice Checked

/-- Why an archive could not be read. -/
inductive ArchiveError where
  | malformed (reason : String)
  | bad (path : Bytes) (reason : String)
  | compressed (format : String)
deriving DecidableEq

structure PaxRecord where
  key : Bytes
  value : Bytes
deriving DecidableEq

/-- The bytes that delimit a record. -/
def space : UInt8 := 0x20
def equals : UInt8 := 0x3D
def newline : UInt8 := 0x0A

def isAsciiDigit (byte : UInt8) : Bool := 48 ≤ byte.toNat && byte.toNat ≤ 57

/-- The number decimal digits write. -/
def decimal (digits : Bytes) : Nat := digits.foldl (fun n digit => n * 10 + (digit.toNat - 48)) 0

/-- An unsigned decimal number of 64 bits: an empty token is none, nor is one not all digits. -/
def parseDecimal (text : Bytes) : Option Nat :=
  if text.isEmpty || !text.all isAsciiDigit then none
  else if decimal text < 2 ^ 64 then some (decimal text) else none

def malformedHeader : ArchiveError := .malformed "malformed PAX extended header"

/-- The first record of a body, and what follows it. -/
def takeRecord (rest : Bytes) : Except ArchiveError (PaxRecord × Bytes) := do
  let at_ ← okOr (rest.idxOf? space) malformedHeader
  let len ← okOr (parseDecimal (rest.take at_)) malformedHeader
  refuseIf (rest.length < len) malformedHeader
  -- its own length, the space, a pair of three bytes at least and the newline
  refuseIf (len < at_ + 5) malformedHeader
  let record := rest.take len
  refuseIf (record[len - 1]? != some newline) malformedHeader
  let pair := slice record (at_ + 1) (len - 1 - (at_ + 1))
  let middle ← okOr (pair.idxOf? equals) malformedHeader
  refuseIf (middle == 0) malformedHeader
  return (⟨pair.take middle, pair.drop (middle + 1)⟩, rest.drop len)

/-- The records of what is left of a body, up to the zeros that may pad it. `turns` is as many as
the bytes left, and every record takes more than one.
-/
def parseRecordsFrom : (turns : Nat) → Bytes → Except ArchiveError (List PaxRecord)
  | 0, _ => .ok []
  | turns + 1, rest =>
      if rest.all (· == 0) then .ok []
      else do
        let taken ← takeRecord rest
        let more ← parseRecordsFrom turns taken.2
        return taken.1 :: more

/-- The records of an extension header's body. -/
def parseRecords (body : Bytes) : Except ArchiveError (List PaxRecord) :=
  parseRecordsFrom body.length body

/-- A record as these digits count it. -/
def PaxRecord.written (self : PaxRecord) (digits : Bytes) : Bytes :=
  digits ++ space :: (self.key ++ equals :: (self.value ++ [newline]))

/-- Digits that count a record whole, themselves included, of a key that ends where the first equals
sign stands.
-/
structure PaxRecord.Counted (record : PaxRecord) (digits : Bytes) : Prop where
  some_ : digits ≠ []
  all : ∀ digit ∈ digits, isAsciiDigit digit = true
  counts : decimal digits = (record.written digits).length
  key_some : record.key ≠ []
  key_ends : equals ∉ record.key

/-- Records written one behind the other, with zeros behind the last. -/
inductive Framed : List PaxRecord → Bytes → Prop where
  | padding (count : Nat) : Framed [] (zeros count)
  | record {record : PaxRecord} {digits : Bytes} {records : List PaxRecord} {rest : Bytes}
      (counted : record.Counted digits) (framed : Framed records rest)
      : Framed (record :: records) (record.written digits ++ rest)

section

variable {α : Type} [BEq α] [LawfulBEq α]

/-- What a list holds before a mark is where the mark is first. -/
theorem idxOf?_split {mark : α} {front : List α} (free : mark ∉ front) (back : List α)
    : (front ++ mark :: back).idxOf? mark = some front.length := by
  induction front with
  | nil => simp [List.idxOf?_cons]
  | cons head rest ih =>
      rw [List.mem_cons, not_or] at free
      obtain ⟨other, free⟩ := free
      rw [List.cons_append, List.idxOf?_cons, ih free,
        if_neg (by simpa using fun same : head = mark => other same.symm)]
      rfl

/-- Where a mark is first is what a list holds before it. -/
theorem split_of_idxOf? {mark : α} {list : List α} {at_ : Nat} (found : list.idxOf? mark = some at_)
    : list = list.take at_ ++ mark :: list.drop (at_ + 1) ∧ mark ∉ list.take at_
      ∧ at_ < list.length := by
  induction list generalizing at_ with
  | nil => cases found
  | cons head rest ih =>
      rw [List.idxOf?_cons] at found
      split at found
      next same =>
        obtain rfl := Option.some.inj found
        exact ⟨by rw [eq_of_beq same]; rfl, List.not_mem_nil, Nat.succ_pos _⟩
      next other =>
        obtain ⟨before, inner, rfl⟩ := Option.map_eq_some_iff.mp found
        obtain ⟨split, free, inside⟩ := ih inner
        refine ⟨congrArg (head :: ·) split, ?_, Nat.succ_lt_succ inside⟩
        rw [List.take_succ_cons, List.mem_cons, not_or]
        exact ⟨fun same => other (by rw [same]; exact beq_self_eq_true _), free⟩

end

/-- A number of 64 bits is read from its digits. -/
theorem parseDecimal_eq_some {text : Bytes} {n : Nat}
    : parseDecimal text = some n
      ↔ text ≠ [] ∧ (∀ digit ∈ text, isAsciiDigit digit = true) ∧ decimal text = n
        ∧ n < 2 ^ 64 := by
  unfold parseDecimal
  split
  next refused =>
    refine iff_of_false nofun fun ⟨some_, all, _⟩ => ?_
    rcases (Bool.or_eq_true _ _).mp refused with empty | other
    · exact some_ (List.isEmpty_iff.mp empty)
    · rw [List.all_eq_true.mpr all] at other
      cases other
  next accepted =>
    rw [Bool.not_eq_true, Bool.or_eq_false_iff, Bool.not_eq_false', List.isEmpty_eq_false_iff,
      List.all_eq_true] at accepted
    split
    next fits =>
      constructor
      · rintro ⟨⟩
        exact ⟨accepted.1, accepted.2, rfl, fits⟩
      · rintro ⟨-, -, rfl, -⟩
        rfl
    next large =>
      refine iff_of_false nofun ?_
      rintro ⟨-, -, rfl, fits⟩
      exact large fits

theorem PaxRecord.length_written (self : PaxRecord) (digits : Bytes)
    : (self.written digits).length
      = digits.length + self.key.length + self.value.length + 3 := by
  simp only [written, List.length_append, List.length_cons, List.length_nil]
  omega

/-- Whether a record's pair is three bytes or more, as a parser of records holds it to be. -/
def PaxRecord.Long (record : PaxRecord) : Prop := 2 ≤ record.key.length + record.value.length

instance (record : PaxRecord) : Decidable record.Long :=
  inferInstanceAs (Decidable (2 ≤ _))

/-- No digit is a space. -/
theorem space_not_mem {digits : Bytes} (all : ∀ digit ∈ digits, isAsciiDigit digit = true)
    : space ∉ digits := fun member => absurd (all space member) (by decide)

/-- A written record is taken from where it stands, unless its pair is shorter than is held. -/
theorem takeRecord_written {record : PaxRecord} {digits : Bytes} (counted : record.Counted digits)
    (rest : Bytes) (fits : (record.written digits).length < 2 ^ 64)
    : takeRecord (record.written digits ++ rest)
      = if record.Long then .ok (record, rest) else .error malformedHeader := by
  obtain ⟨some_, all, counts, keySome, keyEnds⟩ := counted
  have length := record.length_written digits
  have begins : record.written digits ++ rest
      = digits ++ space :: (record.key ++ equals :: (record.value ++ [newline]) ++ rest) := by
    rw [PaxRecord.written, List.append_assoc, List.cons_append]
  have ends : record.written digits
      = (digits ++ [space]) ++ (record.key ++ equals :: record.value) ++ [newline] := by
    simp only [PaxRecord.written, List.append_assoc, List.cons_append, List.nil_append]
  have found : (record.written digits ++ rest).idxOf? space = some digits.length := by
    rw [begins]
    exact idxOf?_split (space_not_mem all) _
  have token : (record.written digits ++ rest).take digits.length = digits := by
    rw [begins, List.take_left]
  have parsed : parseDecimal digits = some (record.written digits).length :=
    parseDecimal_eq_some.mpr ⟨some_, all, counts, fits⟩
  have whole : (record.written digits ++ rest).take (record.written digits).length
      = record.written digits := List.take_left
  have inside : ¬ (record.written digits ++ rest).length < (record.written digits).length := by
    rw [List.length_append]
    omega
  unfold takeRecord
  simp only [found, token, parsed, whole, okOr, Option.elim_some, ok_bind, refuseIf, inside,
    decide_false, Bool.false_eq_true, if_false]
  by_cases long : record.Long
  · have reaches : ¬ (record.written digits).length < digits.length + 5 := by
      unfold PaxRecord.Long at long
      omega
    have last : (record.written digits)[(record.written digits).length - 1]? = some newline := by
      rw [← List.getLast?_eq_getElem?, ends, List.getLast?_concat]
    have pair : slice (record.written digits) (digits.length + 1)
        ((record.written digits).length - 1 - (digits.length + 1))
        = record.key ++ equals :: record.value := by
      have behind : (digits ++ [space]).length = digits.length + 1 := by
        rw [List.length_append, List.length_singleton]
      have size : (record.written digits).length - 1 - (digits.length + 1)
          = (record.key ++ equals :: record.value).length := by
        rw [List.length_append, List.length_cons]
        omega
      rw [size, slice, ends, ← behind, List.append_assoc, List.drop_left, List.take_left]
    have middle : (record.key ++ equals :: record.value).idxOf? equals
        = some record.key.length := idxOf?_split keyEnds _
    have named : (record.key.length == 0) = false := by
      rw [beq_eq_false_iff_ne]
      exact fun empty => keySome (List.length_eq_zero_iff.mp empty)
    simp only [reaches, decide_false, Bool.false_eq_true, if_false, last, bne_self_eq_false, pair,
      middle, Option.elim_some, ok_bind, named, List.take_left, List.drop_left, if_pos long]
    rw [show (record.key ++ equals :: record.value).drop (record.key.length + 1) = record.value by
      rw [← List.drop_drop, List.drop_left, List.drop_succ_cons, List.drop_zero]]
    rfl
  · have reaches : (record.written digits).length < digits.length + 5 := by
      unfold PaxRecord.Long at long
      omega
    simp only [reaches, decide_true, if_true, if_neg long]
    rfl

/-- A record that was taken was written where it was taken from. -/
theorem takeRecord_eq_ok {rest after : Bytes} {record : PaxRecord}
    (taken : takeRecord rest = .ok (record, after))
    : ∃ digits, record.Counted digits ∧ record.Long ∧ rest = record.written digits ++ after := by
  obtain ⟨at_, found, taken⟩ := bind_eq_ok.mp taken
  obtain ⟨len, parsed, taken⟩ := bind_eq_ok.mp taken
  obtain ⟨_, inside, taken⟩ := bind_eq_ok.mp taken
  obtain ⟨_, reaches, taken⟩ := bind_eq_ok.mp taken
  obtain ⟨_, last, taken⟩ := bind_eq_ok.mp taken
  obtain ⟨middle, halved, taken⟩ := bind_eq_ok.mp taken
  obtain ⟨_, named, taken⟩ := bind_eq_ok.mp taken
  obtain ⟨rfl, rfl⟩ := Prod.mk.inj (Except.ok.inj taken)
  rw [okOr_eq_ok] at found parsed halved
  rw [refuseIf_eq_ok, decide_eq_false_iff_not, Nat.not_lt] at inside reaches
  rw [refuseIf_eq_ok, bne_eq_false_iff_eq] at last
  rw [refuseIf_eq_ok, beq_eq_false_iff_ne] at named
  obtain ⟨some_, all, counts, -⟩ := parseDecimal_eq_some.mp parsed
  obtain ⟨split, -, spaced⟩ := split_of_idxOf? found
  obtain ⟨halves, free, within⟩ := split_of_idxOf? halved
  let digits := rest.take at_
  let pair := slice (rest.take len) (at_ + 1) (len - 1 - (at_ + 1))
  let record : PaxRecord := ⟨pair.take middle, pair.drop (middle + 1)⟩
  have width : digits.length = at_ := List.length_take_of_le (Nat.le_of_lt spaced)
  have cut : pair = (rest.drop (at_ + 1)).take (len - 1 - (at_ + 1)) := by
    have shorter : min (len - 1 - (at_ + 1)) (len - (at_ + 1)) = len - 1 - (at_ + 1) := by omega
    change ((rest.take len).drop (at_ + 1)).take (len - 1 - (at_ + 1)) = _
    rw [List.drop_take, List.take_take, shorter]
  have tail : (rest.drop (at_ + 1)).take (len - (at_ + 1)) = pair ++ [newline] := by
    have more : len - (at_ + 1) = len - 1 - (at_ + 1) + 1 := by omega
    have closing : (rest.drop (at_ + 1))[len - 1 - (at_ + 1)]? = some newline := by
      rw [List.getElem?_take_of_lt (by omega)] at last
      rw [List.getElem?_drop, ← last]
      exact congrArg (rest[·]?) (by omega)
    rw [more, List.take_add_one, closing, cut]
    rfl
  have whole : rest.take len = record.written digits := by
    have before : len = digits.length + (len - at_) := by omega
    have more : len - at_ = len - (at_ + 1) + 1 := by omega
    have same : rest.take len = digits ++ space :: (pair ++ [newline]) := by
      rw [split, before, List.take_length_add_append, more, List.take_succ_cons, tail]
    have pairs : pair = record.key ++ equals :: record.value := halves
    rw [same, PaxRecord.written, pairs, List.append_assoc, List.cons_append]
  have size : (record.written digits).length = len := by
    rw [← whole, List.length_take_of_le inside]
  have length := record.length_written digits
  refine ⟨digits, ⟨some_, all, counts.trans size.symm, ?_, free⟩, ?_, ?_⟩
  · intro empty
    have := congrArg List.length empty
    rw [List.length_take_of_le (Nat.le_of_lt within)] at this
    exact named this
  · change 2 ≤ record.key.length + record.value.length
    omega
  · rw [← whole, List.take_append_drop]

/-- A body that begins with a record is not all zeros. -/
theorem written_not_zeros {record : PaxRecord} {digits : Bytes} (counted : record.Counted digits)
    (rest : Bytes) : (record.written digits ++ rest).all (· == 0) = false := by
  obtain ⟨digit, more, same⟩ := List.exists_cons_of_ne_nil counted.some_
  have first := counted.all digit (by simp [same])
  have some_ : (digit == 0) = false := by
    rw [beq_eq_false_iff_ne]
    rintro rfl
    exact absurd first (by decide)
  rw [PaxRecord.written, same, List.cons_append, List.cons_append, List.all_cons, some_,
    Bool.false_and]

/-- Written records are read up to the first whose pair is shorter than is held, by induction on
them.
-/
theorem parseRecordsFrom_framed {records : List PaxRecord} {body : Bytes}
    (framed : Framed records body) (fits : body.length < 2 ^ 64) {turns : Nat}
    (enough : body.length ≤ turns)
    : parseRecordsFrom turns body
      = if ∀ record ∈ records, record.Long then .ok records else .error malformedHeader := by
  induction framed generalizing turns with
  | padding count =>
      rw [if_pos fun _ member => absurd member List.not_mem_nil]
      cases turns with
      | zero => rfl
      | succ turns =>
          rw [parseRecordsFrom, if_pos]
          rw [zeros, List.all_replicate]
          split <;> rfl
  | @record record digits records rest counted framed ih =>
      have length := record.length_written digits
      rw [List.length_append] at fits enough
      obtain ⟨turns, rfl⟩ := Nat.exists_eq_add_of_le' (show 1 ≤ turns by omega)
      rw [parseRecordsFrom, written_not_zeros counted rest, if_neg Bool.false_ne_true,
        takeRecord_written counted rest (by omega)]
      by_cases long : record.Long
      · rw [if_pos long, ok_bind, ih (by omega) (by omega)]
        simp only [List.forall_mem_cons, long, true_and]
        split <;> rfl
      · rw [if_neg long, if_neg fun all => long (all record List.mem_cons_self)]
        rfl

/-- What was read of a body is what is written there, by induction on the turns. -/
theorem framed_of_parseRecordsFrom {turns : Nat} {body : Bytes} {records : List PaxRecord}
    (enough : body.length ≤ turns) (parsed : parseRecordsFrom turns body = .ok records)
    : Framed records body := by
  induction turns generalizing body records with
  | zero =>
      obtain rfl := Except.ok.inj parsed
      obtain rfl := List.length_eq_zero_iff.mp (Nat.le_zero.mp enough)
      exact .padding 0
  | succ turns ih =>
      rw [parseRecordsFrom] at parsed
      split at parsed
      next blank =>
        obtain rfl := Except.ok.inj parsed
        have same : body = zeros body.length := List.eq_replicate_iff.mpr
          ⟨rfl, fun byte member => eq_of_beq (List.all_eq_true.mp blank byte member)⟩
        rw [same]
        exact .padding _
      next =>
        obtain ⟨⟨record, rest⟩, taken, parsed⟩ := bind_eq_ok.mp parsed
        obtain ⟨more, others, parsed⟩ := bind_eq_ok.mp parsed
        obtain rfl := Except.ok.inj parsed
        obtain ⟨digits, counted, -, rfl⟩ := takeRecord_eq_ok taken
        have length := record.length_written digits
        rw [List.length_append] at enough
        exact .record counted (ih (by omega) others)

/-- A body is read as the records written there unless one of them has a key of one byte and no
value, and whatever is read is written there.
-/
theorem parseRecords_iff (records : List PaxRecord) (body : Bytes) (fits : body.length < 2 ^ 64)
    : ((Framed records body → parseRecords body = .ok records)
        ↔ (Framed records body → ∀ record ∈ records, record.Long))
      ∧ (parseRecords body = .ok records → Framed records body) := by
  refine ⟨⟨fun read framed => ?_, fun long framed => ?_⟩,
    framed_of_parseRecordsFrom (Nat.le_refl _)⟩
  · have parsed := read framed
    rw [parseRecords, parseRecordsFrom_framed framed fits (Nat.le_refl _)] at parsed
    split at parsed
    next long => exact long
    next => cases parsed
  · rw [parseRecords, parseRecordsFrom_framed framed fits (Nat.le_refl _), if_pos (long framed)]

/-- The shortest record: a key of one byte and no value. -/
def shortest : PaxRecord := ⟨[0x61], []⟩

/-- Its five bytes, which are counted as five. -/
theorem shortest_framed : Framed [shortest] [0x35, 0x20, 0x61, 0x3D, 0x0A] :=
  have digit : ∀ digit ∈ ([0x35] : Bytes), isAsciiDigit digit = true := fun digit member => by
    obtain rfl := List.mem_singleton.mp member
    rfl
  @Framed.record shortest [0x35] [] []
    ⟨by decide, digit, by decide, by decide, by decide⟩ (.padding 0)

theorem shortest_refused
    : Framed [shortest] [0x35, 0x20, 0x61, 0x3D, 0x0A]
      ∧ parseRecords [0x35, 0x20, 0x61, 0x3D, 0x0A] ≠ .ok [shortest] :=
  ⟨shortest_framed, by decide⟩

/-- A key and a value of one byte each are read as they are written. -/
theorem parseRecords_iff_of_short
    : ((Framed [⟨[0x61], [0x62]⟩] [0x36, 0x20, 0x61, 0x3D, 0x62, 0x0A] →
          parseRecords [0x36, 0x20, 0x61, 0x3D, 0x62, 0x0A] = .ok [⟨[0x61], [0x62]⟩])
        ↔ (Framed [⟨[0x61], [0x62]⟩] [0x36, 0x20, 0x61, 0x3D, 0x62, 0x0A] →
          ∀ record ∈ [(⟨[0x61], [0x62]⟩ : PaxRecord)], record.Long))
      ∧ (parseRecords [0x36, 0x20, 0x61, 0x3D, 0x62, 0x0A] = .ok [⟨[0x61], [0x62]⟩] →
        Framed [⟨[0x61], [0x62]⟩] [0x36, 0x20, 0x61, 0x3D, 0x62, 0x0A]) :=
  parseRecords_iff _ _ (by decide)

end Ferrosys.Archive.Blocks
