import Ferrosys.Archive.Records
import Ferrosys.Library.Outcome
import Ferrosys.Library.Utf
import Ferrosys.Time
import Mathlib.Data.Nat.Digits.Lemmas

/-! The times of PAX records: decimal seconds with a fraction, which floor where they are negative
and carry the fraction up towards zero.
-/

namespace Ferrosys.Archive.Times

open Blocks Machine Checked

def minus : UInt8 := 0x2D
def plus : UInt8 := 0x2B
def dot : UInt8 := 0x2E
def zero : UInt8 := 0x30

def nanosPerSec : Nat := 1000000000

/-- The digits of a number. -/
def digits (n : Nat) : Bytes :=
  if n = 0 then [zero] else ((Nat.digits 10 n).reverse).map fun digit => UInt8.ofNat (48 + digit)

/-- A signed number as text. -/
def signed (n : Int) : Bytes := if n < 0 then minus :: digits n.natAbs else digits n.natAbs

/-- A number as text of nine digits at least. -/
def padded (n : Nat) : Bytes := List.replicate (9 - (digits n).length) zero ++ digits n

/-- A sum kept within 64 bits. -/
def saturatingAdd (a b : Int) : Int := max (-2 ^ 63) (min (2 ^ 63 - 1) (a + b))

/-- The text of a time. -/
def paxTime (t : Timestamp) : Bytes :=
  -- Every case below is of a fraction smaller than a second.
  let secs := saturatingAdd t.secs (t.nanos / nanosPerSec : Nat)
  let nanos := t.nanos % nanosPerSec
  if nanos = 0 then signed secs
  else if secs < 0 then
    let whole := secs + 1
    let frac := nanosPerSec - nanos
    -- Within the last second before the epoch no whole part carries the sign.
    if whole = 0 then minus :: zero :: dot :: padded frac else signed whole ++ dot :: padded frac
  else signed secs ++ dot :: padded nanos

/-- The number of a token of digits, none of any other. -/
def parseDigits (text : Bytes) : Option Nat :=
  if text.isEmpty || !text.all isAsciiDigit then none else some (decimal text)

/-- A signed decimal number of 64 bits. -/
def parseI64 (text : Bytes) : Option Int := do
  let negative := text.head? == some minus
  let n ← parseDigits (if negative || text.head? == some plus then text.drop 1 else text)
  let n : Int := if negative then -n else n
  if -2 ^ 63 ≤ n ∧ n < 2 ^ 63 then some n else none

/-- An unsigned decimal number of 32 bits. -/
def parseU32 (text : Bytes) : Option Nat := do
  let n ← parseDigits (if text.head? == some plus then text.drop 1 else text)
  if n < 2 ^ 32 then some n else none

/-- What fits 32 bits: a build with checks panics at the rest. -/
def fit32 {ε : Type} (n : Nat) : Except (Fault ε) Nat :=
  if n < 2 ^ 32 then .ok n else .error .panicked

/-- The nanoseconds a fraction's digits stand for: nine of them at most count. -/
def parseFraction (frac path : Bytes) : Except (Fault ArchiveError) Nat := do
  if frac.isEmpty then return 0
  else
    refuseIf (!frac.all isAsciiDigit) (.bad path "invalid PAX time fraction")
    let number := frac.take (min frac.length 9)
    let parsed ← okOr (parseU32 number) (.refused (.bad path "invalid PAX time fraction"))
    let missing ← sub .checked 9 number.length
    let scale ← fit32 (10 ^ missing)
    fit32 (parsed * scale)

/-- A value up to its first dot, and what follows it. -/
def splitOnce (value : Bytes) : Bytes × Bytes :=
  match value.idxOf? dot with
  | some at_ => (value.take at_, value.drop (at_ + 1))
  | none => (value, [])

/-- The instant a time record's value names. -/
def parsePaxTime (value path : Bytes) : Except (Fault ArchiveError) (Option Timestamp) := do
  refuseIf (Utf.decode value).isNone (.bad path "non-UTF-8 PAX time")
  let secsText := (splitOnce value).1
  let secs ← okOr (parseI64 secsText) (.refused (.bad path "invalid PAX time seconds"))
  let nanos ← parseFraction (splitOnce value).2 path
  -- A bare `-0` has its sign in the text alone.
  if nanos ≠ 0 ∧ (secs < 0 ∨ secsText.head? = some minus) then
    refuseIf (decide (secs - 1 < -2 ^ 63)) (.bad path "invalid PAX time seconds")
    let nanos ← sub .checked nanosPerSec nanos
    return some ⟨secs - 1, nanos⟩
  else return some ⟨secs, nanos⟩

/-! Numbers as text. -/

/-- A digit read behind others. -/
theorem decimal_append (text : Bytes) (digit : UInt8)
    : decimal (text ++ [digit]) = decimal text * 10 + (digit.toNat - 48) := by
  rw [decimal, List.foldl_append]
  rfl

/-- Digits from the lowest come back as their number, by induction on them. -/
theorem decimal_reverse {number : List Nat} (below : ∀ digit ∈ number, digit < 10)
    : decimal (number.reverse.map fun digit => UInt8.ofNat (48 + digit))
      = Nat.ofDigits 10 number := by
  induction number with
  | nil => rfl
  | cons digit rest ih =>
      have small := below digit List.mem_cons_self
      have byte : (UInt8.ofNat (48 + digit)).toNat = 48 + digit := by
        rw [UInt8.toNat_ofNat']
        omega
      rw [List.reverse_cons, List.map_append, List.map_singleton, decimal_append,
        ih fun other member => below other (List.mem_cons_of_mem _ member), byte,
        Nat.ofDigits_cons]
      omega

theorem decimal_digits (n : Nat) : decimal (digits n) = n := by
  unfold digits
  split
  next none_ => rw [none_]; rfl
  next => rw [decimal_reverse fun _ member => Nat.digits_lt_base (by decide) member,
    Nat.ofDigits_digits]

theorem isAsciiDigit_of_mem {n : Nat} {byte : UInt8} (member : byte ∈ digits n)
    : isAsciiDigit byte = true := by
  unfold digits at member
  split at member
  next => rw [List.mem_singleton.mp member]; decide
  next =>
    obtain ⟨digit, inside, rfl⟩ := List.mem_map.mp member
    have small : digit < 10 := Nat.digits_lt_base (by decide) (List.mem_reverse.mp inside)
    have number : (UInt8.ofNat (48 + digit)).toNat = 48 + digit := by
      rw [UInt8.toNat_ofNat']
      omega
    simp only [isAsciiDigit, number, Bool.and_eq_true, decide_eq_true_eq]
    omega

theorem digits_ne_nil (n : Nat) : digits n ≠ [] := by
  unfold digits
  split
  next => exact List.cons_ne_nil _ _
  next some_ => simpa using Nat.digits_ne_nil_iff_ne_zero.mpr some_

/-- Text of digits alone. -/
def AllDigits (text : Bytes) : Prop := ∀ byte ∈ text, isAsciiDigit byte = true

theorem allDigits_padded (n : Nat) : AllDigits (padded n) := by
  intro byte member
  rcases List.mem_append.mp member with zeros | number
  · rw [List.eq_of_mem_replicate zeros]
    decide
  · exact isAsciiDigit_of_mem number

/-- Zeros ahead of a number do not change it. -/
theorem decimal_padded (n : Nat) : decimal (padded n) = n := by
  have zeros (count : Nat) (text : Bytes)
      : decimal (List.replicate count zero ++ text) = decimal text := by
    induction count with
    | zero => rfl
    | succ count ih => exact ih
  rw [padded, zeros, decimal_digits]

/-- A fraction of a second has nine digits. -/
theorem length_padded {n : Nat} (small : n < nanosPerSec) : (padded n).length = 9 := by
  have short : (digits n).length ≤ 9 := by
    unfold digits
    split
    next => decide
    next =>
      rw [List.length_map, List.length_reverse]
      exact (Nat.digits_length_le_iff (by decide) n).mpr small
  rw [padded, List.length_append, List.length_replicate]
  omega

theorem allDigits_digits (n : Nat) : AllDigits (digits n) :=
  fun _ member => isAsciiDigit_of_mem member

theorem padded_ne_nil (n : Nat) : padded n ≠ [] :=
  fun empty => digits_ne_nil n (List.append_eq_nil_iff.mp empty).2

/-- Digits begin with no sign. -/
theorem head_of_allDigits {text : Bytes} (all : AllDigits text) {sign : UInt8}
    (other : isAsciiDigit sign = false) : (text.head? == some sign) = false := by
  refine Bool.eq_false_iff.mpr fun same => ?_
  have head := all sign (List.mem_of_mem_head? (beq_iff_eq.mp same))
  rw [other] at head
  exact absurd head Bool.false_ne_true

theorem parseDigits_eq {text : Bytes} (some_ : text ≠ []) (all : AllDigits text)
    : parseDigits text = some (decimal text) := by
  refine if_neg ?_
  rw [Bool.not_eq_true, Bool.or_eq_false_iff, Bool.not_eq_false', List.all_eq_true,
    List.isEmpty_eq_false_iff]
  exact ⟨some_, all⟩

/-- A number of 64 bits comes back from its text. -/
theorem parseI64_signed {n : Int} (fits : -2 ^ 63 ≤ n ∧ n < 2 ^ 63)
    : parseI64 (signed n) = some n := by
  have parsed := parseDigits_eq (digits_ne_nil n.natAbs) (allDigits_digits n.natAbs)
  rw [decimal_digits] at parsed
  unfold parseI64 signed
  by_cases negative : n < 0
  · have number : -((n.natAbs : Nat) : Int) = n := by omega
    have sign : ((minus :: digits n.natAbs).head? == some minus) = true := rfl
    rw [if_pos negative, sign]
    dsimp only
    rw [Bool.true_or, if_pos rfl, List.drop_succ_cons, List.drop_zero, parsed]
    refine (Option.bind_some _ _).trans ?_
    rw [if_pos rfl, number, if_pos fits]
  · have number : ((n.natAbs : Nat) : Int) = n := by omega
    have noMinus := head_of_allDigits (allDigits_digits n.natAbs)
      (show isAsciiDigit minus = false by decide)
    have noPlus := head_of_allDigits (allDigits_digits n.natAbs)
      (show isAsciiDigit plus = false by decide)
    rw [if_neg negative, noMinus, noPlus]
    dsimp only
    rw [Bool.false_or, if_neg Bool.false_ne_true, parsed]
    refine (Option.bind_some _ _).trans ?_
    rw [if_neg Bool.false_ne_true, number, if_pos fits]

/-- The text of a number of digits is that number. -/
theorem parseU32_of_allDigits {text : Bytes} (some_ : text ≠ []) (all : AllDigits text)
    (fits : decimal text < 2 ^ 32) : parseU32 text = some (decimal text) := by
  have noPlus := head_of_allDigits all (show isAsciiDigit plus = false by decide)
  rw [parseU32, noPlus, if_neg Bool.false_ne_true, parseDigits_eq some_ all]
  exact (Option.bind_some _ _).trans (if_pos fits)

/-- So many digits write a number below that power of ten. -/
theorem decimal_lt {text : Bytes} (all : AllDigits text) : decimal text < 10 ^ text.length := by
  induction text using List.reverseRecOn with
  | nil => decide
  | append_singleton text digit ih =>
      have rest := ih fun byte member => all byte (List.mem_append_left _ member)
      have last := all digit (List.mem_append_right _ List.mem_cons_self)
      simp only [isAsciiDigit, Bool.and_eq_true, decide_eq_true_eq] at last
      rw [decimal_append, List.length_append, List.length_singleton, Nat.pow_succ]
      omega

/-- What a fraction's digits stand for: the first nine, with zeros for those that are missing. -/
theorem parseFraction_eq {frac : Bytes} (path : Bytes) (some_ : frac ≠ []) (all : AllDigits frac)
    : parseFraction frac path
      = .ok (decimal (frac.take 9) * 10 ^ (9 - (frac.take 9).length)) := by
  have taken : frac.take (min frac.length 9) = frac.take 9 := by
    rw [Nat.min_comm, ← List.take_take, List.take_length]
  have all_ : AllDigits (frac.take 9) := fun byte member => all byte (List.mem_of_mem_take member)
  have length : (frac.take 9).length ≤ 9 := by
    rw [List.length_take]
    omega
  have below := decimal_lt all_
  have bound : 10 ^ (frac.take 9).length * 10 ^ (9 - (frac.take 9).length) = 10 ^ 9 := by
    rw [← Nat.pow_add, Nat.add_sub_cancel' length]
  have product : decimal (frac.take 9) * 10 ^ (9 - (frac.take 9).length) < 10 ^ 9 := by
    rw [← bound]
    exact Nat.mul_lt_mul_of_pos_right below (Nat.pow_pos (by decide))
  have parsed : parseU32 (frac.take 9) = some (decimal (frac.take 9)) := by
    refine parseU32_of_allDigits ?_ all_ ?_
    · simpa using some_
    · have wide := Nat.pow_le_pow_right (n := 10) (by decide) length
      omega
  have scale : 10 ^ (9 - (frac.take 9).length) < 2 ^ 32 := by
    have wide := Nat.pow_le_pow_right (n := 10) (by decide) (Nat.sub_le 9 (frac.take 9).length)
    omega
  have valid : frac.all isAsciiDigit = true := List.all_eq_true.mpr all
  have filled : frac.isEmpty = false := List.isEmpty_eq_false_iff.mpr some_
  unfold parseFraction
  rw [filled, if_neg Bool.false_ne_true, valid, taken]
  dsimp only
  rw [parsed]
  refine (ok_bind _ _).trans ?_
  refine (ok_bind _ _).trans ?_
  rw [sub_of_le length]
  refine (ok_bind _ _).trans ?_
  rw [fit32, if_pos scale]
  refine (ok_bind _ _).trans ?_
  rw [fit32, if_pos (by omega)]

/-! Times as text. -/

/-- Text of one-byte characters is UTF-8, by induction on it. -/
theorem decode_ascii {text : Bytes} (ascii : ∀ byte ∈ text, byte.toNat < 0x80)
    : (Utf.decode text).isNone = false := by
  have each (fuel : Nat) (enough : text.length ≤ fuel)
      : (Utf.decodeFrom fuel text).isNone = false := by
    induction text generalizing fuel with
    | nil => cases fuel <;> rfl
    | cons byte rest ih =>
        obtain ⟨fuel, rfl⟩ := Nat.exists_eq_add_of_le' (Nat.lt_of_lt_of_le (Nat.succ_pos _) enough)
        have one := Utf.decodeOne_one (ascii byte List.mem_cons_self) rest
        have more := ih (fun other member => ascii other (List.mem_cons_of_mem _ member)) fuel
          (Nat.le_of_succ_le_succ enough)
        rw [Utf.decodeFrom, one]
        · simpa using more
        · exact List.cons_ne_nil byte rest
  exact each _ (Nat.le_refl _)

theorem ascii_of_allDigits {text : Bytes} (all : AllDigits text) {byte : UInt8}
    (member : byte ∈ text) : byte.toNat < 0x80 ∧ byte ≠ dot := by
  have digit := all byte member
  simp only [isAsciiDigit, Bool.and_eq_true, decide_eq_true_eq] at digit
  refine ⟨by omega, fun same => ?_⟩
  rw [same] at digit
  exact absurd digit (by decide)

/-- Signed numbers are of one-byte characters, no dot among them. -/
theorem ascii_signed {n : Int} {byte : UInt8} (member : byte ∈ signed n)
    : byte.toNat < 0x80 ∧ byte ≠ dot := by
  unfold signed at member
  split at member
  next =>
    rcases List.mem_cons.mp member with rfl | member
    · decide
    · exact ascii_of_allDigits (allDigits_digits _) member
  next => exact ascii_of_allDigits (allDigits_digits _) member

/-- A time whose parts parse names the second they spell, and below zero the fraction's distance
from the second before.
-/
theorem parsePaxTime_eq {value secsText frac path : Bytes} {secs : Int} {nanos : Nat}
    (text : (Utf.decode value).isNone = false) (split : splitOnce value = (secsText, frac))
    (seconds : parseI64 secsText = some secs) (fraction : parseFraction frac path = .ok nanos)
    (small : nanos ≤ nanosPerSec) (room : -2 ^ 63 ≤ secs - 1 ∨ nanos = 0)
    : parsePaxTime value path
      = .ok (some (if nanos ≠ 0 ∧ (secs < 0 ∨ secsText.head? = some minus) then
          ⟨secs - 1, nanosPerSec - nanos⟩ else ⟨secs, nanos⟩)) := by
  unfold parsePaxTime
  rw [text, split]
  refine (ok_bind _ _).trans ?_
  dsimp only
  rw [seconds]
  refine (ok_bind _ _).trans ?_
  rw [fraction]
  refine (ok_bind _ _).trans ?_
  by_cases below : nanos ≠ 0 ∧ (secs < 0 ∨ secsText.head? = some minus)
  · have above : decide (secs - 1 < -2 ^ 63) = false := by
      rw [decide_eq_false_iff_not]
      omega
    rw [if_pos below, if_pos below, above, sub_of_le small]
    rfl
  · rw [if_neg below, if_neg below]
    rfl

theorem splitOnce_dot {secsText frac : Bytes} (free : dot ∉ secsText)
    : splitOnce (secsText ++ dot :: frac) = (secsText, frac) := by
  rw [splitOnce, idxOf?_split free]
  simp

theorem splitOnce_free {text : Bytes} (free : dot ∉ text) : splitOnce text = (text, []) := by
  have none_ : text.idxOf? dot = none := List.idxOf?_eq_none_iff.mpr free
  rw [splitOnce, none_]

/-- Nine digits are the fraction they write. -/
theorem parseFraction_padded {n : Nat} (path : Bytes) (small : n < nanosPerSec)
    : parseFraction (padded n) path = .ok n := by
  have length := length_padded small
  have whole : (padded n).take 9 = padded n := List.take_of_length_le (Nat.le_of_eq length)
  rw [parseFraction_eq path (padded_ne_nil n) (allDigits_padded n), whole, length, decimal_padded]
  simp

/-- A time of a whole second comes back from its text. -/
theorem parsePaxTime_signed {secs : Int} (path : Bytes) (fits : -2 ^ 63 ≤ secs ∧ secs < 2 ^ 63)
    : parsePaxTime (signed secs) path = .ok (some ⟨secs, 0⟩) := by
  have free : dot ∉ signed secs := fun member => (ascii_signed member).2 rfl
  rw [parsePaxTime_eq (decode_ascii fun _ member => (ascii_signed member).1) (splitOnce_free free)
    (parseI64_signed fits) (show parseFraction [] path = .ok 0 from rfl) (Nat.zero_le _) (.inr rfl),
    if_neg (fun below => below.1 rfl)]

/-- What a fraction behind a number of seconds is read as. -/
theorem parsePaxTime_fraction {secsText : Bytes} {secs : Int} {n : Nat} (path : Bytes)
    (ascii : ∀ byte ∈ secsText, byte.toNat < 0x80 ∧ byte ≠ dot)
    (seconds : parseI64 secsText = some secs) (room : -2 ^ 63 ≤ secs - 1 ∨ n = 0)
    (small : n < nanosPerSec)
    : parsePaxTime (secsText ++ dot :: padded n) path
      = .ok (some (if n ≠ 0 ∧ (secs < 0 ∨ secsText.head? = some minus) then
          ⟨secs - 1, nanosPerSec - n⟩ else ⟨secs, n⟩)) := by
  have free : dot ∉ secsText := fun member => (ascii dot member).2 rfl
  have text : (Utf.decode (secsText ++ dot :: padded n)).isNone = false := by
    refine decode_ascii fun byte member => ?_
    rcases List.mem_append.mp member with front | back
    · exact (ascii byte front).1
    · rcases List.mem_cons.mp back with rfl | back
      · decide
      · exact (ascii_of_allDigits (allDigits_padded n) back).1
  exact parsePaxTime_eq text (splitOnce_dot free) seconds (parseFraction_padded path small)
    small.le room

/-- The text of a time below a whole second is read as the time. -/
theorem parsePaxTime_paxTime {secs : Int} {nanos : Nat} (path : Bytes)
    (fits : -2 ^ 63 ≤ secs ∧ secs < 2 ^ 63)
    (normal : secs + (nanos / nanosPerSec : Nat) < 2 ^ 63)
    : parsePaxTime (paxTime ⟨secs, nanos⟩) path
      = .ok (some ⟨secs + (nanos / nanosPerSec : Nat), nanos % nanosPerSec⟩) := by
  have small : nanos % nanosPerSec < nanosPerSec := Nat.mod_lt _ (by decide)
  unfold paxTime
  dsimp only
  generalize nanos / nanosPerSec = carry at normal ⊢
  generalize nanos % nanosPerSec = nanos at small ⊢
  have sum : saturatingAdd secs carry = secs + carry := by
    unfold saturatingAdd
    omega
  have fits_ : -2 ^ 63 ≤ secs + carry ∧ secs + carry < 2 ^ 63 := by omega
  rw [sum]
  generalize secs + (carry : Int) = secs at fits_ ⊢
  by_cases whole : nanos = 0
  · rw [if_pos whole, whole, parsePaxTime_signed path fits_]
  · rw [if_neg whole]
    by_cases negative : secs < 0
    · rw [if_pos negative]
      have rest : nanosPerSec - nanos < nanosPerSec := by omega
      have back : nanosPerSec - (nanosPerSec - nanos) = nanos := by omega
      by_cases last : secs + 1 = 0
      · have text : ∀ byte ∈ [minus, zero], byte.toNat < 0x80 ∧ byte ≠ dot := by
          intro byte member
          rcases List.mem_pair.mp member with rfl | rfl
          · exact ⟨by decide, by decide⟩
          · exact ⟨by decide, by decide⟩
        have zero_ : parseI64 [minus, zero] = some 0 := by decide
        have read := parsePaxTime_fraction path text zero_ (.inl (by decide)) rest
        rw [if_pos ⟨by omega, .inr rfl⟩, back] at read
        rw [if_pos last, show secs = 0 - 1 by omega]
        exact read
      · have read := parsePaxTime_fraction path (fun _ member => ascii_signed member)
          (parseI64_signed (show -2 ^ 63 ≤ secs + 1 ∧ secs + 1 < 2 ^ 63 by omega))
          (.inl (by omega)) rest
        rw [if_pos ⟨by omega, .inl (by omega)⟩, back, Int.add_sub_cancel] at read
        rw [if_neg last]
        exact read
    · have noMinus : (signed secs).head? ≠ some minus := by
        rw [signed, if_neg negative]
        exact fun same => Bool.eq_false_iff.mp (head_of_allDigits (allDigits_digits _)
          (show isAsciiDigit minus = false by decide)) (beq_iff_eq.mpr same)
      have read := parsePaxTime_fraction path (fun _ member => ascii_signed member)
        (parseI64_signed fits_) (.inl (by omega)) small
      rw [if_neg (fun below => below.2.elim negative noMinus)] at read
      rw [if_neg negative]
      exact read

/-- A fraction is refused or is less than a second. -/
theorem parseFraction_yields (frac path : Bytes)
    : Yields (parseFraction frac path) (· < nanosPerSec) := by
  by_cases empty : frac = []
  · rw [empty]
    exact yields_ok (by decide)
  · by_cases valid : frac.all isAsciiDigit = true
    · have all : AllDigits (frac.take 9) := fun byte member =>
        List.all_eq_true.mp valid byte (List.mem_of_mem_take member)
      have length : (frac.take 9).length ≤ 9 := by
        rw [List.length_take]
        omega
      rw [parseFraction_eq path empty (List.all_eq_true.mp valid)]
      refine yields_ok ?_
      calc decimal (frac.take 9) * 10 ^ (9 - (frac.take 9).length)
          < 10 ^ (frac.take 9).length * 10 ^ (9 - (frac.take 9).length) :=
            Nat.mul_lt_mul_of_pos_right (decimal_lt all) (Nat.pow_pos (by decide))
        _ = nanosPerSec := by
            rw [← Nat.pow_add, Nat.add_sub_cancel' length]
            rfl
    · have filled : frac.isEmpty = false := List.isEmpty_eq_false_iff.mpr empty
      rw [parseFraction, filled, if_neg Bool.false_ne_true, Bool.eq_false_iff.mpr valid]
      exact yields_refused

/-- Steps that answer with anything hold to the least postcondition. -/
theorem yields_any_refuseIf (bad : Bool) (error : ArchiveError)
    : Yields (Machine.refuseIf bad error) fun _ => True := by
  cases bad with
  | false => exact yields_ok trivial
  | true => exact yields_refused

theorem yields_any_okOr {α : Type} (value : Option α) (error : ArchiveError)
    : Yields (okOr value (.refused error)) fun _ => True :=
  yields_okOr fun _ _ => trivial

theorem yields_any_sub {a b : Nat} (within : b ≤ a)
    : Yields (sub (ε := ArchiveError) .checked a b) fun _ => True :=
  yields_sub within trivial

/-- No value makes the parse of a time overflow. -/
theorem parsePaxTime_yields (value path : Bytes)
    : Yields (parsePaxTime value path) fun _ => True := by
  unfold parsePaxTime
  refine (yields_any_refuseIf _ _).bind fun _ _ => ?_
  refine (yields_any_okOr _ _).bind fun secs _ => ?_
  refine (parseFraction_yields _ path).bind fun nanos small => ?_
  refine yields_ite (fun _ => ?_) fun _ => yields_ok trivial
  refine (yields_any_refuseIf _ _).bind fun _ _ => ?_
  exact (yields_any_sub (Nat.le_of_lt small)).bind fun _ _ => yields_ok trivial

/-- The text of a time is read as the time, its fraction carried into the seconds where it is a
second or more; and no value at all makes the parse overflow.
-/
theorem paxTime_exact
    : (∀ (secs : Int64) (nanos : UInt32) (path : Bytes), nanos.toNat < nanosPerSec
        → parsePaxTime (paxTime ⟨secs.toInt, nanos.toNat⟩) path
          = .ok (some ⟨secs.toInt, nanos.toNat⟩))
      ∧ (∀ (secs : Int64) (nanos : UInt32) (path : Bytes),
        secs.toInt + (nanos.toNat / nanosPerSec : Nat) < 2 ^ 63
        → parsePaxTime (paxTime ⟨secs.toInt, nanos.toNat⟩) path
          = .ok (some ⟨secs.toInt + (nanos.toNat / nanosPerSec : Nat),
              nanos.toNat % nanosPerSec⟩))
      ∧ ∀ value path : Bytes, parsePaxTime value path ≠ .error .panicked := by
  refine ⟨fun secs nanos path small => ?_, fun secs _ path normal => ?_, fun value path =>
    (parsePaxTime_yields value path).1⟩
  · have read := @parsePaxTime_paxTime secs.toInt nanos.toNat path ⟨secs.le_toInt, secs.toInt_lt⟩
    rw [Nat.div_eq_of_lt small, Nat.mod_eq_of_lt small] at read
    simpa using read (by simpa using secs.toInt_lt)
  · exact parsePaxTime_paxTime path ⟨secs.le_toInt, secs.toInt_lt⟩ normal

-- A time within the last second before the epoch, and one at the least second.
example : paxTime ⟨-1, 750000000⟩ = [0x2D, 0x30, 0x2E, 0x32, 0x35] ++ List.replicate 7 zero := by
  decide +kernel

end Ferrosys.Archive.Times
