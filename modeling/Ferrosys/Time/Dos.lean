import Ferrosys.Time.Calendar

/-! The packed words FAT and exFAT record a time in: what an instant is encoded as, and the words
some instant is encoded as.
-/

namespace Ferrosys.DosTimestamp

open Civil

/-- The first instant the encoding represents: 1980-01-01T00:00:00Z. -/
def secsMin : Int := 315532800

/-- The last instant the encoding represents: 2107-12-31T23:59:58Z. -/
def secsMax : Int := 4354819198

/-- Whether the instant is one the encoding represents. -/
def represents (time : Timestamp) : Bool := time.secs ≥ secsMin && time.secs ≤ secsMax

/-- The words and the hundredths an instant is recorded as. The seconds field rounds down to a unit
of two, and what that drops is in the hundredths, a fraction past a second cut to what they hold.
-/
def encode (time : Timestamp) : Option DosTimestamp :=
  if !represents time then none
  else
    let c := atSecs time.secs
    let year := ((c.year - 1980) % 2 ^ 16).toNat
    let hundredths := c.second % 2 * 100 + min (time.nanos / 10000000) 99
    some {
      date := (year <<< 9) % 2 ^ 16 ||| (c.month <<< 5) % 2 ^ 16 ||| c.day
      time := (c.hour <<< 11) % 2 ^ 16 ||| (c.minute <<< 5) % 2 ^ 16 ||| c.second / 2
      tenth := min hundredths maxTenth
    }

/-- The two words and the byte a directory entry holds. -/
def ofWords (date time : UInt16) (tenth : UInt8) : DosTimestamp :=
  ⟨date.toNat, time.toNat, tenth.toNat⟩

/-- Three fields packed side by side. -/
theorem packed {wide middle low a b : Nat} (middle_ : middle < 2 ^ a) (low_ : low < 2 ^ b)
    : (wide <<< (a + b) ||| middle <<< b) ||| low = wide * 2 ^ (a + b) + middle * 2 ^ b + low := by
  have shifted : wide <<< (a + b) ||| middle <<< b = (wide <<< a + middle) <<< b := by
    rw [Nat.shiftLeft_add, ← Nat.shiftLeft_or_distrib, ← Nat.shiftLeft_add_eq_or_of_lt middle_]
  rw [shifted, ← Nat.shiftLeft_add_eq_or_of_lt low_, Nat.shiftLeft_eq, Nat.shiftLeft_eq,
    Nat.add_mul, Nat.mul_assoc, ← Nat.pow_add]

/-- Later instants read as no earlier a year. -/
theorem year_le {secs later : Int} (le : secs ≤ later)
    : (atSecs secs).year ≤ (atSecs later).year := by
  rcases Int.lt_or_eq_of_le le with before | same
  · have ordered := atSecs_before before
    rw [Before, fields, fields, List.cons_lt_cons_iff] at ordered
    omega
  · rw [same]

/-- The years the date word counts. -/
theorem year_of_represents {secs : Int} (first : secsMin ≤ secs) (last : secs ≤ secsMax)
    : 1980 ≤ (atSecs secs).year ∧ (atSecs secs).year ≤ 2107 := by
  have start : (atSecs secsMin).year = 1980 := by decide
  have stop : (atSecs secsMax).year = 2107 := by decide
  exact ⟨start ▸ year_le first, stop ▸ year_le last⟩

/-- The words an instant in range is recorded as, as sums of their fields. -/
theorem encode_eq {time : Timestamp} (first : secsMin ≤ time.secs) (last : time.secs ≤ secsMax)
    : encode time
      = some {
          date := ((atSecs time.secs).year - 1980).toNat * 2 ^ 9 + (atSecs time.secs).month * 2 ^ 5
            + (atSecs time.secs).day
          time := (atSecs time.secs).hour * 2 ^ 11 + (atSecs time.secs).minute * 2 ^ 5
            + (atSecs time.secs).second / 2
          tenth := (atSecs time.secs).second % 2 * 100 + min (time.nanos / 10000000) 99
        } := by
  have stands := atSecs_inCalendar time.secs
  obtain ⟨lower, upper⟩ := year_of_represents first last
  have short := stands.day.2.trans (monthLength_le _ _)
  have month := stands.month
  have hour := stands.hour
  have minute := stands.minute
  have second := stands.second
  have held : represents time = true := by
    simp only [represents, ge_iff_le, Bool.and_eq_true, decide_eq_true_eq]
    exact ⟨first, last⟩
  unfold encode
  rw [held]
  generalize atSecs time.secs = c at *
  have year : ((c.year - 1980) % 2 ^ 16).toNat = (c.year - 1980).toNat := by omega
  have date := @packed (c.year - 1980).toNat c.month c.day 4 5 (by omega) (by omega)
  have words := @packed c.hour c.minute (c.second / 2) 6 5 (by omega) (by omega)
  have years : ((c.year - 1980).toNat <<< 9) % 2 ^ 16 = (c.year - 1980).toNat <<< 9 := by
    rw [Nat.shiftLeft_eq]
    omega
  have months : (c.month <<< 5) % 2 ^ 16 = c.month <<< 5 := by
    rw [Nat.shiftLeft_eq]
    omega
  have hours : (c.hour <<< 11) % 2 ^ 16 = c.hour <<< 11 := by
    rw [Nat.shiftLeft_eq]
    omega
  have minutes : (c.minute <<< 5) % 2 ^ 16 = c.minute <<< 5 := by
    rw [Nat.shiftLeft_eq]
    omega
  have clamped : min (c.second % 2 * 100 + min (time.nanos / 10000000) 99) maxTenth
      = c.second % 2 * 100 + min (time.nanos / 10000000) 99 := by
    unfold maxTenth
    omega
  rw [Bool.not_true, if_neg Bool.false_ne_true]
  dsimp only
  rw [year, years, months, hours, minutes, clamped, date, words]

/-- The seconds of a date move with its seconds field. -/
theorem toSecs_second (civil : Civil) (second : Nat)
    : { civil with second }.toSecs = civil.toSecs - civil.second + second := by
  unfold toSecs
  dsimp only
  omega

/-- The fields of a date word. -/
theorem unpack_date {year month day : Nat} (month_ : month < 2 ^ 4) (day_ : day < 2 ^ 5)
    : (year * 2 ^ 9 + month * 2 ^ 5 + day) / 2 ^ 9 = year
      ∧ (year * 2 ^ 9 + month * 2 ^ 5 + day) / 2 ^ 5 % 2 ^ 4 = month
      ∧ (year * 2 ^ 9 + month * 2 ^ 5 + day) % 2 ^ 5 = day := by
  omega

/-- The fields of a time word. -/
theorem unpack_time {hour minute units : Nat} (minute_ : minute < 2 ^ 6) (units_ : units < 2 ^ 5)
    : (hour * 2 ^ 11 + minute * 2 ^ 5 + units) / 2 ^ 11 = hour
      ∧ (hour * 2 ^ 11 + minute * 2 ^ 5 + units) / 2 ^ 5 % 2 ^ 6 = minute
      ∧ (hour * 2 ^ 11 + minute * 2 ^ 5 + units) % 2 ^ 5 = units := by
  omega

/-- The fields come back from the words they were packed in. -/
theorem civil_packed {civil : Civil} {tenth : Nat} (stands : civil.InCalendar)
    (lower : 1980 ≤ civil.year)
    : DosTimestamp.civil
        ⟨(civil.year - 1980).toNat * 2 ^ 9 + civil.month * 2 ^ 5 + civil.day,
          civil.hour * 2 ^ 11 + civil.minute * 2 ^ 5 + civil.second / 2, tenth⟩
      = { civil with second := civil.second / 2 * 2 } := by
  have short := stands.day.2.trans (monthLength_le _ _)
  have month := stands.month
  have minute := stands.minute
  have second := stands.second
  obtain ⟨year_, month_, day_⟩ := @unpack_date (civil.year - 1980).toNat civil.month civil.day
    (by omega) (by omega)
  obtain ⟨hour_, minute_, second_⟩ := @unpack_time civil.hour civil.minute (civil.second / 2)
    (by omega) (by omega)
  have years : 1980 + ((civil.year - 1980).toNat : Int) = civil.year := by
    rw [Int.toNat_of_nonneg (Int.sub_nonneg_of_le lower), Int.add_comm, Int.sub_add_cancel]
  have yearInt : (((civil.year - 1980).toNat * 2 ^ 9 + civil.month * 2 ^ 5 + civil.day : Nat) : Int)
      / 2 ^ 9 = (civil.year - 1980).toNat := by
    exact_mod_cast congrArg (Nat.cast : Nat → Int) year_
  unfold DosTimestamp.civil
  dsimp only
  rw [yearInt, month_, day_, hour_, minute_, second_, years]
  rfl

/-- What is recorded of an instant is it, rounded down to a hundredth of a second. -/
theorem decode_encode {time : Timestamp} (first : secsMin ≤ time.secs)
    (last : time.secs ≤ secsMax) (proper : time.nanos < 1000000000)
    : (encode time).map decode
      = some ⟨time.secs, time.nanos / 10000000 * 10000000⟩ := by
  have back := toSecs_atSecs time.secs
  rw [encode_eq first last, Option.map_some, decode,
    civil_packed (atSecs_inCalendar _) (year_of_represents first last).1, toSecs_second, back]
  generalize (atSecs time.secs).second = second
  have odd : (second % 2 * 100 + min (time.nanos / 10000000) 99) / 100 = second % 2 := by omega
  have rest : (second % 2 * 100 + min (time.nanos / 10000000) 99) % 100
      = time.nanos / 10000000 := by omega
  have oddInt : ((second % 2 * 100 + min (time.nanos / 10000000) 99 : Nat) : Int) / 100
      = (second % 2 : Nat) := by
    exact_mod_cast congrArg (Nat.cast : Nat → Int) odd
  have whole : time.secs - second + (second / 2 * 2 : Nat) + (second % 2 : Nat) = time.secs := by
    omega
  dsimp only
  rw [oddInt, rest, whole]

/-- The words are well formed exactly where the calendar has the date and time they spell. -/
theorem isWellFormed_iff {self : DosTimestamp}
    : self.isWellFormed = true ↔ self.tenth ≤ maxTenth ∧ self.civil.InCalendar := by
  unfold isWellFormed
  by_cases beyond : self.tenth > maxTenth
  · rw [if_pos beyond]
    exact ⟨fun held => absurd held Bool.false_ne_true, fun held => absurd held.1 (by omega)⟩
  · rw [if_neg beyond]
    refine (beq_iff_eq).trans ⟨fun same => ⟨by omega, ?_⟩, fun held => atSecs_toSecs held.2⟩
    rw [← same]
    exact atSecs_inCalendar _

/-- The date and time of the last two seconds the words spell. -/
theorem last_civil : atSecs secsMax = ⟨2107, 12, 31, 23, 59, 58⟩ := by decide

theorem first_civil : atSecs secsMin = ⟨1980, 1, 1, 0, 0, 0⟩ := by decide

/-- A date of the calendar the words spell lies in their range. -/
theorem secs_bounds {civil : Civil} (stands : civil.InCalendar) (lower : 1980 ≤ civil.year)
    (upper : civil.year ≤ 2107) (even : civil.second % 2 = 0)
    : secsMin ≤ civil.toSecs ∧ civil.toSecs ≤ secsMax := by
  have same := atSecs_toSecs stands
  have short := stands.day.2.trans (monthLength_le _ _)
  obtain ⟨⟨january, december⟩, ⟨first, -⟩, hour, minute, second⟩ := stands
  constructor
  · by_contra early
    have before := atSecs_before (Int.not_le.mp early)
    rw [same, first_civil] at before
    simp only [Before, fields, List.cons_lt_cons_iff, List.not_lt_nil, and_false, or_false]
      at before
    omega
  · by_contra late
    have before := atSecs_before (Int.not_le.mp late)
    rw [same, last_civil] at before
    simp only [Before, fields, List.cons_lt_cons_iff, List.not_lt_nil, and_false, or_false]
      at before
    omega

/-- What two words of sixteen bits spell: a year the date word counts and an even second. -/
theorem civil_bounds {self : DosTimestamp} (date : self.date < 2 ^ 16)
    : 1980 ≤ self.civil.year ∧ self.civil.year ≤ 2107 ∧ self.civil.second % 2 = 0 := by
  unfold civil secondsPerUnit
  dsimp only
  omega

theorem date_parts (date : Nat)
    : date / 2 ^ 9 * 2 ^ 9 + date / 2 ^ 5 % 2 ^ 4 * 2 ^ 5 + date % 2 ^ 5 = date := by
  omega

theorem time_parts (time : Nat)
    : time / 2 ^ 11 * 2 ^ 11 + time / 2 ^ 5 % 2 ^ 6 * 2 ^ 5 + time % 2 ^ 5 * 2 / 2 = time := by
  omega

/-- Words are what their fields are packed in. -/
theorem repacked (self : DosTimestamp)
    : (⟨(self.civil.year - 1980).toNat * 2 ^ 9 + self.civil.month * 2 ^ 5 + self.civil.day,
        self.civil.hour * 2 ^ 11 + self.civil.minute * 2 ^ 5 + self.civil.second / 2, self.tenth⟩
      : DosTimestamp) = self := by
  have year : (self.civil.year - 1980).toNat = self.date / 2 ^ 9 := by
    have counted : self.civil.year = 1980 + (self.date : Int) / 2 ^ 9 := rfl
    rw [counted, Int.add_comm, Int.add_sub_cancel]
    exact_mod_cast Int.toNat_natCast (self.date / 2 ^ 9)
  have month : self.civil.month = self.date / 2 ^ 5 % 2 ^ 4 := rfl
  have day : self.civil.day = self.date % 2 ^ 5 := rfl
  have hour : self.civil.hour = self.time / 2 ^ 11 := rfl
  have minute : self.civil.minute = self.time / 2 ^ 5 % 2 ^ 6 := rfl
  have second : self.civil.second = self.time % 2 ^ 5 * 2 := rfl
  rw [year, month, day, hour, minute, second, date_parts, time_parts]

/-- The words of the last odd second, which no instant is recorded as. -/
def IsLastOdd (self : DosTimestamp) : Prop :=
  self.civil = ⟨2107, 12, 31, 23, 59, 58⟩ ∧ 100 ≤ self.tenth

/-- Words that are well formed are those of the instant they describe, short of the last odd second.
-/
theorem encode_decode {self : DosTimestamp} (date : self.date < 2 ^ 16)
    (held : self.isWellFormed = true) (short : ¬self.IsLastOdd)
    : encode self.decode = some self := by
  obtain ⟨tenths, stands⟩ := isWellFormed_iff.mp held
  obtain ⟨lower, upper, even⟩ := civil_bounds date
  obtain ⟨first, last⟩ := secs_bounds stands lower upper even
  unfold maxTenth at tenths
  have second := stands.second
  have odd : { self.civil with second := self.civil.second + self.tenth / 100 }.InCalendar :=
    ⟨stands.month, stands.day, stands.hour, stands.minute, by
      change self.civil.second + self.tenth / 100 < 60
      omega⟩
  have secs : { self.civil with second := self.civil.second + self.tenth / 100 }.toSecs
      = self.decode.secs := by
    rw [toSecs_second, decode]
    push_cast
    omega
  have reads := atSecs_toSecs odd
  rw [secs] at reads
  have decoded : self.decode.secs = self.civil.toSecs + self.tenth / 100 := rfl
  have stop : self.decode.secs ≤ secsMax := by
    by_contra beyond
    have reached : self.civil.toSecs = secsMax ∧ 100 ≤ self.tenth := by omega
    refine short ⟨?_, reached.2⟩
    rw [← atSecs_toSecs stands, reached.1, last_civil]
  have start : secsMin ≤ self.decode.secs := by omega
  have nanos : self.decode.nanos = self.tenth % 100 * 10000000 := rfl
  have hundredths : (self.civil.second + self.tenth / 100) % 2 * 100
      + min (self.tenth % 100 * 10000000 / 10000000) 99 = self.tenth := by
    clear decoded nanos secs reads stop start first last short
    omega
  have units : (self.civil.second + self.tenth / 100) / 2 = self.civil.second / 2 := by
    clear decoded nanos secs reads stop start first last short hundredths
    omega
  rw [encode_eq start stop, reads]
  dsimp only
  rw [units, nanos, hundredths, repacked]

/-- What is recorded lies in range. -/
theorem represents_of_encode {self : DosTimestamp} {time : Timestamp}
    (recorded : encode time = some self) : secsMin ≤ time.secs ∧ time.secs ≤ secsMax := by
  by_contra outside
  have refused : represents time = false := by
    simp only [represents, ge_iff_le, Bool.and_eq_false_iff, decide_eq_false_iff_not]
    exact not_and_or.mp outside
  rw [encode, refused] at recorded
  exact absurd recorded.symm (Option.some_ne_none self)

/-- No instant is recorded as the last odd second. -/
theorem not_isLastOdd_of_encode {self : DosTimestamp} {time : Timestamp}
    (recorded : encode time = some self) : ¬self.IsLastOdd := by
  rintro ⟨spelt, odd⟩
  have held := represents_of_encode recorded
  have stands := atSecs_inCalendar time.secs
  have years := year_of_represents held.1 held.2
  rw [encode_eq held.1 held.2] at recorded
  obtain rfl := Option.some.inj recorded
  rw [civil_packed stands years.1, Civil.mk.injEq] at spelt
  have back := toSecs_atSecs time.secs
  have late : atSecs time.secs = ⟨2107, 12, 31, 23, 59, 59⟩ := by
    obtain ⟨year, month, day, hour, minute, even⟩ := spelt
    dsimp only at odd
    have second : (atSecs time.secs).second = 59 := by omega
    have fields_ : atSecs time.secs = ⟨(atSecs time.secs).year, (atSecs time.secs).month,
      (atSecs time.secs).day, (atSecs time.secs).hour, (atSecs time.secs).minute,
      (atSecs time.secs).second⟩ := rfl
    rw [fields_, year, month, day, hour, minute, second]
  have beyond : Civil.toSecs ⟨2107, 12, 31, 23, 59, 59⟩ = secsMax + 1 := by decide +kernel
  rw [late, beyond] at back
  omega

/-- What an instant is recorded as is well formed. -/
theorem isWellFormed_of_encode {self : DosTimestamp} {time : Timestamp}
    (recorded : encode time = some self) : self.isWellFormed = true := by
  have held := represents_of_encode recorded
  have stands := atSecs_inCalendar time.secs
  have years := year_of_represents held.1 held.2
  rw [encode_eq held.1 held.2] at recorded
  obtain rfl := Option.some.inj recorded
  have second := stands.second
  refine isWellFormed_iff.mpr ⟨?_, ?_⟩
  · unfold maxTenth
    dsimp only
    omega
  · rw [civil_packed stands years.1]
    refine ⟨stands.month, stands.day, stands.hour, stands.minute, ?_⟩
    dsimp only
    omega

/-- The last odd second by its words. -/
theorem isLastOdd_ofWords {date time : UInt16} {tenth : UInt8}
    : (ofWords date time tenth).IsLastOdd ↔ date = 0xFF9F ∧ time = 0xBF7D ∧ 100 ≤ tenth.toNat := by
  have spelt : civil ⟨0xFF9F, 0xBF7D, tenth.toNat⟩ = ⟨2107, 12, 31, 23, 59, 58⟩ := by
    have alone : civil ⟨0xFF9F, 0xBF7D, 0⟩ = ⟨2107, 12, 31, 23, 59, 58⟩ := by decide
    exact alone
  constructor
  · rintro ⟨same, odd⟩
    have words := repacked (ofWords date time tenth)
    rw [same] at words
    have date_ : 0xFF9F = date.toNat := congrArg DosTimestamp.date words
    have time_ : 0xBF7D = time.toNat := congrArg DosTimestamp.time words
    exact ⟨UInt16.toNat.inj date_.symm, UInt16.toNat.inj time_.symm, odd⟩
  · rintro ⟨rfl, rfl, odd⟩
    exact ⟨spelt, odd⟩

/-- The words some instant is recorded as are the well-formed ones, short of the last odd second of
the last year; and what is recorded of an instant in range is it, rounded down to a hundredth of a
second.
-/
theorem encoded_iff_wellFormed
    : (∀ (date time : UInt16) (tenth : UInt8),
        (∃ instant : Timestamp, instant.nanos < 2 ^ 32
          ∧ encode instant = some (ofWords date time tenth))
        ↔ (ofWords date time tenth).isWellFormed = true
          ∧ ¬(date = 0xFF9F ∧ time = 0xBF7D ∧ 100 ≤ tenth.toNat))
      ∧ ∀ instant : Timestamp, secsMin ≤ instant.secs → instant.secs ≤ secsMax
        → instant.nanos < 1000000000
        → (encode instant).map decode
          = some ⟨instant.secs, instant.nanos / 10000000 * 10000000⟩ := by
  refine ⟨fun date time tenth => ?_, fun _ first last proper => decode_encode first last proper⟩
  rw [← isLastOdd_ofWords]
  constructor
  · rintro ⟨instant, -, recorded⟩
    exact ⟨isWellFormed_of_encode recorded, not_isLastOdd_of_encode recorded⟩
  · rintro ⟨held, short⟩
    have small : (ofWords date time tenth).decode.nanos < 2 ^ 32 := by
      unfold decode
      dsimp only
      omega
    exact ⟨_, small, encode_decode date.toNat_lt held short⟩

/-- The last odd second has well-formed words no instant is recorded as. -/
theorem lastOdd_not_encoded
    : (ofWords 0xFF9F 0xBF7D 100).isWellFormed = true
      ∧ ¬∃ instant : Timestamp, encode instant = some (ofWords 0xFF9F 0xBF7D 100) := by
  refine ⟨by decide +kernel, ?_⟩
  rintro ⟨instant, recorded⟩
  exact not_isLastOdd_of_encode recorded ⟨rfl, Nat.le_refl 100⟩

end Ferrosys.DosTimestamp
