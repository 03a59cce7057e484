import Mathlib.Data.Int.Notation
import Mathlib.Tactic.Linarith

/-! Wall-clock time: an instant on the Unix timeline, the calendar that reads it, and the packed
words FAT and exFAT record one in.
-/

namespace Ferrosys

def secsPerDay : Int := 86400
def daysPerEra : Int := 146097
def daysEpochToShifted : Int := 719468

structure Timestamp where
  secs : Int
  nanos : Nat
deriving DecidableEq

/-- A calendar position, which an instant produced or a caller assembled. -/
structure Civil where
  year : Int
  month : Nat
  day : Nat
  hour : Nat
  minute : Nat
  second : Nat
deriving DecidableEq

namespace Civil

/-- The calendar position of an instant. -/
def atSecs (secs : Int) : Civil :=
  let days := secs / secsPerDay
  let rem := secs % secsPerDay
  let shifted := days + daysEpochToShifted
  let era := shifted / daysPerEra
  let dayOfEra := shifted % daysPerEra
  let yearOfEra := (dayOfEra - dayOfEra / 1460 + dayOfEra / 36524 - dayOfEra / 146096) / 365
  let dayOfYear := dayOfEra - (365 * yearOfEra + yearOfEra / 4 - yearOfEra / 100)
  -- The month in the shifted year, where 0 is March.
  let shiftedMonth := (5 * dayOfYear + 2) / 153
  let day := (dayOfYear - (153 * shiftedMonth + 2) / 5 + 1).toNat
  let month := (if shiftedMonth < 10 then shiftedMonth + 3 else shiftedMonth - 9).toNat
  {
    year := yearOfEra + era * 400 + (if month ≤ 2 then 1 else 0)
    month, day
    hour := (rem / 3600).toNat
    minute := (rem / 60 % 60).toNat
    second := (rem % 60).toNat
  }

/-- The instant a calendar position is, whether or not the calendar has it. -/
def toSecs (self : Civil) : Int :=
  let year := self.year - (if self.month ≤ 2 then 1 else 0)
  let era := year / 400
  let yearOfEra := year % 400
  let shiftedMonth : Nat := if self.month > 2 then self.month - 3 else self.month + 9
  let dayOfYear : Int := (153 * (shiftedMonth : Int) + 2) / 5 + self.day - 1
  let dayOfEra := 365 * yearOfEra + yearOfEra / 4 - yearOfEra / 100 + dayOfYear
  let days := era * daysPerEra + dayOfEra - daysEpochToShifted
  days * secsPerDay + self.hour * 3600 + self.minute * 60 + self.second

end Civil

/-- A date word and a time word, with hundredths of a second past the two-second unit. -/
structure DosTimestamp where
  date : Nat
  time : Nat
  tenth : Nat
deriving DecidableEq

namespace DosTimestamp

def maxTenth : Nat := 199
def secondsPerUnit : Nat := 2

/-- The calendar position the two words spell, field for field. -/
def civil (self : DosTimestamp) : Civil where
  year := 1980 + self.date / 2 ^ 9
  month := self.date / 2 ^ 5 % 2 ^ 4
  day := self.date % 2 ^ 5
  hour := self.time / 2 ^ 11
  minute := self.time / 2 ^ 5 % 2 ^ 6
  second := self.time % 2 ^ 5 * secondsPerUnit

/-- The instant the fields describe, every one taken as it is found. -/
def decode (self : DosTimestamp) : Timestamp where
  secs := self.civil.toSecs + self.tenth / 100
  nanos := self.tenth % 100 * 10000000

/-- Every field holds a value the encoding defines for it: the calendar has the date it spells. -/
def isWellFormed (self : DosTimestamp) : Bool :=
  if self.tenth > maxTenth then false
  else
    let stated := self.civil
    Civil.atSecs stated.toSecs == stated

end DosTimestamp

-- 2015-03-14T09:26:52Z, and the date an entry of zero bytes spells, which no calendar has.
example : DosTimestamp.decode ⟨0x466E, 0x4B5A, 0⟩ = ⟨1426325212, 0⟩ := by decide +kernel
example : DosTimestamp.isWellFormed ⟨0, 0, 0⟩ = false := by decide +kernel

end Ferrosys
