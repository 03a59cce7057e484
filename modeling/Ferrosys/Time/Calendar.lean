import Ferrosys.Time

/-! The proleptic Gregorian calendar, stated by its months and its leap rule, and the closed forms
that go between it and the seconds of the Unix timeline.
-/

namespace Ferrosys

/-- The Gregorian leap rule. -/
def isLeapYear (year : Int) : Bool := year % 4 = 0 && (year % 100 ≠ 0 || year % 400 = 0)

/-- The days of a month. -/
def monthLength (year : Int) (month : Nat) : Nat :=
  match month with
  | 2 => if isLeapYear year then 29 else 28
  | 4 | 6 | 9 | 11 => 30
  | _ => 31

theorem monthLength_le (year : Int) (month : Nat) : monthLength year month ≤ 31 := by
  unfold monthLength
  split
  · split <;> decide
  all_goals decide

namespace Civil

/-- A date the calendar has, at a time the clock has. -/
structure InCalendar (civil : Civil) : Prop where
  month : 1 ≤ civil.month ∧ civil.month ≤ 12
  day : 1 ≤ civil.day ∧ civil.day ≤ monthLength civil.year civil.month
  hour : civil.hour < 24
  minute : civil.minute < 60
  second : civil.second < 60

/-- The date a day later, at the same time of day. -/
def tomorrow (self : Civil) : Civil :=
  if self.day < monthLength self.year self.month then { self with day := self.day + 1 }
  else if self.month < 12 then { self with month := self.month + 1, day := 1 }
  else { self with year := self.year + 1, month := 1, day := 1 }

/-- The date and time a second later. -/
def tick (self : Civil) : Civil :=
  if self.second < 59 then { self with second := self.second + 1 }
  else if self.minute < 59 then { self with minute := self.minute + 1, second := 0 }
  else if self.hour < 23 then { self with hour := self.hour + 1, minute := 0, second := 0 }
  else { self.tomorrow with hour := 0, minute := 0, second := 0 }

/-- The fields, the widest first: what dates are ordered by. -/
def fields (self : Civil) : List Int :=
  [self.year, self.month, self.day, self.hour, self.minute, self.second]

/-- A date before another. -/
def Before (self later : Civil) : Prop := self.fields < later.fields

end Civil

/-- The date and time an instant reads as: counted second by second from the epoch, forwards and
back.
-/
inductive ReadsAs : Int → Civil → Prop where
  | epoch : ReadsAs 0 ⟨1970, 1, 1, 0, 0, 0⟩
  | later {secs : Int} {civil : Civil} : ReadsAs secs civil → ReadsAs (secs + 1) civil.tick
  | earlier {secs : Int} {civil : Civil} (stands : civil.InCalendar)
    : ReadsAs (secs + 1) civil.tick → ReadsAs secs civil

namespace Calendar

/-- Days from the start of year 0 to the start of a year, where years begin in March. -/
def yearDays (year : Int) : Int := 365 * year + year / 4 - year / 100 + year / 400

/-- The days of a year that begins in March, whose leap day is that of the year it ends in. -/
def yearLength (year : Int) : Int := if isLeapYear (year + 1) then 366 else 365

theorem isLeapYear_iff (year : Int)
    : isLeapYear year = true ↔ year % 4 = 0 ∧ (year % 100 ≠ 0 ∨ year % 400 = 0) := by
  simp [isLeapYear]

/-- The leap rule by digits: the fourth year of four, unless it ends a century that is not the
fourth.
-/
theorem yearLength_eq {year : Int} {era century quad rest : Int}
    (placed : year = 400 * era + 100 * century + 4 * quad + rest)
    (century_ : 0 ≤ century ∧ century ≤ 3) (quad_ : 0 ≤ quad ∧ quad ≤ 24)
    (rest_ : 0 ≤ rest ∧ rest ≤ 3)
    : yearLength year = if rest = 3 ∧ (quad = 24 → century = 3) then 366 else 365 := by
  have leap : isLeapYear (year + 1) = true ↔ rest = 3 ∧ (quad = 24 → century = 3) := by
    rw [isLeapYear_iff]
    omega
  by_cases held : isLeapYear (year + 1) = true
  · rw [yearLength, if_pos held, if_pos (leap.mp held)]
  · rw [yearLength, if_neg held, if_neg (fun digits => held (leap.mpr digits))]

/-- A year as so many eras, centuries, fours and years. -/
theorem exists_digits (year : Int)
    : ∃ era century quad rest : Int, year = 400 * era + 100 * century + 4 * quad + rest
      ∧ (0 ≤ century ∧ century ≤ 3) ∧ (0 ≤ quad ∧ quad ≤ 24) ∧ (0 ≤ rest ∧ rest ≤ 3) :=
  ⟨year / 400, year % 400 / 100, year % 100 / 4, year % 4, by omega, by omega, by omega, by omega⟩

/-- The days before a year by its digits. -/
theorem yearDays_eq {year : Int} {era century quad rest : Int}
    (placed : year = 400 * era + 100 * century + 4 * quad + rest)
    (century_ : 0 ≤ century ∧ century ≤ 3) (quad_ : 0 ≤ quad ∧ quad ≤ 24)
    (rest_ : 0 ≤ rest ∧ rest ≤ 3)
    : yearDays year = 146097 * era + 36524 * century + 1461 * quad + 365 * rest := by
  have quads : year / 4 = 100 * era + 25 * century + quad := by omega
  have centuries : year / 100 = 4 * era + century := by omega
  have eras : year / 400 = era := by omega
  rw [yearDays, quads, centuries, eras, placed]
  omega

theorem yearDays_succ (year : Int) : yearDays (year + 1) = yearDays year + yearLength year := by
  obtain ⟨era, century, quad, rest, digits, century_, quad_, rest_⟩ := exists_digits year
  rw [yearLength_eq digits century_ quad_ rest_]
  unfold yearDays
  split <;> omega

theorem yearLength_le (year : Int) : 365 ≤ yearLength year ∧ yearLength year ≤ 366 := by
  unfold yearLength
  split <;> decide

/-- The year within an era of a day there. -/
def yearOfEra (day : Int) : Int := (day - day / 1460 + day / 36524 - day / 146096) / 365

/-- The day of its year of a day of an era. -/
def dayOfYear (day : Int) : Int :=
  day - (365 * yearOfEra day + yearOfEra day / 4 - yearOfEra day / 100)

/-- The year within an era the closed form finds is the one the day lies in. -/
theorem yearOfEra_eq {day century quad rest dayOfYear : Int}
    (placed : day = 36524 * century + 1461 * quad + 365 * rest + dayOfYear)
    (century_ : 0 ≤ century ∧ century ≤ 3) (quad_ : 0 ≤ quad ∧ quad ≤ 24)
    (rest_ : 0 ≤ rest ∧ rest ≤ 3) (dayOfYear_ : 0 ≤ dayOfYear ∧ dayOfYear ≤ 365)
    (last : dayOfYear = 365 → rest = 3 ∧ (quad = 24 → century = 3))
    : yearOfEra day = 100 * century + 4 * quad + rest := by
  -- The day behind the last whole quad of a century, and that behind the last century, are each
  -- counted once too often.
  have whole : day / 146096 = if day = 146096 then 1 else 0 := by
    split <;> omega
  have centuries : day / 36524 = century + day / 146096 := by
    rw [whole]
    split <;> omega
  have quads : day / 1460
      = 25 * century + quad
        + if 24 * century + quad + 365 * rest + dayOfYear < 1460 then 0 else 1 := by
    split <;> omega
  rw [yearOfEra, centuries, quads]
  split <;> omega

/-- A day by its era and its place there. -/
theorem era_and_day {shifted era century quad rest dayOfYear : Int}
    (placed : shifted
      = 146097 * era + 36524 * century + 1461 * quad + 365 * rest + dayOfYear)
    (lower : 0 ≤ 36524 * century + 1461 * quad + 365 * rest + dayOfYear)
    (upper : 36524 * century + 1461 * quad + 365 * rest + dayOfYear < 146097)
    : shifted / daysPerEra = era
      ∧ shifted % daysPerEra = 36524 * century + 1461 * quad + 365 * rest + dayOfYear := by
  unfold daysPerEra
  omega

/-- A day past the three hundred and sixty-fifth lies in a leap year. -/
theorem digits_of_day {year era century quad rest dayOfYear : Int}
    (placed : year = 400 * era + 100 * century + 4 * quad + rest)
    (century_ : 0 ≤ century ∧ century ≤ 3) (quad_ : 0 ≤ quad ∧ quad ≤ 24)
    (rest_ : 0 ≤ rest ∧ rest ≤ 3) (inside : dayOfYear < yearLength year)
    : dayOfYear ≤ 365 ∧ (dayOfYear = 365 → rest = 3 ∧ (quad = 24 → century = 3)) := by
  rw [yearLength_eq placed century_ quad_ rest_] at inside
  split at inside
  next leap => exact ⟨by omega, fun _ => leap⟩
  next => exact ⟨by omega, by omega⟩

/-- Every day lies in one year. -/
theorem exists_yearDays (shifted : Int)
    : ∃ year dayOfYear, 0 ≤ dayOfYear ∧ dayOfYear < yearLength year
      ∧ shifted = yearDays year + dayOfYear := by
  let era := shifted / 146097
  let day := shifted % 146097
  let century := min 3 (day / 36524)
  let quad := (day - 36524 * century) / 1461
  let rest := min 3 ((day - 36524 * century) % 1461 / 365)
  let dayOfYear := (day - 36524 * century) % 1461 - 365 * rest
  refine ⟨400 * era + 100 * century + 4 * quad + rest, dayOfYear, by omega, ?_, ?_⟩
  · rw [yearLength_eq rfl (by omega) (by omega) (by omega)]
    split <;> omega
  · rw [yearDays_eq rfl (by omega) (by omega) (by omega)]
    omega

/-- The month of a day in a year that begins in March, counted from March. -/
def monthOf (dayOfYear : Int) : Int := (5 * dayOfYear + 2) / 153

/-- The date of a day in a year that begins in March. -/
def dated (year dayOfYear : Int) : Civil :=
  let shifted := monthOf dayOfYear
  let month := (if shifted < 10 then shifted + 3 else shifted - 9).toNat
  {
    year := year + (if month ≤ 2 then 1 else 0)
    month
    day := (dayOfYear - (153 * monthOf dayOfYear + 2) / 5 + 1).toNat
    hour := 0
    minute := 0
    second := 0
  }

/-- The closed form finds the year a day lies in, and the day there. -/
theorem year_and_day {shifted year day : Int} (start : 0 ≤ day) (inside : day < yearLength year)
    (placed : shifted = yearDays year + day)
    : yearOfEra (shifted % daysPerEra) + shifted / daysPerEra * 400 = year
      ∧ dayOfYear (shifted % daysPerEra) = day := by
  obtain ⟨era, century, quad, rest, digits, century_, quad_, rest_⟩ := exists_digits year
  obtain ⟨short, last⟩ := digits_of_day digits century_ quad_ rest_ inside
  rw [yearDays_eq digits century_ quad_ rest_] at placed
  have upper : 36524 * century + 1461 * quad + 365 * rest + day < 146097 := by
    clear placed digits
    omega
  obtain ⟨era_, ofEra⟩ := era_and_day placed (by omega) upper
  have found := yearOfEra_eq ofEra century_ quad_ rest_ ⟨start, short⟩ last
  have quads : (100 * century + 4 * quad + rest) / 4 = 25 * century + quad := by omega
  have centuries : (100 * century + 4 * quad + rest) / 100 = century := by omega
  refine ⟨by rw [found, era_, digits]; omega, ?_⟩
  rw [dayOfYear, found, quads, centuries, ofEra]
  omega

/-- The closed form reads the date off the year the day lies in. -/
theorem atSecs_eq {secs year day : Int} (start : 0 ≤ day) (inside : day < yearLength year)
    (placed : secs / secsPerDay + daysEpochToShifted = yearDays year + day)
    : Civil.atSecs secs
      = { dated year day with
          hour := (secs % secsPerDay / 3600).toNat
          minute := (secs % secsPerDay / 60 % 60).toNat
          second := (secs % secsPerDay % 60).toNat } := by
  obtain ⟨year_, day_⟩ := year_and_day start inside placed
  rw [← year_, ← day_]
  rfl

/-- Month and day of the month, by the day of a year that begins in March. -/
def monthDay (day : Nat) : Nat × Nat := ((dated 0 day).month, (dated 0 day).day)

/-- The length of a month of such a year, by whether its February has a leap day. -/
def lengthOf (leap : Bool) (month : Nat) : Nat :=
  if month = 2 then (if leap then 29 else 28) else monthLength 1 month

/-- The calendar has the date of a day of such a year. -/
def Stands (leap : Bool) (day : Nat) : Prop :=
  (1 ≤ (monthDay day).1 ∧ (monthDay day).1 ≤ 12)
  ∧ 1 ≤ (monthDay day).2 ∧ (monthDay day).2 ≤ lengthOf leap (monthDay day).1

/-- The next day's date is the next of the month, or the first of the next month. -/
def Steps (leap : Bool) (day : Nat) : Prop :=
  if (monthDay day).2 < lengthOf leap (monthDay day).1 then
    monthDay (day + 1) = ((monthDay day).1, (monthDay day).2 + 1)
  else if (monthDay day).1 < 12 then
    (monthDay day).1 ≠ 2 ∧ monthDay (day + 1) = ((monthDay day).1 + 1, 1)
  else (monthDay day).1 = 12 ∧ monthDay (day + 1) = (1, 1)

/-- The days of a year that begins in March, one by one. -/
theorem stands_of_lt : ∀ leap : Bool, ∀ day < (if leap then 366 else 365), Stands leap day := by
  unfold Stands
  decide +kernel

theorem steps_of_lt : ∀ leap : Bool, ∀ day < (if leap then 365 else 364), Steps leap day := by
  unfold Steps
  decide +kernel

/-- The day of such a year a month and a day of the month name. -/
def dayOf (month day : Nat) : Nat :=
  (153 * (if month > 2 then month - 3 else month + 9) + 2) / 5 + day - 1

/-- The day of a year a month and a day name, as the closed form has it. -/
theorem dayOf_cast {month day : Nat} (positive : 1 ≤ day)
    : (dayOf month day : Int)
      = (153 * ((if month > 2 then month - 3 else month + 9 : Nat) : Int) + 2) / 5 + day - 1 := by
  unfold dayOf
  generalize (if month > 2 then month - 3 else month + 9) = shifted
  omega

theorem dayOf_monthDay : ∀ day < 366, dayOf (monthDay day).1 (monthDay day).2 = day := by
  decide +kernel

theorem monthDay_dayOf (leap : Bool) {month day : Nat} (january : 1 ≤ month) (december : month ≤ 12)
    (first : 1 ≤ day) (last : day ≤ lengthOf leap month)
    : dayOf month day < (if leap then 366 else 365)
      ∧ monthDay (dayOf month day) = (month, day) := by
  have table : ∀ leap : Bool, ∀ month < 12, ∀ day < lengthOf leap (month + 1),
      dayOf (month + 1) (day + 1) < (if leap then 366 else 365)
        ∧ monthDay (dayOf (month + 1) (day + 1)) = (month + 1, day + 1) := by
    decide
  obtain ⟨month, rfl⟩ := Nat.exists_eq_add_of_le' january
  obtain ⟨day, rfl⟩ := Nat.exists_eq_add_of_le' first
  exact table leap month (by omega) day last

theorem dated_eq (year : Int) (day : Nat)
    : dated year day
      = {
          year := year + if (monthDay day).1 ≤ 2 then 1 else 0
          month := (monthDay day).1
          day := (monthDay day).2
          hour := 0
          minute := 0
          second := 0
        } := rfl

/-- The months of a year that begins in March have the lengths of the calendar's months. -/
theorem monthLength_eq (year : Int) (month : Nat)
    : monthLength (year + if month ≤ 2 then 1 else 0) month
      = lengthOf (isLeapYear (year + 1)) month := by
  unfold lengthOf
  by_cases february : month = 2
  · subst february
    rfl
  · rw [if_neg february]
    unfold monthLength
    split
    · exact absurd rfl february
    all_goals rfl

theorem yearLength_toNat {year : Int} {day : Nat}
    : (day : Int) < yearLength year ↔ day < (if isLeapYear (year + 1) then 366 else 365) := by
  unfold yearLength
  split <;> omega

/-- Every day of a year is a date of the calendar. -/
theorem dated_inCalendar {year : Int} {day : Nat} (inside : (day : Int) < yearLength year)
    : (dated year day).InCalendar := by
  have stands := stands_of_lt (isLeapYear (year + 1)) day (yearLength_toNat.mp inside)
  rw [dated_eq]
  refine ⟨stands.1, ?_, Nat.zero_lt_succ _, Nat.zero_lt_succ _, Nat.zero_lt_succ _⟩
  dsimp only
  rw [monthLength_eq]
  exact stands.2

/-- The date of the next day of a year. -/
theorem tomorrow_dated {year : Int} {day : Nat} (inside : (day : Int) + 1 < yearLength year)
    : (dated year day).tomorrow = dated year (day + 1 : Nat) := by
  have within : day < if isLeapYear (year + 1) then 365 else 364 := by
    unfold yearLength at inside
    split at inside <;> simp_all <;> omega
  have steps := steps_of_lt (isLeapYear (year + 1)) day within
  rw [dated_eq, dated_eq]
  unfold Civil.tomorrow
  dsimp only
  rw [monthLength_eq]
  unfold Steps at steps
  split at steps
  next short =>
    rw [if_pos short, steps]
  next long =>
    rw [if_neg long]
    split at steps
    next early =>
      rw [if_pos early, steps.2]
      have same : ((monthDay day).1 ≤ 2) ↔ ((monthDay day).1 + 1 ≤ 2) := by omega
      simp [same]
    next late =>
      rw [if_neg late, steps.2, steps.1]
      simp

/-- The date behind the last day of a year. -/
theorem tomorrow_dated_last {year : Int} {day : Nat} (last : (day : Int) + 1 = yearLength year)
    : (dated year day).tomorrow = dated (year + 1) 0 := by
  have march : monthDay 0 = (3, 1) := by decide
  have first : dated (year + 1) 0 = ⟨year + 1, 3, 1, 0, 0, 0⟩ := by
    have start := dated_eq (year + 1) 0
    rw [march] at start
    simpa using start
  unfold yearLength at last
  rw [first, dated_eq]
  unfold Civil.tomorrow
  dsimp only
  rw [monthLength_eq]
  split at last
  next leap =>
    obtain rfl : day = 365 := by omega
    have february : monthDay 365 = (2, 29) := by decide
    rw [leap, february]
    simp [lengthOf]
  next leap =>
    obtain rfl : day = 364 := by omega
    have february : monthDay 364 = (2, 28) := by decide
    rw [Bool.eq_false_iff.mpr leap, february]
    simp [lengthOf]

/-- A second later within a day. -/
theorem within_day {secs : Int} (within : secs % secsPerDay < 86399)
    : (secs + 1) / secsPerDay = secs / secsPerDay
      ∧ (secs + 1) % secsPerDay = secs % secsPerDay + 1 := by
  unfold secsPerDay at *
  omega

/-- A second past the last of a day. -/
theorem day_after {secs : Int} (last : ¬secs % secsPerDay < 86399)
    : secs % secsPerDay = 86399 ∧ (secs + 1) / secsPerDay = secs / secsPerDay + 1
      ∧ (secs + 1) % secsPerDay = 0 := by
  unfold secsPerDay at *
  omega

theorem rem_bounds (secs : Int) : 0 ≤ secs % secsPerDay ∧ secs % secsPerDay < 86400 := by
  unfold secsPerDay
  omega

/-- The date of an instant at a time of day given by the seconds into it. -/
def atTime (date : Civil) (rem : Int) : Civil :=
  { date with
    hour := (rem / 3600).toNat
    minute := (rem / 60 % 60).toNat
    second := (rem % 60).toNat }

/-- A second later within a day moves the time of day. -/
theorem tick_atTime (date : Civil) {rem : Int} (start : 0 ≤ rem) (within : rem < 86399)
    : (atTime date rem).tick = atTime date (rem + 1) := by
  have seconds : (rem % 60).toNat < 59 ∨ rem % 60 = 59 := by omega
  unfold atTime Civil.tick
  dsimp only
  rcases seconds with short | whole
  · rw [if_pos short]
    simp only [Civil.mk.injEq, true_and]
    omega
  · rw [if_neg (by omega)]
    have minutes : (rem / 60 % 60).toNat < 59 ∨ rem / 60 % 60 = 59 := by omega
    rcases minutes with short | whole_
    · rw [if_pos short]
      simp only [Civil.mk.injEq, true_and]
      omega
    · rw [if_neg (by omega), if_pos (by omega)]
      simp only [Civil.mk.injEq, true_and]
      omega

/-- A second past the last of a day is the start of the next. -/
theorem tick_atTime_last (date : Civil)
    : (atTime date 86399).tick = atTime date.tomorrow 0 := by
  have later : (atTime date 86399).tomorrow
      = { date.tomorrow with hour := 23, minute := 59, second := 59 } := by
    unfold Civil.tomorrow atTime
    dsimp only
    split
    · rfl
    · split <;> rfl
  unfold Civil.tick
  rw [later]
  rfl

end Calendar

namespace Civil

open Calendar

/-- The date an instant reads as, with the seconds into it. -/
theorem exists_dated (secs : Int)
    : ∃ (year : Int) (day : Nat), (day : Int) < yearLength year
      ∧ secs / secsPerDay + daysEpochToShifted = yearDays year + day
      ∧ atSecs secs = atTime (dated year day) (secs % secsPerDay) := by
  obtain ⟨year, day, start, inside, placed⟩ :=
    exists_yearDays (secs / secsPerDay + daysEpochToShifted)
  obtain ⟨day, rfl⟩ := Int.eq_ofNat_of_zero_le start
  exact ⟨year, day, inside, placed, atSecs_eq start inside placed⟩

/-- A second later the date is the next one of the calendar. -/
theorem atSecs_succ (secs : Int) : atSecs (secs + 1) = (atSecs secs).tick := by
  obtain ⟨year, day, inside, placed, reads⟩ := exists_dated secs
  rw [reads]
  by_cases within : secs % secsPerDay < 86399
  · obtain ⟨same, next⟩ := within_day within
    rw [tick_atTime _ (rem_bounds secs).1 within, ← next]
    exact atSecs_eq (Int.natCast_nonneg day) inside (by rw [same]; exact placed)
  · obtain ⟨last, days, midnight⟩ := day_after within
    rw [last, tick_atTime_last, ← midnight]
    by_cases more : (day : Int) + 1 < yearLength year
    · rw [tomorrow_dated more]
      refine atSecs_eq (Int.natCast_nonneg _) (by push_cast; exact more) ?_
      rw [days]
      push_cast
      omega
    · have end_ : (day : Int) + 1 = yearLength year := by omega
      rw [tomorrow_dated_last end_]
      have length := yearLength_le (year + 1)
      refine atSecs_eq (Int.le_refl 0) (by omega) ?_
      rw [days, yearDays_succ]
      omega

/-- Every instant reads as a date the calendar has. -/
theorem atSecs_inCalendar (secs : Int) : (atSecs secs).InCalendar := by
  obtain ⟨year, day, inside, placed, reads⟩ := exists_dated secs
  obtain ⟨month, dayOfMonth, -, -, -⟩ := dated_inCalendar inside
  have bounds := rem_bounds secs
  rw [reads]
  generalize secs % secsPerDay = rem at bounds
  refine ⟨month, dayOfMonth, ?_, ?_, ?_⟩
  · change (rem / 3600).toNat < 24
    omega
  · change (rem / 60 % 60).toNat < 60
    omega
  · change (rem % 60).toNat < 60
    omega

/-- The closed form back from a date to its year and its day there. -/
theorem toSecs_eq {self : Civil} (positive : 1 ≤ self.day)
    : self.toSecs
      = (yearDays (self.year - if self.month ≤ 2 then 1 else 0)
          + dayOf self.month self.day - daysEpochToShifted) * secsPerDay
        + self.hour * 3600 + self.minute * 60 + self.second := by
  unfold toSecs yearDays
  rw [dayOf_cast positive]
  dsimp only
  generalize (self.year - if self.month ≤ 2 then 1 else 0) = year
  have days (ofYear : Int) : year / 400 * daysPerEra
        + (365 * (year % 400) + year % 400 / 4 - year % 400 / 100 + ofYear) - daysEpochToShifted
      = 365 * year + year / 4 - year / 100 + year / 400 + ofYear - daysEpochToShifted := by
    unfold daysPerEra
    omega
  rw [days]

/-- The day an instant's date is. -/
theorem days_atSecs (secs : Int)
    : yearDays ((atSecs secs).year - if (atSecs secs).month ≤ 2 then 1 else 0)
        + dayOf (atSecs secs).month (atSecs secs).day - daysEpochToShifted
      = secs / secsPerDay := by
  obtain ⟨year, day, inside, placed, reads⟩ := exists_dated secs
  have month_ : (atSecs secs).month = (monthDay day).1 := by rw [reads]; rfl
  have day_ : (atSecs secs).day = (monthDay day).2 := by rw [reads]; rfl
  have year_ : (atSecs secs).year = year + if (monthDay day).1 ≤ 2 then 1 else 0 := by
    rw [reads]
    rfl
  have back := dayOf_monthDay day (by have := yearLength_le year; omega)
  rw [year_, month_, day_, back, Int.add_sub_cancel, ← placed, Int.add_sub_cancel]

/-- The seconds into its day an instant's time is. -/
theorem time_atSecs (secs : Int)
    : ((atSecs secs).hour : Int) * 3600 + (atSecs secs).minute * 60 + (atSecs secs).second
      = secs % secsPerDay := by
  have hour_ : (atSecs secs).hour = (secs % secsPerDay / 3600).toNat := rfl
  have minute_ : (atSecs secs).minute = (secs % secsPerDay / 60 % 60).toNat := rfl
  have second_ : (atSecs secs).second = (secs % secsPerDay % 60).toNat := rfl
  have bounds := rem_bounds secs
  rw [hour_, minute_, second_]
  generalize secs % secsPerDay = rem at bounds ⊢
  omega

/-- The seconds of an instant's date and time are the instant. -/
theorem toSecs_atSecs (secs : Int) : (atSecs secs).toSecs = secs := by
  have whole := Int.mul_ediv_add_emod secs secsPerDay
  rw [toSecs_eq (atSecs_inCalendar secs).day.1, days_atSecs, Int.add_assoc, Int.add_assoc,
    ← Int.add_assoc (_ * 3600), time_atSecs, Int.mul_comm, whole]

/-- A time of day read off its seconds. -/
theorem timeOfDay {hour minute second : Nat} (hour_ : hour < 24) (minute_ : minute < 60)
    (second_ : second < 60)
    : (((hour : Int) * 3600 + minute * 60 + second) / 3600).toNat = hour
      ∧ (((hour : Int) * 3600 + minute * 60 + second) / 60 % 60).toNat = minute
      ∧ (((hour : Int) * 3600 + minute * 60 + second) % 60).toNat = second := by
  omega

/-- The date and time of the seconds of a date and time the calendar has. -/
theorem atSecs_toSecs {self : Civil} (stands : self.InCalendar) : atSecs self.toSecs = self := by
  obtain ⟨⟨january, december⟩, ⟨first, last⟩, hour, minute, second⟩ := stands
  rw [toSecs_eq first]
  generalize dated_ : self.year - (if self.month ≤ 2 then 1 else 0) = year
  have year_ : self.year = year + if self.month ≤ 2 then 1 else 0 := by omega
  rw [year_, monthLength_eq] at last
  obtain ⟨inside, table⟩ := monthDay_dayOf (isLeapYear (year + 1)) january december first last
  have rem : secsPerDay = 86400 := rfl
  have days : ((yearDays year + dayOf self.month self.day - daysEpochToShifted) * secsPerDay
      + self.hour * 3600 + self.minute * 60 + self.second) / secsPerDay
      = yearDays year + dayOf self.month self.day - daysEpochToShifted := by
    rw [rem]
    omega
  have time : ((yearDays year + dayOf self.month self.day - daysEpochToShifted) * secsPerDay
      + self.hour * 3600 + self.minute * 60 + self.second) % secsPerDay
      = self.hour * 3600 + self.minute * 60 + self.second := by
    rw [rem]
    omega
  rw [atSecs_eq (Int.natCast_nonneg (dayOf self.month self.day)) (yearLength_toNat.mpr inside)
    (by rw [days, Int.sub_add_cancel]), time, dated_eq, table]
  obtain ⟨hour_, minute_, second_⟩ := timeOfDay hour minute second
  dsimp only
  rw [hour_, minute_, second_, ← year_]

/-- A date is before the next. -/
theorem before_tick (self : Civil) : self.Before self.tick := by
  unfold Before tick tomorrow fields
  simp only [List.cons_lt_cons_iff]
  split
  · simp
  · split
    · simp
    · split
      · simp
      · split
        · simp
        · split <;> simp

/-- Instants in order read as dates in order. -/
theorem atSecs_before {secs later : Int} (before : secs < later)
    : (atSecs secs).Before (atSecs later) := by
  obtain ⟨gap, rfl⟩ : ∃ gap : Nat, later = secs + 1 + gap := ⟨(later - secs - 1).toNat, by omega⟩
  clear before
  induction gap with
  | zero =>
      have next := before_tick (atSecs secs)
      rw [← atSecs_succ] at next
      simpa using next
  | succ gap ih =>
      have next := before_tick (atSecs (secs + 1 + gap))
      rw [← atSecs_succ] at next
      rw [Nat.cast_succ, ← Int.add_assoc]
      exact List.lt_trans ih next

/-- The epoch is the calendar's first of January 1970, and its other instants count from there. -/
theorem readsAs_atSecs (secs : Int) : ReadsAs secs (atSecs secs) := by
  have epoch : atSecs 0 = ⟨1970, 1, 1, 0, 0, 0⟩ := by decide +kernel
  induction secs using Int.induction_on with
  | zero =>
      rw [epoch]
      exact .epoch
  | succ secs ih =>
      rw [atSecs_succ]
      exact .later ih
  | pred secs ih =>
      refine .earlier (atSecs_inCalendar _) ?_
      rw [← atSecs_succ, Int.sub_add_cancel]
      exact ih

/-- No two dates of the calendar have one next. -/
theorem tick_injective {first second : Civil} (first_ : first.InCalendar)
    (second_ : second.InCalendar) (same : first.tick = second.tick) : first = second := by
  have next : atSecs (first.toSecs + 1) = atSecs (second.toSecs + 1) := by
    rw [atSecs_succ, atSecs_succ, atSecs_toSecs first_, atSecs_toSecs second_, same]
  have secs : first.toSecs + 1 = second.toSecs + 1 := by
    rw [← toSecs_atSecs (first.toSecs + 1), next, toSecs_atSecs]
  rw [← atSecs_toSecs first_, ← atSecs_toSecs second_, show first.toSecs = second.toSecs by omega]

/-- An instant reads as one date. -/
theorem readsAs_iff {secs : Int} {civil : Civil} : ReadsAs secs civil ↔ civil = atSecs secs := by
  refine ⟨fun reads => ?_, fun same => same ▸ readsAs_atSecs secs⟩
  induction reads with
  | epoch => decide
  | later _ ih => rw [ih, atSecs_succ]
  | earlier stands _ ih =>
      rw [atSecs_succ] at ih
      exact tick_injective stands (atSecs_inCalendar _) ih

/-- A sum or product in 64 bits, or none where it overflows. -/
def i64 (n : Int) : Option Int := if -2 ^ 63 ≤ n ∧ n < 2 ^ 63 then some n else none

/-- A number cut to 32 bits. -/
def asU32 (n : Int) : Nat := (n % 2 ^ 32).toNat

/-- The date of a day of an era, with every sum and product checked. -/
def checkedDate (era dayOfEra rem : Int) : Option Civil := do
  let elapsed ← i64 (dayOfEra - dayOfEra / 1460)
  let elapsed ← i64 (elapsed + dayOfEra / 36524)
  let elapsed ← i64 (elapsed - dayOfEra / 146096)
  let yearOfEra := elapsed / 365
  let start ← i64 (365 * yearOfEra)
  let start ← i64 (start + yearOfEra / 4)
  let start ← i64 (start - yearOfEra / 100)
  let dayOfYear ← i64 (dayOfEra - start)
  let fifths ← i64 (5 * dayOfYear)
  let fifths ← i64 (fifths + 2)
  let shiftedMonth := fifths / 153
  let before ← i64 (153 * shiftedMonth)
  let before ← i64 (before + 2)
  let day ← i64 (dayOfYear - before / 5)
  let day ← i64 (day + 1)
  let month ← i64 (if shiftedMonth < 10 then shiftedMonth + 3 else shiftedMonth - 9)
  let month := asU32 month
  let years ← i64 (era * 400)
  let year ← i64 (yearOfEra + years)
  let year ← i64 (year + if month ≤ 2 then 1 else 0)
  pure {
    year, month
    day := asU32 day
    hour := asU32 (rem / 3600)
    minute := asU32 (rem / 60 % 60)
    second := asU32 (rem % 60)
  }

/-- `atSecs`, with every sum and product checked. -/
def checkedAtSecs (secs : Int) : Option Civil := do
  let shifted ← i64 (secs / secsPerDay + daysEpochToShifted)
  checkedDate (shifted / daysPerEra) (shifted % daysPerEra) (secs % secsPerDay)

/-- The day a date is, from the epoch, with every sum and product checked. -/
def checkedDays (self : Civil) : Option Int := do
  let year ← i64 (self.year - if self.month ≤ 2 then 1 else 0)
  let era := year / 400
  let yearOfEra := year % 400
  let shiftedMonth : Nat := if self.month > 2 then self.month - 3 else self.month + 9
  let dayOfYear ← i64 (153 * shiftedMonth)
  let dayOfYear ← i64 (dayOfYear + 2)
  let dayOfYear ← i64 (dayOfYear / 5 + self.day)
  let dayOfYear ← i64 (dayOfYear - 1)
  let dayOfEra ← i64 (365 * yearOfEra)
  let dayOfEra ← i64 (dayOfEra + yearOfEra / 4)
  let dayOfEra ← i64 (dayOfEra - yearOfEra / 100)
  let dayOfEra ← i64 (dayOfEra + dayOfYear)
  let days ← i64 (era * daysPerEra)
  let days ← i64 (days + dayOfEra)
  i64 (days - daysEpochToShifted)

/-- `toSecs`, with every sum and product checked. -/
def checkedToSecs (self : Civil) : Option Int := do
  let days ← self.checkedDays
  let secs ← i64 (days * secsPerDay)
  let hours ← i64 (self.hour * 3600)
  let secs ← i64 (secs + hours)
  let minutes ← i64 (self.minute * 60)
  let secs ← i64 (secs + minutes)
  i64 (secs + self.second)

/-- What a checked step hands on. -/
theorem i64_bind {α : Type} {n : Int} (fits : -2 ^ 63 ≤ n ∧ n < 2 ^ 63) (rest : Int → Option α)
    : (i64 n >>= rest) = rest n := by
  rw [i64, if_pos fits]
  rfl

theorem asU32_eq {n : Int} (fits : 0 ≤ n ∧ n < 2 ^ 32) : asU32 n = n.toNat := by
  unfold asU32
  omega

/-- The closed form's year of an era and day of a year. -/
theorem day_bounds {day : Int} (start : 0 ≤ day) (inside : day < 146097)
    : (0 ≤ yearOfEra day ∧ yearOfEra day ≤ 399) ∧ 0 ≤ dayOfYear day ∧ dayOfYear day ≤ 365 := by
  have year_ : 0 ≤ yearOfEra day ∧ yearOfEra day ≤ 399 := by
    unfold yearOfEra
    omega
  obtain ⟨year, ofYear, start_, inside_, placed⟩ := exists_yearDays day
  have found := (year_and_day start_ inside_ placed).2
  have same : day % daysPerEra = day := Int.emod_eq_of_lt start inside
  have length := yearLength_le year
  rw [same] at found
  exact ⟨year_, by omega, by omega⟩

/-- No step of the date of a day overflows. -/
theorem checkedDate_eq {era day rem : Int} (start : 0 ≤ day) (inside : day < 146097)
    (eras : -2 ^ 40 ≤ era ∧ era ≤ 2 ^ 40) (time : 0 ≤ rem ∧ rem < 86400)
    : checkedDate era day rem
      = some (atTime (dated (yearOfEra day + era * 400) (dayOfYear day)) rem) := by
  obtain ⟨years, days⟩ := day_bounds start inside
  have elapsed : (day - day / 1460 + day / 36524 - day / 146096) / 365 = yearOfEra day := rfl
  have ofYear : day - (365 * yearOfEra day + yearOfEra day / 4 - yearOfEra day / 100)
      = dayOfYear day := rfl
  have months : 0 ≤ (5 * dayOfYear day + 2) / 153 ∧ (5 * dayOfYear day + 2) / 153 ≤ 11 := by omega
  have within : (153 * ((5 * dayOfYear day + 2) / 153) + 2) / 5 ≤ dayOfYear day := by omega
  have month_ : 0 ≤ (if (5 * dayOfYear day + 2) / 153 < 10 then (5 * dayOfYear day + 2) / 153 + 3
        else (5 * dayOfYear day + 2) / 153 - 9)
      ∧ (if (5 * dayOfYear day + 2) / 153 < 10 then (5 * dayOfYear day + 2) / 153 + 3
        else (5 * dayOfYear day + 2) / 153 - 9) ≤ 12 := by
    split <;> omega
  unfold checkedDate
  refine (i64_bind (by omega) _).trans ?_
  refine (i64_bind (by omega) _).trans ?_
  refine (i64_bind (by omega) _).trans ?_
  rw [elapsed]
  refine (i64_bind (by omega) _).trans ?_
  refine (i64_bind (by omega) _).trans ?_
  refine (i64_bind (by omega) _).trans ?_
  rw [ofYear]
  refine (i64_bind (by omega) _).trans ?_
  refine (i64_bind (by omega) _).trans ?_
  refine (i64_bind (by omega) _).trans ?_
  refine (i64_bind (by omega) _).trans ?_
  refine (i64_bind (by omega) _).trans ?_
  refine (i64_bind (by omega) _).trans ?_
  refine (i64_bind (by omega) _).trans ?_
  refine (i64_bind (by omega) _).trans ?_
  refine (i64_bind (by omega) _).trans ?_
  have month32 := asU32_eq ⟨month_.1, by omega⟩
  have day32 : asU32 (dayOfYear day - (153 * ((5 * dayOfYear day + 2) / 153) + 2) / 5 + 1)
      = (dayOfYear day - (153 * ((5 * dayOfYear day + 2) / 153) + 2) / 5 + 1).toNat :=
    asU32_eq (by omega)
  have hour32 : asU32 (rem / 3600) = (rem / 3600).toNat := asU32_eq (by omega)
  have minute32 : asU32 (rem / 60 % 60) = (rem / 60 % 60).toNat := asU32_eq (by omega)
  have second32 : asU32 (rem % 60) = (rem % 60).toNat := asU32_eq (by omega)
  rw [month32, day32, hour32, minute32, second32]
  refine (i64_bind (by omega) _).trans ?_
  refine (i64_bind ?_ _).trans rfl
  split <;> omega

/-- No step of the date of an instant of 64 bits overflows. -/
theorem checkedAtSecs_eq {secs : Int} (fits : -2 ^ 63 ≤ secs ∧ secs < 2 ^ 63)
    : checkedAtSecs secs = some (atSecs secs) := by
  have days : -2 ^ 47 ≤ secs / secsPerDay ∧ secs / secsPerDay ≤ 2 ^ 47 := by
    unfold secsPerDay
    omega
  have shifted : -2 ^ 48 ≤ secs / secsPerDay + daysEpochToShifted
      ∧ secs / secsPerDay + daysEpochToShifted ≤ 2 ^ 48 := by
    unfold daysEpochToShifted
    omega
  unfold checkedAtSecs
  refine (i64_bind (by omega) _).trans ?_
  refine (checkedDate_eq ?_ ?_ ?_ (rem_bounds secs)).trans rfl
  all_goals
    unfold daysPerEra
    omega

/-- No step of the day of a date overflows. -/
theorem checkedDays_eq {self : Civil} (stands : self.InCalendar)
    (years : -2 ^ 50 ≤ self.year ∧ self.year ≤ 2 ^ 50)
    : self.checkedDays
      = some (yearDays (self.year - if self.month ≤ 2 then 1 else 0)
          + dayOf self.month self.day - daysEpochToShifted) := by
  obtain ⟨⟨january, december⟩, ⟨first, last⟩, -, -, -⟩ := stands
  have short : self.day ≤ 31 := last.trans (monthLength_le _ _)
  rw [dayOf_cast first]
  have shifted_ : (if self.month > 2 then self.month - 3 else self.month + 9) ≤ 11 := by
    split <;> omega
  have year_ : -2 ^ 51 ≤ (self.year - if self.month ≤ 2 then 1 else 0)
      ∧ (self.year - if self.month ≤ 2 then 1 else 0) ≤ 2 ^ 51 := by
    split <;> omega
  unfold checkedDays yearDays
  generalize (self.year - if self.month ≤ 2 then 1 else 0) = year at year_ ⊢
  generalize (if self.month > 2 then self.month - 3 else self.month + 9) = shifted at shifted_ ⊢
  refine (i64_bind (by omega) _).trans ?_
  refine (i64_bind (by omega) _).trans ?_
  refine (i64_bind (by omega) _).trans ?_
  refine (i64_bind (by omega) _).trans ?_
  refine (i64_bind (by omega) _).trans ?_
  refine (i64_bind (by omega) _).trans ?_
  refine (i64_bind (by omega) _).trans ?_
  refine (i64_bind (by omega) _).trans ?_
  refine (i64_bind (by omega) _).trans ?_
  unfold daysPerEra daysEpochToShifted
  refine (i64_bind (by omega) _).trans ?_
  refine (i64_bind (by omega) _).trans ?_
  rw [i64, if_pos (by omega)]
  congr 1
  omega

/-- An instant of 64 bits has a year well within them. -/
theorem year_bounds {secs : Int} (fits : -2 ^ 63 ≤ secs ∧ secs < 2 ^ 63)
    : -2 ^ 50 ≤ (atSecs secs).year ∧ (atSecs secs).year ≤ 2 ^ 50 := by
  obtain ⟨year, day, inside, placed, reads⟩ := exists_dated secs
  have year_ : (atSecs secs).year = year + if (monthDay day).1 ≤ 2 then 1 else 0 := by
    rw [reads]
    rfl
  have length := yearLength_le year
  unfold secsPerDay daysEpochToShifted yearDays at placed
  rw [year_]
  split <;> omega

/-- Back from the date of an instant of 64 bits, the one product that may overflow is the day's
seconds: that of the day the least instant falls in does.
-/
theorem checkedToSecs_atSecs {secs : Int} (fits : -2 ^ 63 ≤ secs ∧ secs < 2 ^ 63)
    : (atSecs secs).checkedToSecs
      = if -2 ^ 63 ≤ secs / secsPerDay * secsPerDay then some secs else none := by
  have stands := atSecs_inCalendar secs
  have time := time_atSecs secs
  have hour := stands.hour
  have minute := stands.minute
  have second := stands.second
  unfold checkedToSecs
  rw [checkedDays_eq stands (year_bounds fits), days_atSecs]
  generalize (atSecs secs).hour = hour_ at *
  generalize (atSecs secs).minute = minute_ at *
  generalize (atSecs secs).second = second_ at *
  have whole := Int.ediv_mul_add_emod secs secsPerDay
  rw [← time] at whole
  refine (Option.bind_some _ _).trans ?_
  generalize secs / secsPerDay * secsPerDay = start at whole ⊢
  by_cases midnight : -2 ^ 63 ≤ start
  · rw [if_pos midnight]
    refine (i64_bind (by omega) _).trans ?_
    refine (i64_bind (by omega) _).trans ?_
    refine (i64_bind (by omega) _).trans ?_
    refine (i64_bind (by omega) _).trans ?_
    refine (i64_bind (by omega) _).trans ?_
    rw [i64, if_pos (by omega)]
    congr 1
    omega
  · rw [if_neg midnight, i64, if_neg (by omega)]
    rfl

/-- What the conversion is to do at an instant: read it as its proleptic Gregorian date, in the
order of the instants, and come back from it, with no step overflowing.
-/
structure Converts (secs : Int64) : Prop where
  read : checkedAtSecs secs.toInt = some (atSecs secs.toInt)
  dated : ReadsAs secs.toInt (atSecs secs.toInt)
  stands : (atSecs secs.toInt).InCalendar
  ordered : ∀ later : Int64, secs.toInt < later.toInt
    → (atSecs secs.toInt).Before (atSecs later.toInt)
  back : (atSecs secs.toInt).checkedToSecs = some secs.toInt

/-- The conversion does what it is to at every instant whose day begins within 64 bits, and at no
other: the seconds of the day before are a product that overflows.
-/
theorem converts_iff (secs : Int64) : Converts secs ↔ -9223372036854720000 ≤ secs.toInt := by
  have fits : -2 ^ 63 ≤ secs.toInt ∧ secs.toInt < 2 ^ 63 := ⟨secs.le_toInt, secs.toInt_lt⟩
  have midnight : -2 ^ 63 ≤ secs.toInt / secsPerDay * secsPerDay
      ↔ -9223372036854720000 ≤ secs.toInt := by
    unfold secsPerDay
    omega
  have back := checkedToSecs_atSecs fits
  constructor
  · intro converts
    rw [converts.back] at back
    by_contra early
    rw [if_neg (fun start => early (midnight.mp start))] at back
    exact absurd back (Option.some_ne_none _)
  · intro late
    rw [if_pos (midnight.mpr late)] at back
    exact ⟨checkedAtSecs_eq fits, readsAs_atSecs _, atSecs_inCalendar _,
      fun _ before => atSecs_before before, back⟩

/-- The least instant reads as a date no seconds come back from. -/
theorem toSecs_overflows
    : checkedAtSecs Int64.minValue.toInt = some ⟨-292277022657, 1, 27, 8, 29, 52⟩
      ∧ checkedToSecs ⟨-292277022657, 1, 27, 8, 29, 52⟩ = none
      ∧ ¬∀ secs, Converts secs := by
  refine ⟨by decide, by decide +kernel, fun all => ?_⟩
  have back := (all Int64.minValue).back
  have none_ : (atSecs Int64.minValue.toInt).checkedToSecs = none := by decide
  rw [none_] at back
  exact absurd back.symm (Option.some_ne_none _)

end Civil

end Ferrosys
