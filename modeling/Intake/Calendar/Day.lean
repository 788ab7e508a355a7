/-!
Days of the proleptic Gregorian calendar. The ordinal of a day counts days from the first of January
of year 1, which has ordinal 1; the calendar ends with year 9999.
-/

namespace Intake.Calendar

/-- A year, a month from 1 to 12 and a day of that month. -/
structure Day where
  year : Nat
  month : Nat
  day : Nat
deriving DecidableEq, Repr, Inhabited

/-- Whether February has 29 days. -/
def isLeapYear (year : Nat) : Bool :=
  year % 4 == 0 && (year % 100 != 0 || year % 400 == 0)

/-- The number of days of a month. -/
def daysInMonth (year month : Nat) : Nat :=
  if month == 2 then if isLeapYear year then 29 else 28
  else if month == 4 || month == 6 || month == 9 || month == 11 then 30
  else 31

/-- The number of days of a year. -/
def daysInYear (year : Nat) : Nat := if isLeapYear year then 366 else 365

/-- The days before the first of January of a year that is not zero. -/
def daysBeforeYear (year : Nat) : Nat :=
  let y := year - 1
  y * 365 + y / 4 - y / 100 + y / 400

/-- The days of a year before the first of a month. -/
def daysBeforeMonth (year month : Nat) : Nat :=
  (List.range (month - 1)).foldl (fun days m => days + daysInMonth year (m + 1)) 0

namespace Day

/-- Whether the calendar has the day. -/
def isValid (d : Day) : Bool :=
  1 ≤ d.year && d.year ≤ 9999 && 1 ≤ d.month && d.month ≤ 12 && 1 ≤ d.day
    && d.day ≤ daysInMonth d.year d.month

/-- The number of the day, counted from the first day of year 1. -/
def ordinal (d : Day) : Nat :=
  daysBeforeYear d.year + daysBeforeMonth d.year d.month + d.day

/-- The day of a year by its month, where `count` days of the year, from zero, come before it. -/
def inYear (year : Nat) : (monthsLeft month count : Nat) → Day
  | 0, month, count => ⟨year, month, count + 1⟩
  | monthsLeft + 1, month, count =>
    if count < daysInMonth year month then ⟨year, month, count + 1⟩
    else inYear year monthsLeft (month + 1) (count - daysInMonth year month)

/-- The day with an ordinal, if the calendar has it. -/
def ofOrdinal? (ordinal : Int) : Option Day :=
  if ordinal < 1 || 3652059 < ordinal then none
  else
    let n := ordinal.toNat - 1
    let centuriesOf4 := n / 146097
    let n := n % 146097
    let centuries := n / 36524
    let n := n % 36524
    let leapCycles := n / 1461
    let n := n % 1461
    let years := n / 365
    let year := centuriesOf4 * 400 + centuries * 100 + leapCycles * 4 + years + 1
    if years == 4 || centuries == 4 then some ⟨year - 1, 12, 31⟩
    else some (inYear year 11 1 (n % 365))

/-- The day of the week, Monday being 0. -/
def weekday (d : Day) : Nat := (d.ordinal + 6) % 7

end Day

/-- The ordinal of the Monday that begins the first week of a year, the week with the fourth of
January. -/
def firstMonday (year : Nat) : Int :=
  let start : Int := daysBeforeYear year + 1
  let weekday := (start + 6) % 7
  let monday := start - weekday
  if weekday > 3 then monday + 7 else monday

/-- Whether a year has 53 weeks. -/
def isLongYear (year : Nat) : Bool :=
  let weekday := (⟨year, 1, 1⟩ : Day).weekday
  weekday == 3 || (weekday == 2 && isLeapYear year)

/-- The day of a year by week, from 1, and day of the week, Monday being 1. -/
def Day.ofWeek? (year week weekday : Nat) : Option Day :=
  if year < 1 || 9999 < year || week < 1 || 53 < week || weekday < 1 || 7 < weekday then none
  else if week == 53 && !isLongYear year then none
  else Day.ofOrdinal? (firstMonday year + (week - 1) * 7 + (weekday - 1))

end Intake.Calendar
