import Intake.Calendar.Day
import Intake.Text.Pieces

/-!
Moments: a day and a time of day to the microsecond, with the distance from universal time if it is
known. Two moments with known distances are the same when their instants are; a moment with a known
distance is never the same as one without.
-/

namespace Intake.Calendar

/-- A time of day. -/
structure Clock where
  hour : Nat
  minute : Nat
  second : Nat
  microsecond : Nat
deriving DecidableEq, Repr, Inhabited

/-- A day and a time of day. The offset is the distance east of universal time in microseconds; it is
absent from local times. -/
structure Moment where
  day : Day
  clock : Clock
  offset : Option Int
deriving DecidableEq, Repr, Inhabited

/-- Midnight. -/
def midnight : Clock := ⟨0, 0, 0, 0⟩

/-- The microseconds of a day. -/
def microsecondsPerDay : Int := 86400 * 1000000

namespace Clock

def isValid (c : Clock) : Bool :=
  c.hour < 24 && c.minute < 60 && c.second < 60 && c.microsecond < 1000000

/-- Microseconds since midnight. -/
def sinceMidnight (c : Clock) : Int :=
  ((c.hour * 60 + c.minute) * 60 + c.second : Nat) * 1000000 + c.microsecond

end Clock

namespace Moment

/-- The first moment of the calendar, in universal time; the time that stands for none. -/
def first : Moment := ⟨⟨1, 1, 1⟩, midnight, some 0⟩

def isValid (m : Moment) : Bool :=
  m.day.isValid && m.clock.isValid && m.offset.all fun o => o.natAbs < microsecondsPerDay.natAbs

/-- Microseconds since the day before the first one, in universal time where the offset is known. -/
def instant (m : Moment) : Int :=
  m.day.ordinal * microsecondsPerDay + m.clock.sinceMidnight - m.offset.getD 0

/-- Whether two moments denote the same time. -/
def same (a b : Moment) : Bool :=
  a.offset.isSome == b.offset.isSome && a.instant == b.instant

/-- Whether the clock and the day are those of the first moment, in universal time or without an
offset. -/
def isFirst (m : Moment) : Bool :=
  m.offset.getD 0 == 0 && m.day == first.day && m.clock == midnight

/-- Whether the moment is known to be in universal time. -/
def isUniversal (m : Moment) : Bool := m.offset == some 0

/-- The moment, taken as universal time if it has no offset. -/
def orUniversal (m : Moment) : Moment := { m with offset := some (m.offset.getD 0) }

end Moment

/-- A number with at least so many digits. -/
def digits (width n : Nat) : String := Text.padLeft width '0' (toString n)

/-- A day as year, month and day with hyphens. -/
def Day.text (d : Day) : String :=
  digits 4 d.year ++ "-" ++ digits 2 d.month ++ "-" ++ digits 2 d.day

/-- A time of day; microseconds are written only if there are any. -/
def Clock.text (c : Clock) : String :=
  digits 2 c.hour ++ ":" ++ digits 2 c.minute ++ ":" ++ digits 2 c.second
    ++ (if c.microsecond == 0 then "" else "." ++ digits 6 c.microsecond)

/-- An offset with its sign; seconds are written only if there are any. -/
def offsetText (offset : Int) : String :=
  let n := offset.natAbs
  let seconds := n / 1000000
  let rest := n % 1000000
  (if offset < 0 then "-" else "+") ++ digits 2 (seconds / 3600) ++ ":" ++ digits 2 (seconds / 60 % 60)
    ++ (if seconds % 60 == 0 && rest == 0 then "" else ":" ++ digits 2 (seconds % 60))
    ++ (if rest == 0 then "" else "." ++ digits 6 rest)

/-- A moment with the letter T between day and time, and the offset if it is known. -/
def Moment.text (m : Moment) : String :=
  m.day.text ++ "T" ++ m.clock.text ++ (m.offset.map offsetText).getD ""

/-- A moment with the letter Z for universal time. -/
def Moment.zuluText (m : Moment) : String :=
  if m.isUniversal then m.day.text ++ "T" ++ m.clock.text ++ "Z" else m.text

end Intake.Calendar
