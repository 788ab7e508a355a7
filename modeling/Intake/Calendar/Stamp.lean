import Intake.Calendar.Iso

/-!
Reading time stamps as documents carry them: a day, or a day and a time with an offset, in one fixed
form, or a number of seconds since the year 1970. The first fault found, from left to right, is named.
Numbers beyond a limit count milliseconds.
-/

namespace Intake.Calendar.Stamp

/-- Why a text is no time stamp. -/
inductive Fault where
  | tooShort
  | extraCharacters
  | separator
  | daySeparator
  | inexactDay
  | yearCharacter
  | monthCharacter
  | dayCharacter
  | timeSeparator
  | hourCharacter
  | minuteCharacter
  | secondCharacter
  | zoneSign
  | zoneHour
  | zoneMinute
  | zoneMinuteRange
  | zoneRange
  | yearRange
  | monthRange
  | dayRange
  | hourRange
  | minuteRange
  | secondRange
  | fractionMissing
  | tooEarly
  | tooLate
  | notANumber
deriving DecidableEq, Repr

/-- A character in grave accents. -/
def marked (c : Char) : String := String.ofList [Char.ofNat 96, c, Char.ofNat 96]

/-- The words for a fault. -/
def Fault.message : Fault → String
  | .tooShort => "input is too short"
  | .extraCharacters => "unexpected extra characters at the end of the input"
  | .separator =>
    "invalid datetime separator, expected " ++ marked 'T' ++ ", " ++ marked 't' ++ ", " ++ marked '_'
      ++ " or space"
  | .daySeparator => "invalid date separator, expected " ++ marked '-'
  | .inexactDay => "timestamp is not an exact date"
  | .yearCharacter => "invalid character in year"
  | .monthCharacter => "invalid character in month"
  | .dayCharacter => "invalid character in day"
  | .timeSeparator => "invalid time separator, expected " ++ marked ':'
  | .hourCharacter => "invalid character in hour"
  | .minuteCharacter => "invalid character in minute"
  | .secondCharacter => "invalid character in second"
  | .zoneSign => "invalid timezone sign"
  | .zoneHour => "invalid timezone hour"
  | .zoneMinute => "invalid timezone minute"
  | .zoneMinuteRange => "timezone minute value is outside expected range of 0-59"
  | .zoneRange => "timezone offset must be less than 24 hours"
  | .yearRange => "year 0 is out of range"
  | .monthRange => "month value is outside expected range of 1-12"
  | .dayRange => "day value is outside expected range"
  | .hourRange => "hour value is outside expected range of 0-23"
  | .minuteRange => "minute value is outside expected range of 0-59"
  | .secondRange => "second value is outside expected range of 0-59"
  | .fractionMissing =>
    "second fraction value is missing"
  | .tooEarly => "dates before 1600 are not supported as unix timestamps"
  | .tooLate => "dates after 9999 are not supported as unix timestamps"
  | .notANumber => "NaN values not permitted"

/-- The digit at a place. -/
def digitAt (bytes : Array Char) (i : Nat) (fault : Fault) : Except Fault Nat :=
  match bytes[i]? with
  | none => .error .tooShort
  | some c => if c.isDigit then .ok (c.toNat - 48) else .error fault

/-- The number of two digits at a place. -/
def pairAt (bytes : Array Char) (i : Nat) (fault : Fault) : Except Fault Nat := do
  return 10 * (← digitAt bytes i fault) + (← digitAt bytes (i + 1) fault)

/-- A condition that has to hold. -/
def require (condition : Bool) (fault : Fault) : Except Fault Unit :=
  if condition then .ok () else .error fault

/-- The day that the first ten bytes denote. The year may be zero. -/
def leadingDay (bytes : Array Char) : Except Fault Day := do
  require (10 ≤ bytes.size) .tooShort
  let year := 100 * (← pairAt bytes 0 .yearCharacter) + (← pairAt bytes 2 .yearCharacter)
  require (Iso.byteAt bytes 4 == '-') .daySeparator
  let month ← pairAt bytes 5 .monthCharacter
  require (Iso.byteAt bytes 7 == '-') .daySeparator
  let day ← pairAt bytes 8 .dayCharacter
  require (1 ≤ month && month ≤ 12) .monthRange
  require (1 ≤ day && day ≤ daysInMonth year month) .dayRange
  return ⟨year, month, day⟩

/-- The microseconds of the digits from a place on; digits past the sixth are read over. -/
def fractionAt (bytes : Array Char) (start : Nat) : Except Fault (Nat × Nat) := do
  let stop := Iso.digitsEnd bytes (bytes.size - start) start
  require (start < stop) .fractionMissing
  let count := min 6 (stop - start)
  let n := (Iso.number? bytes start count).getD 0
  return (n * Nat.pow 10 (6 - count), stop)

/-- The time of day from a place on, and the place after it. Seconds may be left out. -/
def clockAt (bytes : Array Char) (start : Nat) : Except Fault (Clock × Nat) := do
  require (start + 5 ≤ bytes.size) .tooShort
  let hour ← pairAt bytes start .hourCharacter
  require (Iso.byteAt bytes (start + 2) == ':') .timeSeparator
  let minute ← pairAt bytes (start + 3) .minuteCharacter
  require (hour < 24) .hourRange
  require (minute < 60) .minuteRange
  if Iso.byteAt bytes (start + 5) == ':' then
    let second ← pairAt bytes (start + 6) .secondCharacter
    require (second < 60) .secondRange
    let mark := Iso.byteAt bytes (start + 8)
    if mark == '.' || mark == ',' then
      let (microsecond, stop) ← fractionAt bytes (start + 9)
      return (⟨hour, minute, second, microsecond⟩, stop)
    else return (⟨hour, minute, second, 0⟩, start + 8)
  else return (⟨hour, minute, 0, 0⟩, start + 5)

/-- The three bytes of the minus sign that is not a hyphen. -/
def minusSign : List Nat := [226, 136, 146]

/-- The sign of an offset at a place: whether it is negative, and the place after it. -/
def signAt (bytes : Array Char) (i : Nat) : Except Fault (Bool × Nat) :=
  match Iso.byteAt bytes i with
  | '+' => .ok (false, i + 1)
  | '-' => .ok (true, i + 1)
  | _ =>
    if [0, 1, 2].map (fun k => (Iso.byteAt bytes (i + k)).toNat) == minusSign then .ok (true, i + 3)
    else .error .zoneSign

/-- The offset from a place on, in microseconds, and the place after it. -/
def offsetAt (bytes : Array Char) (i : Nat) : Except Fault (Int × Nat) := do
  let c := Iso.byteAt bytes i
  if c == 'Z' || c == 'z' then return (0, i + 1)
  let (negative, i) ← signAt bytes i
  let hours ← pairAt bytes i .zoneHour
  let j := if Iso.byteAt bytes (i + 2) == ':' then i + 3 else i + 2
  match bytes[j]? with
  | none => if j == i + 3 then .error Fault.tooShort else .error Fault.zoneMinute
  | some _ =>
    let minutes ← pairAt bytes j .zoneMinute
    require (minutes < 60) .zoneMinuteRange
    require (hours < 24) .zoneRange
    let size : Int := (hours * 60 + minutes : Nat) * 60 * 1000000
    return (if negative then -size else size, j + 2)

/-- The moment that a text in the fixed form denotes. -/
def fixed (bytes : Array Char) : Except Fault Moment := do
  let day ← leadingDay bytes
  let mark := Iso.byteAt bytes 10
  require (mark == 'T' || mark == 't' || mark == ' ' || mark == '_') .separator
  let (clock, i) ← clockAt bytes 11
  let (offset, i) ←
    if bytes.size ≤ i then pure (none, i)
    else do
      let (offset, i) ← offsetAt bytes i
      pure (some offset, i)
  require (bytes.size ≤ i) .extraCharacters
  require (1 ≤ day.year) .yearRange
  return ⟨day, clock, offset⟩

/-- Numbers above the limit count milliseconds. -/
def milliseconds (n : Int) : Bool := 20000000000 < n.natAbs

/-- Seconds and microseconds of a number of seconds or milliseconds. -/
def seconds (n : Int) : Int × Int :=
  if milliseconds n then (n.fdiv 1000, n.fmod 1000 * 1000) else (n, 0)

/-- The moment so many seconds and microseconds after the beginning of the year 1970. -/
def ofSeconds (second microsecond : Int) : Except Fault Moment := do
  let second := second + microsecond.fdiv 1000000
  let microsecond := microsecond.fmod 1000000
  require (-11676096000 ≤ second) .tooEarly
  require (second ≤ 253402300799) .tooLate
  let days := second.fdiv 86400
  let rest := (second.fmod 86400).toNat
  match Day.ofOrdinal? (days + 719163) with
  | some day => return ⟨day, ⟨rest / 3600, rest / 60 % 60, rest % 60, microsecond.toNat⟩, some 0⟩
  | none => .error .tooLate

/-- The moment that a whole number denotes. -/
def ofInt (n : Int) : Except Fault Moment :=
  let (second, microsecond) := seconds n
  ofSeconds second microsecond

/-- The moment that a whole number and microseconds beyond it denote. -/
def ofParts (n microseconds : Int) : Except Fault Moment :=
  let (second, microsecond) := seconds n
  ofSeconds second (microsecond + microseconds)

/-- The digits of a text of digits. -/
def digitsOf? (cs : List Char) : Option Nat :=
  if cs.all Char.isDigit then some (cs.foldl (fun n c => 10 * n + (c.toNat - 48)) 0) else none

/-- The whole part of a text that is a number, and the digits after its point if it has one. -/
def number? (s : String) : Option (Int × Option (List Char)) := do
  let (negative, cs) := match s.toList with
    | '-' :: rest => (true, rest)
    | '+' :: rest => (false, rest)
    | cs => (false, cs)
  let whole := cs.takeWhile Char.isDigit
  if whole.isEmpty then none
  let n : Int := (← digitsOf? whole : Nat)
  let n := if negative then -n else n
  match cs.dropWhile Char.isDigit with
  | [] => some (n, none)
  | '.' :: places =>
    if places.all Char.isDigit then some (n, some places) else none
  | _ => none

/-- The microseconds of the digits after a point, a half rounded away from zero. -/
def microsecondsOf (places : List Char) : Int :=
  let n := (digitsOf? places).getD 0
  let denominator := Nat.pow 10 places.length
  ((2 * n * 1000000 + denominator) / (2 * denominator) : Nat)

/-- The moment of a number with the given digits after its point. -/
def ofDecimal (text : String) (whole : Int) (places : List Char) : Except Fault Moment :=
  let fraction := microsecondsOf places
  if text.startsWith "-" then ofParts (if fraction == 0 then whole else whole - 1) ((1000000 - fraction) % 1000000)
  else ofParts whole fraction

/-- The moment that a text denotes. -/
def moment (s : String) : Except Fault Moment :=
  match fixed (Iso.bytesOf s) with
  | .ok m => .ok m
  | .error fault =>
    match number? s with
    | some (n, none) => ofInt n
    | some (n, some places) => ofDecimal s n places
    | none => .error fault

/-- The day that a text denotes, which may be a number of seconds at midnight. -/
def day (s : String) : Except Fault Day :=
  let bytes := Iso.bytesOf s
  let whole : Except Fault Day := do
    let d ← leadingDay bytes
    require (bytes.size ≤ 10) .extraCharacters
    require (1 ≤ d.year) .yearRange
    return d
  match whole with
  | .ok d => .ok d
  | .error fault =>
    match number? s with
    | some (n, none) => do
      let m ← ofInt n
      require ({ m.clock with microsecond := 0 } == midnight) .inexactDay
      return m.day
    | _ => .error fault

end Intake.Calendar.Stamp
