import Intake.Calendar.Moment
import Intake.Pattern.Matcher
import Intake.Pattern.Reader

/-!
Reading moments by a layout. A layout is a text in which a percent sign and a letter stand for a part
of a day or a time; blanks stand for blanks, and all else stands for itself in either case. Each part
has a pattern of its own, and the layout is matched as one pattern.
-/

namespace Intake.Calendar.Layout

/-- Some texts as the alternatives of a named group. -/
def named (letter : Char) (body : String) : String :=
  "(?P<" ++ String.singleton letter ++ ">" ++ body ++ ")"

def weekdays : List String :=
  ["monday", "tuesday", "wednesday", "thursday", "friday", "saturday", "sunday"]

def months : List String :=
  ["january", "february", "march", "april", "may", "june", "july", "august", "september",
    "october", "november", "december"]

/-- The first three letters. -/
def short (s : String) : String := String.ofList (s.toList.take 3)

/-- Alternatives between bars, longer ones first so that none hides another. -/
def oneOf (words : List String) : String :=
  "|".intercalate (words.mergeSort fun a b => b.length ≤ a.length)

/-- The pattern of a part that is not made of others. -/
def part? (letter : Char) : Option String :=
  match letter with
  | 'd' => some "3[0-1]|[1-2]\\d|0[1-9]|[1-9]| [1-9]"
  | 'f' => some "[0-9]\x7b1,6\x7d"
  | 'H' => some "2[0-3]|[0-1]\\d|\\d"
  | 'I' => some "1[0-2]|0[1-9]|[1-9]"
  | 'G' | 'Y' => some "\\d\\d\\d\\d"
  | 'j' => some "36[0-6]|3[0-5]\\d|[1-2]\\d\\d|0[1-9]\\d|00[1-9]|[1-9]\\d|0[1-9]|[1-9]"
  | 'm' => some "1[0-2]|0[1-9]|[1-9]"
  | 'M' => some "[0-5]\\d|\\d"
  | 'S' => some "6[0-1]|[0-5]\\d|\\d"
  | 'U' | 'W' => some "5[0-3]|[0-4]\\d|\\d"
  | 'w' => some "[0-6]"
  | 'u' => some "[1-7]"
  | 'V' => some "5[0-3]|0[1-9]|[1-4]\\d|\\d"
  | 'y' => some "\\d\\d"
  | 'z' => some "[+-]\\d\\d:?[0-5]\\d(:?[0-5]\\d(\\.\\d\x7b1,6\x7d)?)?|(?-i:Z)"
  | 'A' => some (oneOf weekdays)
  | 'a' => some (oneOf (weekdays.map short))
  | 'B' => some (oneOf months)
  | 'b' => some (oneOf (months.map short))
  | 'p' => some "am|pm"
  | 'Z' => some "gmt|utc"
  | _ => none

/-- The parts that a letter for several of them stands for. -/
def compound? (letter : Char) : Option String :=
  match letter with
  | 'c' => some "%a %b %d %H:%M:%S %Y"
  | 'x' => some "%m/%d/%y"
  | 'X' => some "%H:%M:%S"
  | _ => none

/-- A character that patterns would read as more than itself. -/
def isSpecial (c : Char) : Bool := "\\.^$*+?()\x7b\x7d[]|".toList.contains c

/-- The pattern of one letter's part, without those made of others. -/
def simple? (letter : Char) : Option String :=
  if letter == '%' then some "%" else (part? letter).map (named letter)

/-- The pattern of a layout whose letters are looked up in a table; none for a letter that the table
lacks. A run of blanks matches any run of blanks, so `inBlanks` tells whether the character before was
one. -/
def patternWith (table : Char → Option String) : (inBlanks : Bool) → List Char → Option String
  | _, [] => some ""
  | _, '%' :: letter :: rest => do
    return (← table letter) ++ (← patternWith table false rest)
  | _, ['%'] => none
  | inBlanks, c :: rest =>
    if Text.isBlank c then do
      return (if inBlanks then "" else "\\s+") ++ (← patternWith table true rest)
    else do
      let here := if isSpecial c then String.ofList ['\\', c] else String.singleton c
      return here ++ (← patternWith table false rest)

/-- The pattern of a letter's part. -/
def directive? (letter : Char) : Option String :=
  match compound? letter with
  | some layout => patternWith simple? false layout.toList
  | none => simple? letter

/-- The pattern of a layout. -/
def pattern? (layout : String) : Option String := patternWith directive? false layout.toList

/-- What the parts of a text said. Days of the week count from Monday, from zero. -/
structure Parts where
  year : Option Nat
  weekYear : Option Nat
  month : Nat
  day : Nat
  clock : Clock
  weekday : Option Nat
  dayOfYear : Option Int
  week : Option Nat
  weeksBeginMonday : Bool
  weekOfWeekYear : Option Nat
  offset : Option Int

/-- What no part says. -/
def Parts.silent : Parts :=
  ⟨none, none, 1, 1, midnight, none, none, none, false, none, none⟩

/-- The place of a word in a list, in either case. -/
def placeOf? (words : List String) (word : String) : Option Nat :=
  words.findIdx? (· == Text.lower word)

/-- A number in digits of any script. -/
def natural? (s : String) : Option Nat := (Number.int? s).map Int.toNat

/-- The offset that a part says: a sign, hours and minutes, then perhaps seconds and a fraction, with
colons everywhere or nowhere. -/
def offset? (text : String) : Option Int := do
  if text == "Z" then return 0
  let cs := text.toList
  let cs ←
    if cs[3]? == some ':' then
      let cs := cs.take 3 ++ cs.drop 4
      if cs.length ≤ 5 then some cs
      else if cs[5]? == some ':' then some (cs.take 5 ++ cs.drop 6)
      else none
    else some cs
  let slice (start count : Nat) : String := String.ofList ((cs.drop start).take count)
  let hours ← natural? (slice 1 2)
  let minutes ← natural? (slice 3 2)
  let seconds ← if cs.length ≤ 5 then some 0 else natural? (slice 5 2)
  let rest := cs.drop 8
  let fraction ← natural? (String.ofList (rest ++ List.replicate (6 - rest.length) '0'))
  let size : Int := ((hours * 60 + minutes) * 60 + seconds : Nat) * 1000000 + fraction
  return if cs.head? == some '-' then -size else size

/-- The hour of the day for an hour from 1 to 12 and the half of the day. -/
def hourOfDay (hour : Nat) (half : Option String) : Nat :=
  if half.map Text.lower == some "pm" then if hour == 12 then 12 else hour + 12
  else if hour == 12 then 0
  else hour

/-- Enters what one part says. -/
def Parts.enter (p : Parts) (half : Option String) (letter : Char) (text : String) : Option Parts := do
  match letter with
  | 'y' =>
    let n ← natural? text
    return { p with year := some (if n ≤ 68 then n + 2000 else n + 1900) }
  | 'Y' => return { p with year := some (← natural? text) }
  | 'G' => return { p with weekYear := some (← natural? text) }
  | 'm' => return { p with month := ← natural? text }
  | 'B' => return { p with month := (← placeOf? months text) + 1 }
  | 'b' => return { p with month := (← placeOf? (months.map short) text) + 1 }
  | 'd' => return { p with day := ← natural? text }
  | 'H' => return { p with clock := { p.clock with hour := ← natural? text } }
  | 'I' => return { p with clock := { p.clock with hour := hourOfDay (← natural? text) half } }
  | 'M' => return { p with clock := { p.clock with minute := ← natural? text } }
  | 'S' => return { p with clock := { p.clock with second := ← natural? text } }
  | 'f' =>
    let n ← natural? text
    return { p with clock := { p.clock with microsecond := n * Nat.pow 10 (6 - text.length) } }
  | 'A' => return { p with weekday := some (← placeOf? weekdays text) }
  | 'a' => return { p with weekday := some (← placeOf? (weekdays.map short) text) }
  | 'w' => return { p with weekday := some (((← natural? text) + 6) % 7) }
  | 'u' => return { p with weekday := some ((← natural? text) - 1) }
  | 'j' => return { p with dayOfYear := some (Int.ofNat (← natural? text)) }
  | 'U' => return { p with week := some (← natural? text), weeksBeginMonday := false }
  | 'W' => return { p with week := some (← natural? text), weeksBeginMonday := true }
  | 'V' => return { p with weekOfWeekYear := some (← natural? text) }
  | 'z' => return { p with offset := some (← offset? text) }
  | _ => return p

/-- The day of the year for a week, where the days before the first Monday, or Sunday, are in week
zero. -/
def dayOfYearByWeek (year week weekday : Nat) (weeksBeginMonday : Bool) : Int :=
  let first := (⟨year, 1, 1⟩ : Day).weekday
  let (first, weekday) :=
    if weeksBeginMonday then (first, weekday) else ((first + 1) % 7, (weekday + 1) % 7)
  if week == 0 then 1 + weekday - first
  else 1 + ((7 - first) % 7 + 7 * (week - 1) : Nat) + weekday

/-- The year and the day of the year for a week of a year of weeks; days may belong to the year
before. -/
def dayOfYearByWeekYear? (year week weekday : Nat) : Option (Nat × Int) :=
  if year < 1 || 9999 < year then none
  else
    let correction : Int := (⟨year, 1, 4⟩ : Day).weekday + 4
    let count : Int := (week * 7 + weekday + 1 : Nat) - correction
    if 1 ≤ count then some (year, count)
    else if year == 1 then none
    else some (year - 1, count + daysInYear (year - 1))

/-- Whether the parts can be put together: weeks of years of weeks need that year and a day of the
week, and go with nothing else. -/
def Parts.fit (p : Parts) : Bool :=
  if p.weekYear.isSome then p.dayOfYear.isNone && p.weekOfWeekYear.isSome && p.weekday.isSome
  else p.weekOfWeekYear.isNone

/-- The day that the parts say, of the year 1900 if none is given. -/
def Parts.day? (p : Parts) : Option Day := do
  let leapDay := p.year.isNone && p.month == 2 && p.day == 29
  let year := p.year.getD (if leapDay then 1904 else 1900)
  let (year, dayOfYear) ←
    match p.dayOfYear, p.weekday, p.week, p.weekYear, p.weekOfWeekYear with
    | none, some weekday, some week, _, _ =>
      if year < 1 then none
      else some (year, some (dayOfYearByWeek year week weekday p.weeksBeginMonday))
    | none, some weekday, none, some weekYear, some week =>
      (dayOfYearByWeekYear? weekYear week weekday).map fun (year, count) => (year, some count)
    | dayOfYear, _, _, _, _ => some (year, dayOfYear)
  let (year, dayOfYear) := match dayOfYear with
    | some n => if n ≤ 0 && p.dayOfYear.isNone then (year - 1, some (n + daysInYear (year - 1)))
        else (year, some n)
    | none => (year, none)
  if year < 1 || 9999 < year then none
  let day ← match dayOfYear with
    | none =>
      let day : Day := ⟨year, p.month, p.day⟩
      if day.isValid then some day else none
    | some n => Day.ofOrdinal? (n - 1 + daysBeforeYear year + 1)
  let day := if leapDay then { day with year := 1900 } else day
  if day.isValid then some day else none

/-- The moment that the parts say. -/
def Parts.moment? (p : Parts) : Option Moment := do
  if !p.fit then none
  let m : Moment := ⟨← p.day?, p.clock, p.offset⟩
  if m.isValid then some m else none

/-- What the groups of a match say. -/
def partsOf (names : List (String × Nat)) (found : Pattern.Cursor) : Option Parts :=
  let textOf (index : Nat) : Option String := (found.group? index).map String.ofList
  let half := (names.lookup "p").bind textOf
  names.foldlM (fun p (name, index) => do
    match name.toList, textOf index with
    | [letter], some text => p.enter half letter text
    | _, _ => some p) Parts.silent

end Layout

/-- The moment that a text denotes under a layout. A layout that names a part twice is at fault
itself. -/
def Moment.ofLayout? (layout : String) (s : String) : Except Pattern.Flaw (Option Moment) :=
  match Layout.pattern? layout with
  | none => return none
  | some pattern => do
    let compiled ← Pattern.compile { Pattern.Modes.none with caseBlind := true } pattern
    return do
      let found ← compiled.matchStart? s
      if !found.after.isEmpty then none
      let parts ← Layout.partsOf compiled.names found
      parts.moment?

end Intake.Calendar
