import Intake.Calendar.Moment

/-!
Reading moments in the international notation: a day by month or by week, with or without hyphens,
then any one character, then perhaps a time and an offset. Positions count bytes, and past the end
stands the null character.
-/

namespace Intake.Calendar.Iso

/-- A text as its bytes, each as the character of that code. -/
def bytesOf (s : String) : Array Char :=
  (s.toUTF8.toList.map fun b => Char.ofNat b.toNat).toArray

/-- The byte at a position, or the null character past the end. -/
def byteAt (bytes : Array Char) (i : Nat) : Char := bytes.getD i (Char.ofNat 0)

/-- The number that exactly `count` digits at a position denote. -/
def number? (bytes : Array Char) (start : Nat) : (count : Nat) → Option Nat
  | 0 => some 0
  | count + 1 => do
    let before ← number? bytes start count
    let c := byteAt bytes (start + count)
    if c.isDigit then some (10 * before + (c.toNat - 48)) else none

/-- The first position at or after `i` that holds no digit; `left` bytes are left. -/
def digitsEnd (bytes : Array Char) : (left i : Nat) → Nat
  | 0, i => i
  | left + 1, i => if (byteAt bytes i).isDigit then digitsEnd bytes left (i + 1) else i

/-- The position of the character between day and time, found from the shape of the day. -/
def separator? (bytes : Array Char) : Option Nat :=
  let len := bytes.size
  if len < 7 then none
  else if len == 7 then some 7
  else if byteAt bytes 4 == '-' then
    if byteAt bytes 5 == 'W' then
      if 8 < len && byteAt bytes 8 == '-' then
        if len == 9 then none
        else if 10 < len && (byteAt bytes 10).isDigit then some 8
        else some 10
      else some 8
    else some 10
  else if byteAt bytes 4 == 'W' then
    let stop := digitsEnd bytes (len - 7) 7
    if stop < 9 then some stop
    else if stop % 2 == 0 then some 7
    else some 8
  else some 8

/-- The day that the bytes before the separator denote. -/
def day? (bytes : Array Char) (separator : Nat) : Option Day := do
  let year ← number? bytes 0 4
  let hyphens := byteAt bytes 4 == '-'
  let p := if hyphens then 5 else 4
  if byteAt bytes p == 'W' then
    let week ← number? bytes (p + 1) 2
    let p := p + 3
    if p < separator then
      if hyphens && byteAt bytes p != '-' then none
      let weekday ← number? bytes (if hyphens then p + 1 else p) 1
      Day.ofWeek? year week weekday
    else Day.ofWeek? year week 1
  else
    let month ← number? bytes p 2
    let p := p + 2
    if hyphens && byteAt bytes p != '-' then none
    let day ← number? bytes (if hyphens then p + 1 else p) 2
    let d : Day := ⟨year, month, day⟩
    if d.isValid then some d else none

/-- A time of day that was read, and whether something stands after it. -/
structure Reading where
  clock : Clock
  more : Bool

/-- The fraction of a second between a position and the end: six digits count, more are read over. -/
def fraction? (bytes : Array Char) (stop p : Nat) (clock : Clock) : Option Reading := do
  let count := min 6 (stop - p)
  let n ← number? bytes p count
  let p := digitsEnd bytes (bytes.size - (p + count)) (p + count)
  return ⟨{ clock with microsecond := n * Nat.pow 10 (6 - count) }, byteAt bytes p != Char.ofNat 0⟩

/-- Sets the hour, the minute or the second. -/
def setPart (clock : Clock) : Nat → Nat → Clock
  | 0, n => { clock with hour := n }
  | 1, n => { clock with minute := n }
  | _, n => { clock with second := n }

/-- The parts of a time from the given one on; `left` parts may follow. Whether colons separate the
parts is decided after the hour. -/
def parts? (bytes : Array Char) (stop : Nat) (colons : Bool) : (left part p : Nat) → Clock → Option Reading
  | 0, _, p, clock => fraction? bytes stop p clock
  | left + 1, part, p, clock => do
    let clock := setPart clock part (← number? bytes p 2)
    let c := byteAt bytes (p + 2)
    let colons := if part == 0 then c == ':' else colons
    if stop ≤ p + 3 then some ⟨clock, c != Char.ofNat 0⟩
    else if colons && c == ':' then parts? bytes stop colons left (part + 1) (p + 3) clock
    else if c == '.' || c == ',' then fraction? bytes stop (p + 3) clock
    else if !colons then parts? bytes stop colons left (part + 1) (p + 2) clock
    else none

/-- A time of day between two positions. -/
def clock? (bytes : Array Char) (start stop : Nat) : Option Reading :=
  parts? bytes stop true 3 0 start midnight

/-- The first position that holds a sign or the letter Z; `left` bytes are left. -/
def zoneStart (bytes : Array Char) : (left i : Nat) → Nat
  | 0, i => i
  | left + 1, i =>
    let c := byteAt bytes i
    if c == '+' || c == '-' || c == 'Z' then i else zoneStart bytes left (i + 1)

/-- The time of day and the offset from a position on. An offset below one second is none at all. -/
def time? (bytes : Array Char) (start : Nat) : Option (Clock × Option Int) := do
  let stop := bytes.size
  let zone := zoneStart bytes (stop - start) start
  let read ← clock? bytes start zone
  if zone == stop then
    if read.more then none else some (read.clock, none)
  else if byteAt bytes zone == 'Z' then
    if byteAt bytes (zone + 1) == Char.ofNat 0 then some (read.clock, some 0) else none
  else
    let distance ← clock? bytes (zone + 1) stop
    if distance.more then none
    let size := distance.clock.sinceMidnight
    let size := if size < 1000000 then 0 else size
    some (read.clock, some (if byteAt bytes zone == '-' then -size else size))

/-- The number of bytes of the character that a byte begins. -/
def charWidth (c : Char) : Nat :=
  if c.toNat < 0x80 then 1
  else if c.toNat / 16 == 14 then 3
  else if c.toNat / 16 == 15 then 4
  else 2

end Iso

/-- The moment that a text in the international notation denotes. -/
def Moment.ofIso? (s : String) : Option Moment := do
  let bytes := Iso.bytesOf s
  let separator ← Iso.separator? bytes
  let day ← Iso.day? bytes separator
  let (clock, offset) ←
    if bytes.size ≤ separator then some (midnight, none)
    else Iso.time? bytes (separator + Iso.charWidth (Iso.byteAt bytes separator))
  let m : Moment := ⟨day, clock, offset⟩
  if m.isValid then some m else none

end Intake.Calendar
