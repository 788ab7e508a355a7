import Intake.Number.Decimal
import Intake.Text.Quoted
import Intake.Text.Utf8
import Intake.Value.Basic

/-!
Texts of values. A scalar has a plain text; inside brackets texts stand in quotes, and moments, days
and identifiers name their type.
-/

namespace Intake.Value

/-- The text of a truth value. -/
def boolText (b : Bool) : String := if b then "True" else "False"

/-- The text of bytes in quotes. -/
def bytesText (bs : List UInt8) : String :=
  let cs := bs.map fun b => Char.ofNat b.toNat
  let quote := Text.quoteFor cs
  let body := cs.map fun c =>
    if c == quote || c == '\\' then String.ofList ['\\', c]
    else if c == '\t' then "\\t"
    else if c == '\n' then "\\n"
    else if c == '\r' then "\\r"
    else if 32 ≤ c.toNat && c.toNat < 127 then String.singleton c
    else "\\x" ++ Text.hexText 2 c.toNat
  "b" ++ String.singleton quote ++ String.join body ++ String.singleton quote

/-- The text of a code; one that belongs to no character has only an escape. -/
def codeText (charText : Char → String) (code : Nat) : String :=
  if Text.isSurrogate code then "\\u" ++ Text.hexText 4 code else charText (Char.ofNat code)

/-- The text of codes in quotes. -/
def quotedCodes (codes : List Nat) : String :=
  let quote := Text.quoteFor (codes.map Char.ofNat)
  String.singleton quote ++ String.join (codes.map (codeText (Text.quotedChar quote)))
    ++ String.singleton quote

/-- The text of a length of time in seconds and microseconds. -/
def durationText (microseconds : Int) : String :=
  let days := microseconds.fdiv Calendar.microsecondsPerDay
  let rest := (microseconds.fmod Calendar.microsecondsPerDay).toNat
  let parts :=
    (if days == 0 then [] else ["days=" ++ toString days])
      ++ (if rest / 1000000 == 0 then [] else ["seconds=" ++ toString (rest / 1000000)])
      ++ (if rest % 1000000 == 0 then [] else ["microseconds=" ++ toString (rest % 1000000)])
  "datetime.timedelta(" ++ ", ".intercalate parts ++ ")"

/-- The text of an offset inside brackets. -/
def zoneText (offset : Int) : String :=
  if offset == 0 then "datetime.timezone.utc"
  else "datetime.timezone(" ++ durationText offset ++ ")"

/-- The text of a moment inside brackets. -/
def momentText (m : Calendar.Moment) : String :=
  let c := m.clock
  let numbers :=
    [m.day.year, m.day.month, m.day.day, c.hour, c.minute]
      ++ (if c.second == 0 && c.microsecond == 0 then [] else [c.second])
      ++ (if c.microsecond == 0 then [] else [c.microsecond])
  let zone := match m.offset with
    | some offset => ", tzinfo=" ++ zoneText offset
    | none => ""
  "datetime.datetime(" ++ ", ".intercalate (numbers.map toString) ++ zone ++ ")"

/-- The text of a day inside brackets. -/
def dayText (d : Calendar.Day) : String :=
  "datetime.date(" ++ ", ".intercalate ([d.year, d.month, d.day].map toString) ++ ")"

mutual

/-- The text of a value inside brackets. -/
def innerText : Value → String
  | .null => "None"
  | .bool b => boolText b
  | .int i => toString i
  | .float x => Number.text x
  | .text s => Text.quoted s
  | .brokenText codes => quotedCodes codes
  | .bytes bs => bytesText bs
  | .moment m => momentText m
  | .day d => dayText d
  | .uuid u => "UUID(" ++ Text.quoted u.text ++ ")"
  | .member enumeration name _ value =>
    "<" ++ enumeration ++ "." ++ name ++ ": " ++ innerText value ++ ">"
  | .list items => "[" ++ ", ".intercalate (innerTexts items) ++ "]"
  | .tuple [item] => "(" ++ innerText item ++ ",)"
  | .tuple items => "(" ++ ", ".intercalate (innerTexts items) ++ ")"
  | .set false [] => "set()"
  | .set true [] => "frozenset()"
  | .set false items => "\x7b" ++ ", ".intercalate (innerTexts items) ++ "\x7d"
  | .set true items => "frozenset(\x7b" ++ ", ".intercalate (innerTexts items) ++ "\x7d)"
  | .dict entries => "\x7b" ++ ", ".intercalate (entryTexts entries) ++ "\x7d"
  | .record model attributes => model ++ "(" ++ ", ".intercalate (attributeTexts attributes) ++ ")"

def innerTexts : List Value → List String
  | [] => []
  | x :: xs => innerText x :: innerTexts xs

def entryTexts : List (Value × Value) → List String
  | [] => []
  | (k, v) :: rest => (innerText k ++ ": " ++ innerText v) :: entryTexts rest

def attributeTexts : List (String × Value) → List String
  | [] => []
  | (name, v) :: rest => (name ++ "=" ++ innerText v) :: attributeTexts rest

end

/-- The text of a value that stands alone. -/
def display : Value → String
  | .text s => s
  | .brokenText codes => String.join (codes.map (codeText String.singleton))
  | .moment m => m.day.text ++ " " ++ m.clock.text ++ (m.offset.map Calendar.offsetText).getD ""
  | .day d => d.text
  | .uuid u => u.text
  | .member enumeration name _ _ => enumeration ++ "." ++ name
  | .record _ attributes => " ".intercalate (attributeTexts attributes)
  | v => innerText v

end Intake.Value
