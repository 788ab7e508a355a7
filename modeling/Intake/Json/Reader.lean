import Intake.Json.Encoding
import Intake.Number.Reading
import Intake.Value.Basic

/-!
Reading documents of objects, arrays, texts and numbers. Besides the standard the reader takes the
words for the numbers that are not finite, and of two entries with one key it keeps the last. A fault
is placed by the number of characters before it.
-/

namespace Intake.Json

/-- Why a document cannot be read. -/
inductive Problem where
  | value
  | propertyName
  | colon
  | comma
  | extraData
  | unterminated
  | controlCharacter
  | escape
  | codeEscape
deriving DecidableEq, Repr

/-- The words for a problem. -/
def Problem.message : Problem → String
  | .value => "Expecting value"
  | .propertyName => "Expecting property name enclosed in double quotes"
  | .colon => "Expecting " ++ String.ofList [Char.ofNat 39, ':', Char.ofNat 39] ++ " delimiter"
  | .comma => "Expecting " ++ String.ofList [Char.ofNat 39, ',', Char.ofNat 39] ++ " delimiter"
  | .extraData => "Extra data"
  | .unterminated => "Unterminated string starting at"
  | .controlCharacter => "Invalid control character at"
  | .escape => "Invalid \\escape"
  | .codeEscape => "Invalid \\uXXXX escape"

/-- What values stand in. -/
inductive Container where
  | object
  | array
deriving DecidableEq, Repr, Inhabited

/-- A problem and the number of codes from its place to the end, a number with too many digits, or a
container inside too many others. -/
inductive Stop where
  | problem (why : Problem) (left : Nat)
  | longNumber (digits : Nat)
  | tooDeep (inner : Container)
deriving DecidableEq, Repr

/-- Stops at a place. -/
def stop {α : Type} (why : Problem) (rest : List Nat) : Except Stop α :=
  .error (.problem why rest.length)

/-- The codes after blanks. -/
def skipBlanks (codes : List Nat) : List Nat :=
  codes.dropWhile fun n => n == 32 || n == 9 || n == 10 || n == 13

/-- The value of a hexadecimal digit. -/
def hexDigit? (code : Nat) : Option Nat :=
  if code < 128 then
    let c := Char.ofNat code
    if c.isDigit then some (code - 48)
    else if 'a' ≤ c && c ≤ 'f' then some (code - 87)
    else if 'A' ≤ c && c ≤ 'F' then some (code - 55)
    else none
  else none

/-- The number of four hexadecimal digits. -/
def hex4? : List Nat → Option Nat
  | a :: b :: c :: d :: _ => do
    return (((← hexDigit? a) * 16 + (← hexDigit? b)) * 16 + (← hexDigit? c)) * 16 + (← hexDigit? d)
  | _ => none

/-- The code that a letter after a backslash stands for. -/
def escaped? (code : Nat) : Option Nat :=
  match code with
  | 34 => some 34
  | 92 => some 92
  | 47 => some 47
  | 98 => some 8
  | 102 => some 12
  | 110 => some 10
  | 114 => some 13
  | 116 => some 9
  | _ => none

/-- The low half of a surrogate pair that an escape denotes, if such an escape comes next with
something after it. A malformed escape is a fault. -/
def lowHalf? (high : Nat) (rest : List Nat) : Except Stop (Option Nat) :=
  if 0xD800 ≤ high && high < 0xDC00 && 6 < rest.length then
    match rest with
    | 92 :: 117 :: digits =>
      match hex4? digits with
      | some low => .ok (if 0xDC00 ≤ low && low < 0xE000 then some low else none)
      | none => .error (.problem .codeEscape (digits.length + 1))
    | _ => .ok none
  else .ok none

/-- The codes of a text up to the closing quote; `start` is the number of codes from the opening quote
to the end. -/
def readText (start : Nat) : (fuel : Nat) → List Nat → Except Stop (List Nat × List Nat)
  | 0, _ | _, [] => .error (.problem .unterminated start)
  | fuel + 1, code :: rest =>
    if code == 34 then .ok ([], rest)
    else if code == 92 then
      match rest with
      | [] => .error (.problem .unterminated start)
      | 117 :: digits =>
        if digits.length ≤ 4 then .error (.problem .codeEscape (digits.length + 1))
        else match hex4? digits with
          | none => .error (.problem .codeEscape (digits.length + 1))
          | some high => do
            let rest := digits.drop 4
            match ← lowHalf? high rest with
            | some low =>
              let (codes, rest) ← readText start fuel (rest.drop 6)
              return ((0x10000 + (high - 0xD800) * 1024 + (low - 0xDC00)) :: codes, rest)
            | none =>
              let (codes, rest) ← readText start fuel rest
              return (high :: codes, rest)
      | letter :: rest =>
        match escaped? letter with
        | none => .error (.problem .escape (rest.length + 2))
        | some code => do
          let (codes, rest) ← readText start fuel rest
          return (code :: codes, rest)
    else if code < 32 then .error (.problem .controlCharacter (rest.length + 1))
    else do
      let (codes, rest) ← readText start fuel rest
      return (code :: codes, rest)

/-- The value of a text with the given codes. -/
def textValue (codes : List Nat) : Value :=
  if codes.any Text.isSurrogate then .brokenText codes
  else .text (String.ofList (codes.map Char.ofNat))

/-- Whether a code is a decimal digit. -/
def isDigit (code : Nat) : Bool := 48 ≤ code && code ≤ 57

/-- The digits at the beginning, as values, and the codes after them. -/
def takeDigits (codes : List Nat) : List Nat × List Nat :=
  ((codes.takeWhile isDigit).map (· - 48), codes.dropWhile isDigit)

/-- The digits after a point, if there are any. -/
def readFraction : List Nat → Option (List Nat × List Nat)
  | 46 :: rest => if (rest.head?.any isDigit) then some (takeDigits rest) else none
  | _ => none

/-- The exponent after its letter, if there is one. -/
def readExponent : List Nat → Option (Int × List Nat)
  | e :: rest =>
    if e == 101 || e == 69 then
      let (negative, rest) := match rest with
        | 45 :: rest => (true, rest)
        | 43 :: rest => (false, rest)
        | rest => (false, rest)
      match takeDigits rest with
      | ([], _) => none
      | (digits, rest) =>
        let n : Int := Number.ofDigits digits
        some (if negative then -n else n, rest)
    else none
  | [] => none

/-- The digits of an integer without leading zeros. -/
def readWhole : List Nat → Option (List Nat × List Nat)
  | 48 :: rest => some ([0], rest)
  | rest =>
    match takeDigits rest with
    | ([], _) => none
    | found => some found

/-- The number at the beginning, which has the given sign; `whole` begins at the sign. -/
def readNumber (whole : List Nat) (negative : Bool) (codes : List Nat) : Except Stop (Value × List Nat) :=
  match readWhole codes with
  | none => stop .value whole
  | some (digits, rest) =>
    let fraction := readFraction rest
    let afterFraction := (fraction.map (·.2)).getD rest
    let exponent := readExponent afterFraction
    let afterAll := (exponent.map (·.2)).getD afterFraction
    if fraction.isSome || exponent.isSome then
      let places := (fraction.map (·.1)).getD []
      let power : Int := (exponent.map (·.1)).getD 0 - places.length
      .ok (.float (Binary64.ofDecimal negative (Number.ofDigits (digits ++ places)) power), afterAll)
    else if Number.maxDigits < digits.length then .error (.longNumber digits.length)
    else
      let n : Int := Number.ofDigits digits
      .ok (.int (if negative then -n else n), afterAll)

/-- The codes after a word, if it comes next. -/
def afterWord? : List Char → List Nat → Option (List Nat)
  | [], codes => some codes
  | _ :: _, [] => none
  | c :: word, code :: codes => if c.toNat = code then afterWord? word codes else none

/-- The values that words stand for. -/
def words : List (String × Value) :=
  [("null", .null), ("true", .bool true), ("false", .bool false), ("NaN", .float .nan),
    ("Infinity", .float (.infinite false)), ("-Infinity", .float (.infinite true))]

/-- The value of a word that comes next. -/
def readWord? (codes : List Nat) : Option (Value × List Nat) :=
  words.findSome? fun (word, value) => (afterWord? word.toList codes).map (value, ·)

mutual

/-- The value at the beginning, where `room` containers may stand in one another. -/
def readValue (room : Nat) : (fuel : Nat) → List Nat → Except Stop (Value × List Nat)
  | 0, codes => stop .value codes
  | fuel + 1, codes =>
    match codes with
    | [] => stop .value codes
    | 34 :: rest => do
      let (text, rest) ← readText codes.length rest.length rest
      return (textValue text, rest)
    | 123 :: rest =>
      if room == 0 then .error (.tooDeep .object)
      else match skipBlanks rest with
        | 125 :: rest => .ok (.dict [], rest)
        | rest => do
          let (entries, rest) ← readEntries (room - 1) fuel [] rest
          return (.dict entries, rest)
    | 91 :: rest =>
      if room == 0 then .error (.tooDeep .array)
      else match skipBlanks rest with
        | 93 :: rest => .ok (.list [], rest)
        | rest => do
          let (items, rest) ← readItems (room - 1) fuel rest
          return (.list items, rest)
    | code :: rest =>
      match readWord? codes with
      | some found => .ok found
      | none => if code == 45 then readNumber codes true rest else readNumber codes false codes

/-- The entries of an object from a key on, put into those before. -/
def readEntries (room : Nat) : (fuel : Nat) → List (Value × Value) → List Nat →
    Except Stop (List (Value × Value) × List Nat)
  | 0, _, codes => stop .value codes
  | fuel + 1, entries, codes =>
    match codes with
    | 34 :: rest => do
      let (key, rest) ← readText codes.length rest.length rest
      match skipBlanks rest with
      | 58 :: rest =>
        let (value, rest) ← readValue room fuel (skipBlanks rest)
        let entries := Value.putEntry (textValue key) value entries
        match skipBlanks rest with
        | 125 :: rest => return (entries, rest)
        | 44 :: rest => readEntries room fuel entries (skipBlanks rest)
        | rest => stop .comma rest
      | rest => stop .colon rest
    | _ => stop .propertyName codes

/-- The items of an array from a value on. -/
def readItems (room : Nat) : (fuel : Nat) → List Nat → Except Stop (List Value × List Nat)
  | 0, codes => stop .value codes
  | fuel + 1, codes => do
    let (value, rest) ← readValue room fuel codes
    match skipBlanks rest with
    | 93 :: rest => return ([value], rest)
    | 44 :: rest =>
      let (items, rest) ← readItems room fuel (skipBlanks rest)
      return (value :: items, rest)
    | rest => stop .comma rest

end

/-- How many containers may stand in one another. -/
def maxDepth : Nat := 970

/-- Why bytes are no document. -/
inductive Fault where
  | encoding (fault : Text.ByteFault)
  | problem (why : Problem) (line column offset : Nat)
  | longNumber (digits : Nat)
  | tooDeep (inner : Container)
deriving DecidableEq, Repr

/-- The words for a fault. -/
def Fault.message : Fault → String
  | .encoding fault => fault.message
  | .problem why line column offset =>
    why.message ++ ": line " ++ toString line ++ " column " ++ toString column
      ++ " (char " ++ toString offset ++ ")"
  | .longNumber digits =>
    "Exceeds the limit (4300 digits) for integer string conversion: value has " ++ toString digits
      ++ " digits; use sys.set_int_max_str_digits() to increase the limit"
  | .tooDeep inner =>
    "maximum recursion depth exceeded while decoding a JSON "
      ++ (if inner == .array then "array" else "object") ++ " from a unicode string"

/-- The fault of a document that the reader stopped in. -/
def Stop.fault (codes : List Nat) : Stop → Fault
  | .problem why left =>
    let before := codes.take (codes.length - left)
    let lines := before.filter (· == 10)
    let column := (before.reverse.takeWhile (· != 10)).length + 1
    .problem why (lines.length + 1) column before.length
  | .longNumber digits => .longNumber digits
  | .tooDeep inner => .tooDeep inner

/-- Whether the document was left before anything was wrong with it. -/
def Fault.isTooDeep : Fault → Bool
  | .tooDeep _ => true
  | _ => false

/-- The value of a document. -/
def ofCodes (codes : List Nat) : Except Stop Value := do
  let (value, rest) ← readValue maxDepth (2 * codes.length + 2) (skipBlanks codes)
  match skipBlanks rest with
  | [] => return value
  | rest => stop .extraData rest

/-- The value that bytes denote. -/
def ofBytes (bytes : List UInt8) : Except Fault Value := do
  let codes ← (decode bytes).mapError .encoding
  (ofCodes codes).mapError (Stop.fault codes)

end Intake.Json
