import Intake.Number.Binary64
import Intake.Text.Blank
import Intake.Text.Digits
import Intake.Text.Lowercase

/-!
Numbers in texts that people type: blanks around the number, digits of any script, and single low
lines between digits are read over. Words stand for the numbers that are not finite.
-/

namespace Intake.Number

/-- The longest run of digits that is read as an integer. -/
def maxDigits : Nat := 4300

/-- The values of digits separated by single low lines; at least one digit, and no low line at an
end. -/
def digitGroup : List Char → Option (List Nat)
  | [] => none
  | [c] => (Text.digitValue? c).map ([·])
  | c :: '_' :: rest => do
    let d ← Text.digitValue? c
    return d :: (← digitGroup rest)
  | c :: rest => do
    let d ← Text.digitValue? c
    return d :: (← digitGroup rest)

/-- The number that decimal digits denote. -/
def ofDigits (digits : List Nat) : Nat :=
  digits.foldl (fun n d => 10 * n + d) 0

/-- A leading sign, and whether it is negative. -/
def takeSign : List Char → Bool × List Char
  | '-' :: rest => (true, rest)
  | '+' :: rest => (false, rest)
  | cs => (false, cs)

/-- The integer a text denotes. -/
def int? (s : String) : Option Int := do
  let (negative, rest) := takeSign (Text.trimBoth Text.isWhiteSpace s.toList)
  let digits ← digitGroup rest
  if maxDigits < digits.length then none
  let n := ofDigits digits
  return if negative then -(n : Int) else n

/-- The characters up to the first that fails the test, and the rest. -/
def spanChars (test : Char → Bool) (cs : List Char) : List Char × List Char :=
  (cs.takeWhile test, cs.dropWhile test)

/-- A run of digits that may be empty. -/
def optionalGroup (cs : List Char) : Option (List Nat) :=
  if cs.isEmpty then some [] else digitGroup cs

/-- A character that can stand in a run of digits. -/
def isGroupChar (c : Char) : Bool := Text.isDecimalDigit c || c == '_'

/-- The integer after an exponent mark. -/
def exponent? (cs : List Char) : Option Int := do
  let (negative, rest) := takeSign cs
  let n := ofDigits (← digitGroup rest)
  return if negative then -(n : Int) else n

/-- The words that name numbers which are not finite. -/
def special? (negative : Bool) (word : String) : Option Binary64 :=
  if word == "inf" || word == "infinity" then some (.infinite negative)
  else if word == "nan" then some .nan
  else none

/-- An unsigned decimal number: digits on at least one side of the point, then perhaps an
exponent. -/
def unsigned? (negative : Bool) (cs : List Char) : Option Binary64 := do
  let (wholePart, rest) := spanChars isGroupChar cs
  let whole ← optionalGroup wholePart
  let (fraction, rest) ← match rest with
    | '.' :: rest =>
      let (part, rest) := spanChars isGroupChar rest
      (optionalGroup part).map (·, rest)
    | rest => some ([], rest)
  if whole.isEmpty && fraction.isEmpty then none
  let exponent ← match rest with
    | [] => some 0
    | 'e' :: rest => exponent? rest
    | 'E' :: rest => exponent? rest
    | _ => none
  return Binary64.ofDecimal negative (ofDigits (whole ++ fraction)) (exponent - fraction.length)

/-- The number a text denotes, rounded to double precision. -/
def float? (s : String) : Option Binary64 :=
  let (negative, rest) := takeSign (Text.trimBoth Text.isWhiteSpace s.toList)
  match special? negative (String.ofList (rest.map Char.toLower)) with
  | some x => some x
  | none => unsigned? negative rest

end Intake.Number
