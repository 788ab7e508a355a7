import Intake.Text.Printable

/-!
Quoted texts, as diagnostics show them. Single quotes enclose the text unless it holds a single quote
and no double one; the enclosing quote, the backslash and characters without a shape are escaped.
-/

namespace Intake.Text

/-- The digits of a number in hexadecimal, at least as many as the width asks for. -/
def hexText (width n : Nat) : String :=
  let digits := Nat.toDigits 16 n
  String.ofList (List.replicate (width - digits.length) '0' ++ digits)

/-- The quote that encloses most texts. -/
def singleQuote : Char := Char.ofNat 39

/-- The quote that encloses texts with single quotes in them. -/
def doubleQuote : Char := Char.ofNat 34

/-- How one character stands between the given quotes. -/
def quotedChar (quote c : Char) : String :=
  if c == quote || c == '\\' then String.ofList ['\\', c]
  else if c == '\t' then "\\t"
  else if c == '\n' then "\\n"
  else if c == '\r' then "\\r"
  else if isPrintable c then String.singleton c
  else if c.toNat < 0x100 then "\\x" ++ hexText 2 c.toNat
  else if c.toNat < 0x10000 then "\\u" ++ hexText 4 c.toNat
  else "\\U" ++ hexText 8 c.toNat

/-- The quote that encloses a text. -/
def quoteFor (cs : List Char) : Char :=
  if cs.contains singleQuote && !cs.contains doubleQuote then doubleQuote else singleQuote

/-- A text in quotes. -/
def quoted (s : String) : String :=
  let quote := quoteFor s.toList
  String.singleton quote ++ String.join (s.toList.map (quotedChar quote)) ++ String.singleton quote

/-- A text between single quotes as it is. -/
def enclosed (s : String) : String :=
  String.singleton singleQuote ++ s ++ String.singleton singleQuote

end Intake.Text
