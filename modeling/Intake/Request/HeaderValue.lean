import Intake.Text.Blank
import Intake.Text.Lowercase
import Intake.Text.Pieces
import Intake.Text.Quoted

/-!
Values of headers that have options: semicolons stand before options, except inside double quotes, and
`=` between the name of an option and its value, which may be quoted.
-/

namespace Intake.Request

/-- The value of a header: its main part and its options, of which the last of a name counts. -/
structure HeaderValue where
  main : String
  options : List (String × String)
deriving DecidableEq, Repr, Inhabited

/-- The pieces between semicolons outside of quotes. `inside` tells whether a quote is open and
`escaped` whether a backslash stands before. -/
def optionPieces (inside escaped : Bool) : List Char → List (List Char)
  | [] => [[]]
  | c :: rest =>
    if c == ';' && !inside then [] :: optionPieces false false rest
    else
      let inside := if c == Text.doubleQuote && !escaped then !inside else inside
      match optionPieces inside (c == '\\') rest with
      | [] => [[c]]
      | piece :: pieces => (c :: piece) :: pieces

/-- Replaces every occurrence of a part, from the left. -/
def replaceAll (part replacement : List Char) (cs : List Char) : List Char :=
  Text.replaceFrom part replacement 0 cs

/-- A value without the quotes or angles around it. -/
def unquoted (s : String) : String :=
  match s.toList with
  | first :: rest =>
    if rest.isEmpty then s
    else if first == Text.doubleQuote && rest.getLast? == some Text.doubleQuote then
      String.ofList (replaceAll ['\\', Text.doubleQuote] [Text.doubleQuote]
        (replaceAll ['\\', '\\'] ['\\'] rest.dropLast))
    else if first == '<' && rest.getLast? == some '>' then String.ofList rest.dropLast
    else s
  | [] => s

/-- An option: its name in lower case and its value. -/
def optionOf (cs : List Char) : String × String :=
  match Text.cutChars '=' cs with
  | (name, some value) =>
    (Text.lower (Text.strip (String.ofList name)), unquoted (Text.strip (String.ofList value)))
  | (name, none) => (Text.strip (String.ofList name), "")

/-- Reads the value of a header. The main part is in lower case. -/
def HeaderValue.ofText (s : String) : HeaderValue :=
  match optionPieces false false s.toList with
  | [] => ⟨"", []⟩
  | main :: options => ⟨Text.lower (Text.strip (String.ofList main)), options.map optionOf⟩

/-- The value of an option. -/
def HeaderValue.option? (h : HeaderValue) (name : String) : Option String :=
  ((h.options.filter fun o => o.1 == name).map (·.2)).getLast?

end Intake.Request
