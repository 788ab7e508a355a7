import Intake.Request.Pairs
import Intake.Text.Blank
import Intake.Text.Quoted

/-!
Cookies. Semicolons stand between cookies and the first `=` between a name and a value; without one
all is value. A value in double quotes is taken without them, and a backslash in it stands before
three digits to the base eight or before a character that is meant as it is. The last cookie of a name
counts.
-/

namespace Intake.Request

/-- A digit to the base eight that is at most a given one. -/
def octal? (most : Nat) (c : Char) : Option Nat :=
  (Text.hexValue? c).filter fun n => n ≤ most

/-- Resolves backslashes. -/
def unquoteChars : List Char → List Char
  | '\\' :: a :: b :: c :: rest =>
    match octal? 3 a, octal? 7 b, octal? 7 c with
    | some x, some y, some z => Char.ofNat (x * 64 + y * 8 + z) :: unquoteChars rest
    | _, _, _ =>
      if a == '\n' then '\\' :: a :: unquoteChars (b :: c :: rest)
      else a :: unquoteChars (b :: c :: rest)
  | '\\' :: a :: rest => if a == '\n' then '\\' :: a :: unquoteChars rest else a :: unquoteChars rest
  | c :: rest => c :: unquoteChars rest
  | [] => []

/-- The value of a cookie without its quotes. -/
def cookieValue (s : String) : String :=
  match s.toList with
  | first :: rest =>
    if first == Text.doubleQuote && rest.getLast? == some Text.doubleQuote then
      String.ofList (unquoteChars rest.dropLast)
    else s
  | [] => s

/-- One cookie, if there is anything. -/
def cookieOf? (piece : String) : Option (String × String) :=
  let (name, value) := match Text.cut '=' piece with
    | (name, some value) => (Text.strip name, Text.strip value)
    | (value, none) => ("", Text.strip value)
  if name.isEmpty && value.isEmpty then none else some (name, cookieValue value)

/-- The cookies of a request, in order. -/
def cookies (r : Request) : List (String × String) :=
  (Text.split ';' ("; ".intercalate (r.headerValues "cookie"))).filterMap cookieOf?

/-- The cookie of a name. -/
def cookie? (r : Request) (name : String) : Option String :=
  (valuesOf r.cookies name).getLast?

end Intake.Request
