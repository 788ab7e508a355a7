import Intake.Pattern.Matcher
import Intake.Pattern.Reader

/-!
Addresses of electronic mail: a local part, an at sign, and a domain of labels with points between them. A
pattern says what they are, in two alternatives: one for the letters and digits of ASCII, and one for those of
every script.
-/

namespace Intake.Email

/-- Signs that a local part may hold besides letters and digits. -/
def localSigns : String := ".!#$%&\x27*+/=?^_\x60\x7b|\x7d~-"

/-- A label of a domain as a pattern: at most 63 characters, with a letter at both ends. -/
def labelText (letter inner : String) : String :=
  letter ++ "(?:" ++ inner ++ "\x7b0,61\x7d" ++ letter ++ ")?"

/-- An address as a pattern. -/
def addressText (localChar label : String) : String :=
  "(?:" ++ localChar ++ "+@" ++ label ++ "(?:\\." ++ label ++ ")*)"

/-- Addresses with the letters and digits of ASCII. -/
def asciiText : String :=
  addressText ("[a-zA-Z0-9" ++ localSigns ++ "]") (labelText "[a-zA-Z0-9]" "[a-zA-Z0-9-]")

/-- Addresses with the letters and digits of every script. -/
def wideText : String :=
  addressText ("(?:[^\\W_]|[" ++ localSigns ++ "])") (labelText "[^\\W_]" "(?:[^\\W_]|-)")

/-- The pattern of addresses. -/
def pattern : Except Pattern.Flaw Pattern.Compiled := Pattern.compile .none (asciiText ++ "|" ++ wideText)

/-- Whether a text is an address. -/
def accepts (s : String) : Bool := pattern.toOption.any (·.matchesWhole s)

end Intake.Email
