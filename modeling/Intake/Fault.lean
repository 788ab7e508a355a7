import Intake.Journal
import Intake.Json.Writer
import Intake.Markup.Flaw
import Intake.Model.Descriptor
import Intake.Pattern.Reader
import Intake.Scalar
import Intake.Shape.Rejection

/-!
Faults end an operation: they are no findings about a document but say that the operation cannot go
on.
-/

namespace Intake

/-- A text with characters that an encoding of one byte each does not have: the first of them, its
place, and how many follow each other. -/
structure UnencodableText where
  first : Char
  place : Nat
  count : Nat
deriving DecidableEq, Repr, Inhabited

/-- The words for a text that cannot be encoded. -/
def UnencodableText.message (u : UnencodableText) : String :=
  let escape := if u.first.toNat < 0x10000 then "\\u" ++ Text.hexText 4 u.first.toNat
    else "\\U" ++ Text.hexText 8 u.first.toNat
  let quote := String.singleton Text.singleQuote
  Text.enclosed "latin-1" ++ " codec can" ++ quote ++ "t encode "
    ++ (if u.count == 1 then "character " ++ Text.enclosed escape ++ " in position " ++ toString u.place
      else "characters in position " ++ toString u.place ++ "-" ++ toString (u.place + u.count - 1))
    ++ ": ordinal not in range(256)"

/-- Why an operation cannot go on. -/
inductive Fault where
  | unknownSource (e : UnknownSource)
  | nanToInteger
  | infinityToInteger
  | integerTooLarge
  | integerLiteral (text : String)
  | numberLiteral (text : String)
  | pattern (flaw : Pattern.Flaw)
  | unwritable (fault : Json.WriteFault)
  | noLength (type : String)
  | noOffset (type : String)
  | noNumber (function type : String)
  | noText (type : String)
  | noItems (type : String)
  | noEntries (type : String)
  | unreadable (why : Unreadable)
  | markup (flaw : Markup.Flaw)
  | frozenRegistry (name : String)
  | unknownCode (shown : String)
  | rejected (rejections : List Rejection)
  | unencodable (text : UnencodableText)
  | consumed
  | tooDeep
  | deepDocument (text : String)
deriving DecidableEq, Repr, Inhabited

namespace Fault

/-- The words for a fault. -/
def message : Fault → String
  | .unknownSource e => e.message
  | .nanToInteger => "cannot convert float NaN to integer"
  | .infinityToInteger => "cannot convert float infinity to integer"
  | .integerTooLarge => "int too large to convert to float"
  | .integerLiteral text => "invalid literal for int() with base 10: " ++ Text.quoted text
  | .numberLiteral text => "could not convert string to float: " ++ Text.quoted text
  | .pattern flaw => flaw.message
  | .unwritable (.unordered left right) =>
    Text.quoted "<" ++ " not supported between instances of " ++ Text.quoted left ++ " and "
      ++ Text.quoted right
  | .unwritable (.keyType found) => "keys must be str, int, float, bool or None, not " ++ found
  | .noLength type => "object of type " ++ Text.quoted type ++ " has no len()"
  | .noOffset type => Text.quoted type ++ " object has no attribute " ++ Text.quoted "utcoffset"
  | .noNumber function type =>
    function ++ " argument must be a string, a bytes-like object or a real number, not "
      ++ Text.quoted type
  | .noText type => "expected string or bytes-like object, got " ++ Text.quoted type
  | .noItems type => Text.quoted type ++ " object is not iterable"
  | .noEntries type => Text.quoted type ++ " object has no attribute " ++ Text.quoted "items"
  | .unreadable why => why.message
  | .markup flaw => flaw.message
  | .frozenRegistry name => "component registry is frozen; cannot register " ++ Text.quoted name
  | .unknownCode shown => shown ++ " is not a valid ErrorCode"
  | .rejected rejections =>
    toString rejections.length ++ " validation error" ++ Problem.plural rejections.length
  | .unencodable text => text.message
  | .consumed => "Stream consumed"
  | .tooDeep => "maximum recursion depth exceeded"
  | .deepDocument text => text

/-- The name of the type of a fault, as diagnostics give it. -/
def typeName : Fault → String
  | .unknownSource _ | .nanToInteger | .integerLiteral _ | .numberLiteral _ | .unknownCode _ =>
    "ValueError"
  | .infinityToInteger | .integerTooLarge => "OverflowError"
  | .pattern .tooManyRounds => "OverflowError"
  | .pattern .mixedAlphabets | .pattern (.longNumber _) => "ValueError"
  | .pattern _ => "error"
  | .unwritable _ | .noLength _ | .noNumber _ _ | .noText _ | .noItems _ => "TypeError"
  | .noOffset _ | .noEntries _ => "AttributeError"
  | .unreadable _ => "ConversionError"
  | .markup flaw => if flaw.isUnknownEncoding then "LookupError" else "XMLDecodeError"
  | .frozenRegistry _ | .consumed => "RuntimeError"
  | .rejected _ => "ValidationError"
  | .unencodable _ => "UnicodeEncodeError"
  | .tooDeep | .deepDocument _ => "RecursionError"

end Fault

/-- An operation that may note things and may fail; what it has noted stays. -/
abbrev Action := ExceptT Fault (StateM Journal)

namespace Action

/-- Adds a notice. -/
def note (level : Level) (event : String) (details : List (String × Value)) : Action Unit :=
  modify fun j => j.note ⟨level, event, details⟩

/-- What the declarations of a model's fields say. -/
def describe (c : Catalogue) (m : Model) : Except Fault (List Descriptor) :=
  (c.describe m).mapError .unknownSource

end Action
end Intake
