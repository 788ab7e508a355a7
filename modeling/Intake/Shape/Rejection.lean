import Intake.Calendar.Stamp
import Intake.Number.Decimal
import Intake.Value.Display

/-!
Why a value does not fit a type, and where. Every problem has a label and a wording; the place is the
path of keys and positions that leads to it.
-/

namespace Intake

/-- One step on the way to a place in a document. -/
inductive Step where
  | key (name : String)
  | index (i : Int)
deriving DecidableEq, Repr, Inhabited

/-- Why a value does not fit. -/
inductive Problem where
  | missing
  | extra
  | keyType
  | stringType
  | stringUnicode
  | stringTooLong (most : Nat)
  | intType
  | intParsing
  | intSize
  | intFraction
  | notFinite
  | floatType
  | floatParsing
  | boolType
  | boolParsing
  | momentType
  | momentParsing (fault : Calendar.Stamp.Fault)
  | momentFromDay (fault : Calendar.Stamp.Fault)
  | dayType
  | dayFromMoment (fault : Calendar.Stamp.Fault)
  | dayInexact
  | uuidType
  | uuidParsing (fault : Uuid.Fault)
  | bytesType
  | listType
  | setType (frozen : Bool)
  | tupleType
  | dictType
  | unhashable
  | tooLong (noun : String) (most found : Nat)
  | nullRequired
  | literal (choices : List String)
  | enumeration (choices : List String)
  | modelType (name : String)
  | tooSmall (least : Int)
  | tooGreat (greatest : Int)
  | cycle
  | valueError (text : String)
deriving DecidableEq, Repr, Inhabited

/-- A problem and the way to it. -/
structure Rejection where
  path : List Step
  problem : Problem
deriving DecidableEq, Repr, Inhabited

namespace Problem

/-- The label of a problem. -/
def label : Problem → String
  | .missing => "missing"
  | .extra => "extra_forbidden"
  | .keyType => "invalid_key"
  | .stringType => "string_type"
  | .stringUnicode => "string_unicode"
  | .stringTooLong _ => "string_too_long"
  | .intType => "int_type"
  | .intParsing => "int_parsing"
  | .intSize => "int_parsing_size"
  | .intFraction => "int_from_float"
  | .notFinite => "finite_number"
  | .floatType => "float_type"
  | .floatParsing => "float_parsing"
  | .boolType => "bool_type"
  | .boolParsing => "bool_parsing"
  | .momentType => "datetime_type"
  | .momentParsing _ => "datetime_parsing"
  | .momentFromDay _ => "datetime_from_date_parsing"
  | .dayType => "date_type"
  | .dayFromMoment _ => "date_from_datetime_parsing"
  | .dayInexact => "date_from_datetime_inexact"
  | .uuidType => "uuid_type"
  | .uuidParsing _ => "uuid_parsing"
  | .bytesType => "bytes_type"
  | .listType => "list_type"
  | .setType false => "set_type"
  | .setType true => "frozen_set_type"
  | .tupleType => "tuple_type"
  | .dictType => "dict_type"
  | .unhashable => "set_item_not_hashable"
  | .tooLong _ _ _ => "too_long"
  | .nullRequired => "none_required"
  | .literal _ => "literal_error"
  | .enumeration _ => "enum"
  | .modelType _ => "model_type"
  | .tooSmall _ => "greater_than_equal"
  | .tooGreat _ => "less_than_equal"
  | .cycle => "recursion_loop"
  | .valueError _ => "value_error"

/-- Choices with commas between them and a word before the last. -/
def oneOf (choices : List String) : String :=
  match choices.reverse with
  | [] => ""
  | [only] => only
  | last :: earlier => ", ".intercalate earlier.reverse ++ " or " ++ last

/-- An s for every number but one. -/
def plural (n : Nat) : String := if n == 1 then "" else "s"

/-- The wording of a problem. -/
def message : Problem → String
  | .missing => "Field required"
  | .extra => "Extra inputs are not permitted"
  | .keyType => "Keys should be strings"
  | .stringType => "Input should be a valid string"
  | .stringUnicode =>
    "Input should be a valid string, unable to parse raw data as a unicode string"
  | .stringTooLong most =>
    "String should have at most " ++ toString most ++ " character" ++ plural most
  | .intType => "Input should be a valid integer"
  | .intParsing => "Input should be a valid integer, unable to parse string as an integer"
  | .intSize => "Unable to parse input string as an integer, exceeded maximum size"
  | .intFraction => "Input should be a valid integer, got a number with a fractional part"
  | .notFinite => "Input should be a finite number"
  | .floatType => "Input should be a valid number"
  | .floatParsing => "Input should be a valid number, unable to parse string as a number"
  | .boolType => "Input should be a valid boolean"
  | .boolParsing => "Input should be a valid boolean, unable to interpret input"
  | .momentType => "Input should be a valid datetime"
  | .momentParsing fault => "Input should be a valid datetime, " ++ fault.message
  | .momentFromDay fault => "Input should be a valid datetime or date, " ++ fault.message
  | .dayType => "Input should be a valid date"
  | .dayFromMoment fault => "Input should be a valid date or datetime, " ++ fault.message
  | .dayInexact => "Datetimes provided to dates should have zero time - e.g. be exact dates"
  | .uuidType => "UUID input should be a string, bytes or UUID object"
  | .uuidParsing fault => "Input should be a valid UUID, " ++ fault.message
  | .bytesType => "Input should be a valid bytes"
  | .listType => "Input should be a valid list"
  | .setType false => "Input should be a valid set"
  | .setType true => "Input should be a valid frozenset"
  | .tupleType => "Input should be a valid tuple"
  | .dictType => "Input should be a valid dictionary"
  | .unhashable => "Set items should be hashable"
  | .tooLong noun most found =>
    noun ++ " should have at most " ++ toString most ++ " item" ++ plural most
      ++ " after validation, not " ++ toString found
  | .nullRequired => "Input should be None"
  | .literal choices | .enumeration choices => "Input should be " ++ oneOf choices
  | .modelType name => "Input should be a valid dictionary or instance of " ++ name
  | .tooSmall least => "Input should be greater than or equal to " ++ toString least
  | .tooGreat greatest => "Input should be less than or equal to " ++ toString greatest
  | .cycle => "Recursion error - cyclic reference detected"
  | .valueError text => "Value error, " ++ text

end Problem

namespace Rejection

/-- A rejection one step further from the top. -/
def under (step : Step) (r : Rejection) : Rejection := { r with path := step :: r.path }

/-- A rejection of the value itself. -/
def here (problem : Problem) : Rejection := ⟨[], problem⟩

/-- A path with points between names and positions in brackets. -/
def pathText (path : List Step) : String :=
  let rec go (first : Bool) : List Step → String
    | [] => ""
    | .index i :: rest => "[" ++ toString i ++ "]" ++ go false rest
    | .key name :: rest => (if first then "" else ".") ++ name ++ go false rest
  go true path

end Rejection
end Intake
