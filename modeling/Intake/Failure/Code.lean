/-!
The codes of failures. A code says what went wrong by number and name; its status and its category
follow from the number.
-/

namespace Intake

/-- What went wrong. -/
inductive ErrorCode where
  | invalid
  | invalidType
  | payloadTooLarge
  | invalidJson
  | invalidXml
  | invalidForm
  | unknownField
  | unsupportedMediaType
  | notFound
  | internal
  | unexpected
deriving DecidableEq, Repr, Inhabited

namespace ErrorCode

def number : ErrorCode → Nat
  | .invalid => 2000
  | .invalidType => 2004
  | .payloadTooLarge => 2020
  | .invalidJson => 2021
  | .invalidXml => 2022
  | .invalidForm => 2023
  | .unknownField => 2024
  | .unsupportedMediaType => 2025
  | .notFound => 4010
  | .internal => 9000
  | .unexpected => 9001

def name : ErrorCode → String
  | .invalid => "E2000_VALIDATION_GENERIC"
  | .invalidType => "E2004_INVALID_TYPE"
  | .payloadTooLarge => "E2020_PAYLOAD_TOO_LARGE"
  | .invalidJson => "E2021_INVALID_JSON"
  | .invalidXml => "E2022_INVALID_XML"
  | .invalidForm => "E2023_INVALID_FORM"
  | .unknownField => "E2024_UNKNOWN_FIELD"
  | .unsupportedMediaType => "E2025_UNSUPPORTED_MEDIA_TYPE"
  | .notFound => "E4010_NOT_FOUND"
  | .internal => "E9000_INTERNAL_GENERIC"
  | .unexpected => "E9001_UNEXPECTED_ERROR"

def all : List ErrorCode :=
  [.invalid, .invalidType, .payloadTooLarge, .invalidJson, .invalidXml, .invalidForm, .unknownField,
    .unsupportedMediaType, .notFound, .internal, .unexpected]

/-- The code of a number. -/
def ofNumber? (n : Int) : Option ErrorCode := all.find? fun c => (c.number : Int) == n

/-- The code of a name. -/
def ofName? (name : String) : Option ErrorCode := all.find? fun c => c.name == name

/-- The status of a reply: what a client got wrong is below 500, all else is not. -/
def httpStatus (c : ErrorCode) : Nat :=
  if c.number = 2020 then 413
  else if c.number = 2025 then 415
  else if 2000 ≤ c.number ∧ c.number < 2100 then 400
  else if c.number = 4010 then 404
  else 500

def category (c : ErrorCode) : String :=
  if 2000 ≤ c.number ∧ c.number < 3000 then "validation"
  else if 4000 ≤ c.number ∧ c.number < 5000 then "resource"
  else "internal"

end ErrorCode
end Intake
