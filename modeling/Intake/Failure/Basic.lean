import Intake.Failure.Code
import Intake.Validation.Record

/-!
Failures: why a request could not be taken at all. A failure has a code, a message, particulars, and
the place and request that it belongs to.
-/

namespace Intake

/-- The identifier that ties a failure to a request: one that the request brought, or one that is made
up for it. -/
inductive Correlation where
  | generated
  | given (id : String)
deriving DecidableEq, Repr, Inhabited

/-- The text of a correlation; one that is made up shows only that it is. -/
def Correlation.text : Correlation → String
  | .generated => "<generated>"
  | .given id => id

/-- A failure. -/
structure Failure where
  code : ErrorCode
  message : String
  correlation : Correlation
  origin : Option String
  requestId : Option String
  metadata : List (String × Value)
deriving Repr, Inhabited

namespace Failure

/-- A failure of a code with those particulars that are given. -/
def make (code : ErrorCode) (message origin : String) (metadata : List (String × Value)) : Failure :=
  { code := code
    message := message
    correlation := .generated
    origin := some origin
    requestId := none
    metadata := metadata.filter fun (_, v) => !v.isNull }

/-- The particulars of broken rules. -/
def errorList (errors : List FieldError) : Value :=
  .list (errors.map fun e =>
    .dict [(.text "field", .text e.field), (.text "error", .text e.error)])

/-- All broken rules as one failure. -/
def ofFieldErrors (errors : List FieldError) (origin : String) : Failure :=
  let message := match errors with
    | [e] => e.field ++ ": " ++ e.error
    | _ => "Validation failed: " ++ toString errors.length ++ " errors"
  make .invalid message origin [("error_count", .int errors.length), ("errors", errorList errors)]

def invalidJson (reason origin : String) : Failure :=
  make .invalidJson ("Invalid JSON: " ++ reason) origin []

def invalidXml (reason origin : String) : Failure :=
  make .invalidXml ("Invalid XML: " ++ reason) origin []

def invalidForm (reason origin : String) : Failure :=
  make .invalidForm ("Invalid form body: " ++ reason) origin []

/-- A document has a key that its model does not have. -/
def unknownField (key model origin : String) : Failure :=
  make .unknownField ("Unknown field " ++ Text.enclosed key ++ " for " ++ model) origin
    [("field", .text key), ("model", .text model)]

/-- A document does not have the shape of its model. -/
def invalidType (message model origin : String) : Failure :=
  make .invalidType message origin [("model", .text model)]

def unsupportedMediaType (found expected origin : String) : Failure :=
  make .unsupportedMediaType
    ("Unsupported content type " ++ Text.enclosed found ++ ", expected " ++ expected) origin
    [("content_type", .text found)]

/-- A failure with the correlation that a request brought; an empty one changes nothing. -/
def correlate (f : Failure) (id : Option String) : Failure :=
  match id with
  | some id => if id.isEmpty then f else { f with correlation := .given id }
  | none => f

/-- A failure in another context: with a correlation unless it is empty, and with the origin and the
request that are given, of which there may be none. -/
def within (f : Failure) (correlation : Option String) (origin requestId : Option (Option String)) :
    Failure :=
  { f.correlate correlation with
    origin := origin.getD f.origin
    requestId := requestId.getD f.requestId }

/-- One line for a failure. -/
def text (f : Failure) : String :=
  "[" ++ f.code.name ++ "] " ++ f.message ++ " (correlation_id=" ++ f.correlation.text ++ ")"

/-- A failure as the body of a reply. -/
def envelope (f : Failure) : Value :=
  let entry (key : String) (v : Value) : Value × Value := (.text key, v)
  .dict [entry "error" (.dict [
    entry "code" (.text f.code.name),
    entry "code_num" (.int f.code.number),
    entry "message" (.text f.message),
    entry "category" (.text f.code.category),
    entry "correlation_id" (.text f.correlation.text),
    entry "metadata" (.dict (f.metadata.map fun (k, v) => (.text k, v)))])]

end Failure
end Intake
