import Intake.Text.Lowercase
import Intake.Text.Utf8
import Intake.Value.Basic

/-!
Requests. The names of headers are in lower case, and a header may stand several times. Parameters of
the path are values already; all other parts are text or bytes as they came.
-/

namespace Intake

/-- A request. -/
structure Request where
  method : String
  path : String
  query : String
  headers : List (String × String)
  body : List UInt8
  pathParameters : List (String × Value)
deriving Repr, Inhabited

namespace Request

/-- The values of a header, in order. -/
def headerValues (r : Request) (name : String) : List String :=
  (r.headers.filter fun h => h.1 == Text.lower name).map (·.2)

/-- The first value of a header. -/
def header? (r : Request) (name : String) : Option String := (r.headerValues name).head?

/-- The header that says what the body is, empty if it is not there. -/
def contentType (r : Request) : String := (r.header? "content-type").getD ""

end Request
end Intake
