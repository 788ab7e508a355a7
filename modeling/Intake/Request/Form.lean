import Intake.Request.Multipart
import Intake.Request.Pairs

/-!
Forms. The media type of the body says how it is written: as pairs in one text, or in several parts.
A body of any other type is an empty form.
-/

namespace Intake.Request

/-- The kinds of bodies that are forms. -/
inductive FormType where
  | pairs
  | parts
deriving DecidableEq, Repr

/-- The kind of form that a header announces. -/
def formType? (h : HeaderValue) : Option FormType :=
  if h.main == "multipart/form-data" then some .parts
  else if h.main == "application/x-www-form-urlencoded" then some .pairs
  else none

/-- The entries of a form, in order. -/
abbrev Form := List (String × FormEntry)

/-- Whether the body is read as a form. -/
def isForm (r : Request) : Bool := (formType? (HeaderValue.ofText r.contentType)).isSome

/-- Reads the body as a form. -/
def form (r : Request) : Except MultipartFault Form :=
  let header := HeaderValue.ofText r.contentType
  match formType? header with
  | none => .ok []
  | some .pairs => .ok ((pairsOf (Text.latin1 r.body)).map fun (k, v) => (k, .text v))
  | some .parts => readMultipart header r.body

/-- The texts of a form under a name, in order. -/
def Form.values (f : Form) (name : String) : List String :=
  f.filterMap fun (k, entry) =>
    match entry with
    | .text s => if k == name then some s else none
    | .upload => none

end Intake.Request
