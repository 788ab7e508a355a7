import Intake.Binding.Bind

/-!
What a handler of requests demands: a record from one source of the request. Unless it wants to see
them, errors of fields end the request as one failure that tells them all.
-/

namespace Intake.Binding

/-- A demand: the label of the source, whether rules count, and whether errors end the request. -/
structure Demand where
  source : String
  validate : Bool
  endsOnErrors : Bool
deriving DecidableEq, Repr, Inhabited

/-- What a body is by the header that says so: a form, a document of one of two kinds, or else the
media type itself. -/
def contentKind (r : Request) : String :=
  let type := Text.lower (Text.strip (Text.cut ';' r.contentType).1)
  if formTypes.contains type then "form"
  else if type.endsWith "json" then "json"
  else if type.endsWith "xml" then "xml"
  else type

/-- The way in which a source is bound; every source without a way of its own is bound field by
field. -/
def wayOf (source : String) (r : Request) : Except Failure Way :=
  if source == "body" then
    let kind := contentKind r
    if ["json", "xml", "form"].contains kind then .ok ((Way.ofLabel? kind).getD .all)
    else
      .error (.unsupportedMediaType (if kind.isEmpty then "none" else kind)
        "application/json, application/xml or a form" "bind.body")
  else .ok ((Way.ofLabel? source).getD .all)

/-- Meets a demand. -/
def Demand.meet (d : Demand) (c : Catalogue) (m : Model) (r : Request) (strict : Except Fault Bool) :
    Action Outcome := do
  match wayOf d.source r with
  | .error failure => return .error failure
  | .ok way =>
    match ← bind c m r ⟨d.validate, strict⟩ way with
    | .error failure => return .error failure
    | .ok bound =>
      if d.endsOnErrors && !bound.errors.isEmpty then
        return .error (.ofFieldErrors bound.errors ("bind." ++ d.source))
      else return .ok bound

end Intake.Binding
