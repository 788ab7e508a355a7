import Intake.Binding.KnownKeys
import Intake.Failure.Basic
import Intake.Shape.Build

/-!
Binding whole documents. A document that does not have the shape of its model is a failure, which a
key that is not known outweighs; a document that breaks rules is bound and its errors are told.
-/

namespace Intake

/-- A record that was bound, and the errors that were found on the way. -/
structure Bound where
  value : Value
  errors : List FieldError
deriving Repr, Inhabited

namespace Binding

/-- The failure for a document that was rejected. -/
def shapeFailure (m : Model) (origin : String) (rejections : List Rejection) : Failure :=
  match rejections.find? fun r => r.problem == .extra with
  | some r => .unknownField (Rejection.pathText r.path) m.name origin
  | none =>
    match rejections with
    | [] => .invalidType (m.name ++ ": ") m.name origin
    | r :: _ =>
      let place := Rejection.pathText r.path
      .invalidType ((if place.isEmpty then m.name else place) ++ ": " ++ r.problem.message) m.name origin

/-- Notes that a document could not be bound. -/
def noteUndecoded (m : Model) (origin : String) (particular : String × Value) : Action Unit :=
  Action.note .info "bind_decode_failed"
    [("model", .text m.name), ("origin", .text origin), particular]

/-- The errors of the rules of a record, if they are asked for. -/
def ruleErrors (c : Catalogue) (validate : Bool) (v : Value) : Action (List FieldError) :=
  if validate then Validation.validate c v else pure []

/-- How a document is bound. -/
structure BodyOptions where
  origin : String
  validate : Bool
  strict : Bool
  jsonTypes : Bool

/-- Binds a document to a model. -/
def bindDocument (c : Catalogue) (m : Model) (o : BodyOptions) (document : Value) :
    Action (Except Failure Bound) := do
  let .dict entries := document
    | return .error (.invalidType ("expected an object for " ++ m.name) m.name o.origin)
  let mismatch ← (if o.jsonTypes then jsonTypeMismatch c m.name entries "" else .ok none : Finding)
  if let some reason := mismatch then
    noteUndecoded m o.origin ("reason", .text reason)
    return .error (.invalidType reason m.name o.origin)
  let known ← (if o.strict then .ok entries else knownKeys c m.name entries :
    Except Fault (List (Value × Value)))
  match Shape.build c m.name (.dict known) with
  | .error rejections =>
    noteUndecoded m o.origin ("error_count", .int rejections.length)
    return .error (shapeFailure m o.origin rejections)
  | .ok value => return .ok ⟨value, ← ruleErrors c o.validate value⟩

end Binding
end Intake
