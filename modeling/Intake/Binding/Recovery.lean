import Intake.Binding.Body
import Intake.Binding.Strings

/-!
Building a record from texts that were read. Fields that are rejected are told as errors and fall back
on what a missing field stands for, so there is always a record.
-/

namespace Intake.Binding

/-- A rejection as an error of a field. -/
def errorOf (r : Rejection) : FieldError := ⟨Rejection.pathText r.path, r.problem.message⟩

/-- The key of the document that a rejection is about. -/
def rejectedKey? (r : Rejection) : Option String :=
  match r.path with
  | .key name :: _ => some name
  | _ => none

/-- A document without the keys that were rejected. -/
def withoutRejected (rejections : List Rejection) (entries : List (Value × Value)) :
    List (Value × Value) :=
  let rejected := rejections.filterMap rejectedKey?
  entries.filter fun (k, _) => !((k.text?).any rejected.contains)

/-- Builds a record, if need be without the fields that are rejected. -/
def buildValue (c : Catalogue) (model : String) (entries : List (Value × Value)) :
    Value × List FieldError :=
  match Shape.build c model (.dict entries) with
  | .ok value => (value, [])
  | .error rejections =>
    let errors := rejections.map errorOf
    match Shape.build c model (.dict (withoutRejected rejections entries)) with
    | .ok value => (value, errors)
    | .error _ => (Shape.construct c model [], errors)

/-- A record from what was read, with all errors and, if they are asked for, those of its rules. -/
def bindDecoded (c : Catalogue) (m : Model) (validate : Bool) (found : Decoded) : Action Bound := do
  let (value, errors) := buildValue c m.name found.entries
  return ⟨value, found.errors ++ errors ++ (← ruleErrors c validate value)⟩

/-- Binds a record from what is offered. -/
def bindStrings (c : Catalogue) (m : Model) (offers : List Offer) : Action Bound := do
  bindDecoded c m true (← (decodeStrings c m.name offers : Except Fault Decoded))

end Intake.Binding
