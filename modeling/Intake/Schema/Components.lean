import Intake.Schema.Derivation

/-!
The components of models for documentation: every model in both dialects, with all the records that it
leads to. The registry is frozen then.
-/

namespace Intake.Schema

/-- Checks the rules of a model and notes every diagnostic. -/
def noteDiagnostics (c : Catalogue) (model : String) : Action Unit := do
  for diagnostic in ← checkModel c model do
    Action.note .debug "eager_check_diagnostic"
      [("model", .text model), ("diagnostic", .text diagnostic)]

/-- Puts models into the registry, in both dialects, and freezes it. -/
def registerAll (c : Catalogue) (models : List String) (check : Bool) : Registering Unit := do
  for model in models do
    if check then Registering.ofAction (noteDiagnostics c model)
    discard (ofJson c (.record model))
    discard (ofXml c (.record model) none)
  Registering.freeze

/-- The registry that models are put into: the given one, but a fresh one in the place of one without
components. -/
def startingFrom (given : Option Registry) : Registry :=
  match given with
  | some r => if r.size == 0 then Registry.empty else r
  | none => Registry.empty

/-- The registry of models, and what has become of the given one. A given registry with components is
filled, even if that fails halfway; one without components is left as it was. -/
def buildComponents (c : Catalogue) (models : List String) (check : Bool) (given : Option Registry) :
    StateM Journal (Except Fault Registry × Option Registry) := do
  let (result, filled) ← (registerAll c models check).run (startingFrom given)
  return (result.map fun _ => filled, given.map fun r => if r.size == 0 then r else filled)

end Intake.Schema
