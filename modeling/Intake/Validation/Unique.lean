import Intake.Fault

/-!
Whether all items of an array differ. An item that cannot stand in a set is compared by its document,
so it equals a text that reads the same.
-/

namespace Intake.Validation

/-- What stands for an item in the comparison. -/
def uniqueKey (v : Value) : Except Fault Value :=
  if v.isHashable then .ok v
  else match v with
    | .record _ _ => .ok (.text (Json.compact v))
    | v => ((Json.dump v).map Value.text).mapError .unwritable

/-- Whether all items differ from each other and from those before. -/
def allUnique (seen : List Value) : List Value → Except Fault Bool
  | [] => .ok true
  | v :: rest => do
    let key ← uniqueKey v
    if seen.any key.same then return false
    allUnique (key :: seen) rest

end Intake.Validation
