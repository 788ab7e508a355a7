import Intake.Binding.JsonTypes

/-!
Documents without the keys that their models do not have. Records in fields and in arrays are cleared
of such keys, too; the values of maps and of fields of other kinds stay as they are.
-/

namespace Intake.Binding

/-- A value cleared by the model of its record, and the same for its items. -/
structure Cleared where
  value : Value
  whole : String → Except Fault Value
  items : String → Except Fault Value

/-- The value of a field, cleared as its kind says. -/
def clearField (d : Descriptor) (v : Cleared) : Except Fault Value :=
  match d.model, d.kind with
  | some model, .record => v.whole model
  | some model, .array => v.items model
  | _, _ => .ok v.value

/-- The entries that the fields of a record have, in the order of the fields. -/
def clearFields (entries : List (Value × Value)) (cleared : List (Value × Cleared)) :
    List Descriptor → Except Fault (List (Value × Value))
  | [] => .ok []
  | d :: rest => do
    let key := keyOf d entries
    match (cleared.find? fun e => e.1.same (.text key)).map (·.2) with
    | some v => return (.text key, ← clearField d v) :: (← clearFields entries cleared rest)
    | none => clearFields entries cleared rest

/-- The entries that the fields of a model have. -/
def clearEntries (c : Catalogue) (entries : List (Value × Value)) (cleared : List (Value × Cleared))
    (model : String) : Except Fault (List (Value × Value)) :=
  match c.model? model with
  | none => .ok entries
  | some m => do
    return Value.dictOf (← clearFields entries cleared (← Action.describe c m))

mutual

/-- A value, and itself and its items cleared. -/
def clear (c : Catalogue) : Value → Cleared
  | .dict entries =>
    { value := .dict entries
      whole := fun model => (clearEntries c entries (clearEach c entries) model).map .dict
      items := fun _ => .ok (.dict entries) }
  | .list xs =>
    { value := .list xs
      whole := fun _ => .ok (.list xs)
      items := fun model => (clearItems c model xs).map .list }
  | v => { value := v, whole := fun _ => .ok v, items := fun _ => .ok v }

def clearEach (c : Catalogue) : List (Value × Value) → List (Value × Cleared)
  | [] => []
  | (k, v) :: rest => (k, clear c v) :: clearEach c rest

def clearItems (c : Catalogue) (model : String) : List Value → Except Fault (List Value)
  | [] => .ok []
  | v :: rest => do return (← (clear c v).whole model) :: (← clearItems c model rest)

end

/-- A document with the keys that its model has. -/
def knownKeys (c : Catalogue) (model : String) (entries : List (Value × Value)) :
    Except Fault (List (Value × Value)) :=
  clearEntries c entries (clearEach c entries) model

end Intake.Binding
