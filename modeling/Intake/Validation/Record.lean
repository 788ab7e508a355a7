import Intake.Applicability
import Intake.Validation.Predicate

/-!
Validating records. The errors of a field come in the order of its rules, then those of empty items,
then those of the records inside it; every error names its field by the way to it. Validation notes
rules that do not apply and arguments that cannot be read, and reports neither.
-/

namespace Intake

/-- A broken rule: the way to the field and the message. -/
structure FieldError where
  field : String
  error : String
deriving DecidableEq, Repr, Inhabited

namespace Validation

/-- The rule by which an array of moments or identifiers may hold empty items. -/
def emptyItemsRule : String := "emptyItemsAllowed"

/-- The message key of empty items. -/
def emptyItemsKey : String := "emptyItemsAllowed (not set)"

/-- The way to a field of a record. -/
def join (base name : String) : String :=
  if base.isEmpty then name else base ++ "." ++ name

/-- The way to an item. -/
def indexed (path : String) (i : Nat) : String := path ++ "[" ++ toString i ++ "]"

/-- The error of one rule on the value of a field. -/
def applyRule (c : Catalogue) (m : Model) (d : Descriptor) (path : String) (value : Value) (r : Rule) :
    Action (List FieldError) := do
  if r.name == "required" then
    if ← (isZero c value d.kind : Except Fault Bool) then
      return [⟨path, d.messages.resolve "required" "is required"⟩]
    else return []
  else if r.name == emptyItemsRule || value.isNull then return []
  else if r.name == "format" && r.arg != some "email" then
    if d.kind == .string || d.elementKind == some .string then
      noteOnce m d r .debug "format_not_enforced" [("format", (r.arg.map Value.text).getD .null)]
    return []
  else
    match judge d r value with
    | .ok (some message) => return [⟨path, d.messages.resolve r.name message⟩]
    | .ok none => return []
    | .error (.argument reason) =>
      noteOnce m d r .warning "validation_rule_arg_invalid" [("reason", .text reason)]
      return []
    | .error (.fault fault) => throw fault

/-- The errors of empty items of an array of moments or identifiers. -/
def emptyItemErrors (d : Descriptor) (path : String) (value : Value) : Except Fault (List FieldError) :=
  match d.kind, d.elementKind with
  | .array, some kind =>
    if !kind.isSpecial || isFalsy value || Rule.has d.rules emptyItemsRule then .ok []
    else do
      let flags ← (← itemsOf value).mapM (isEmptyItem kind)
      return (flags.filter id).map fun _ =>
        ⟨path, d.messages.resolve emptyItemsKey "empty items not allowed"⟩
  | _, _ => .ok []

/-- The errors of a field itself. -/
def fieldErrors (c : Catalogue) (m : Model) (d : Descriptor) (path : String) (value : Value) :
    Action (List FieldError) := do
  let rules ← applicableRules m d
  let errors ← rules.mapM (applyRule c m d path value)
  return errors.flatten ++ (← (emptyItemErrors d path value : Except Fault (List FieldError)))

/-- How to validate the records inside a value: the value itself, and its items. -/
structure Inside where
  whole : String → Action (List FieldError)
  items : String → Action (List FieldError)

/-- Nothing inside. -/
def Inside.nothing : Inside := ⟨fun _ => pure [], fun _ => pure []⟩

/-- No records inside. Items are asked for all the same, unless there is nothing. -/
def Inside.ofOther (v : Value) : Inside where
  whole := fun _ => pure []
  items := fun _ =>
    if isFalsy v then pure []
    else do
      discard (itemsOf v : Except Fault (List Value))
      return []

/-- The errors of the records inside the value of a field. -/
def insideErrors (d : Descriptor) (path : String) (inside : Inside) : Action (List FieldError) :=
  match d.kind, d.elementKind with
  | .record, _ => inside.whole path
  | .array, some .record => inside.items path
  | _, _ => pure []

/-- Validates the fields of a record in their order. -/
def validateFields (c : Catalogue) (m : Model) (base : String) (attributes : List (String × Value))
    (insides : List (String × Inside)) : List Descriptor → Action (List FieldError)
  | [] => pure []
  | d :: rest => do
    let path := join base d.wireName
    let value := (Value.attribute? attributes d.name).getD .null
    let own ← fieldErrors c m d path value
    let inner ← insideErrors d path ((insides.lookup d.name).getD .nothing)
    return own ++ inner ++ (← validateFields c m base attributes insides rest)

mutual

/-- Validates what is inside a value. -/
def inside (c : Catalogue) : Value → Inside
  | .record name attributes =>
    { whole := fun path =>
        match c.model? name with
        | none => pure []
        | some m => do
          let fields ← (Action.describe c m : Except Fault (List Descriptor))
          validateFields c m path attributes (insideEach c attributes) fields
      items := fun _ => pure [] }
  | .list xs => { whole := fun _ => pure [], items := insideItems c 0 xs }
  | .tuple xs => { whole := fun _ => pure [], items := insideItems c 0 xs }
  | .set _ xs => { whole := fun _ => pure [], items := insideItems c 0 xs }
  | v => .ofOther v

def insideEach (c : Catalogue) : List (String × Value) → List (String × Inside)
  | [] => []
  | (name, v) :: rest => (name, inside c v) :: insideEach c rest

def insideItems (c : Catalogue) : (index : Nat) → List Value → String → Action (List FieldError)
  | _, [], _ => pure []
  | i, v :: rest, path => do
    let first ← (inside c v).whole (indexed path i)
    return first ++ (← insideItems c (i + 1) rest path)

end

/-- The errors of a record, each with the way to its field behind a base. -/
def validateUnder (c : Catalogue) (base : String) (v : Value) : Action (List FieldError) :=
  (inside c v).whole base

/-- The errors of a record. -/
def validate (c : Catalogue) (v : Value) : Action (List FieldError) := validateUnder c "" v

end Validation
end Intake
