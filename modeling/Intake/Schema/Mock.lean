import Intake.Fault
import Intake.Markup.RecordElement
import Intake.Shape.Build

/-!
Mock data: a value for every type, for examples in documentation. A record that contains itself ends
where it comes up again: there it is nothing if it may be absent, and empty otherwise.
-/

namespace Intake.Mock

/-- The moment that stands for all moments. -/
def moment : Calendar.Moment :=
  { Calendar.Moment.first with day := ⟨2024, 1, 15⟩, clock := ⟨10, 30, 0, 0⟩ }

/-- The identifier that stands for all identifiers. -/
def uuid : Uuid := (Uuid.ofLenient? "550e8400-e29b-41d4-a716-446655440000").getD Uuid.nil

/-- The number that stands for all numbers with a fraction. -/
def float : Binary64 := (Number.float? "3.14").getD Binary64.zero

/-- A value of a kind that is not made of parts. -/
def scalar : Kind → Value
  | .string => .text "example"
  | .integer => .int 42
  | .float => .float float
  | .boolean => .bool true
  | .moment => .moment moment
  | .uuid => .uuid uuid
  | .array => .list []
  | .map => .dict []
  | .record | .any => .null

/-- Whether a type is one of the records that are being made. -/
def isOpen (stack : List String) (t : Ty) : Bool :=
  match t.unwrap.1 with
  | .record name => stack.contains name
  | _ => false

mutual

/-- A value of a type inside the records that are being made; records are made by `record`. -/
def value (c : Catalogue) (record : String → Except Fault Value) (stack : List String) :
    Ty → Except Fault Value
  | .annotated inner => value c record stack inner
  | .union choices => valueOfOnly c record stack choices
  | .record name => if stack.contains name then .ok (.dict []) else record name
  | .list item => values stack item (value c record stack item)
  | .set _ item => values stack item (value c record stack item)
  | .sequence item => values stack item (value c record stack item)
  | .tuple items => valuesOfFirst c record stack items
  | .dict _ item =>
    if isOpen stack item then .ok (.dict [])
    else (value c record stack item).map fun v => .dict [(.text "key", v)]
  | t => .ok (scalar (c.kindOf t))
where
  /-- A list of one item, or of none if the item is being made. -/
  values (stack : List String) (item : Ty) (v : Except Fault Value) : Except Fault Value :=
    if isOpen stack item then .ok (.list []) else v.map fun v => .list [v]

/-- A value of the only choice that is not absence. -/
def valueOfOnly (c : Catalogue) (record : String → Except Fault Value) (stack : List String) :
    List Ty → Except Fault Value
  | [] => .ok .null
  | t :: rest =>
    if t.isNull then valueOfOnly c record stack rest
    else if rest.all Ty.isNull then value c record stack t
    else .ok .null

/-- A list of one item of the first type. -/
def valuesOfFirst (c : Catalogue) (record : String → Except Fault Value) (stack : List String) :
    List Ty → Except Fault Value
  | [] => .ok (.list [])
  | t :: _ =>
    if isOpen stack t then .ok (.list []) else (value c record stack t).map fun v => .list [v]

end

/-- A value of a field. -/
def fieldValue (c : Catalogue) (record : String → Except Fault Value) (stack : List String) (t : Ty) :
    Except Fault Value :=
  if isOpen stack t && t.unwrap.2 then .ok .null else value c record stack t

/-- A document of a model. Every record inside is of a model that is not yet being made, so the models
bound the depth. -/
def document (c : Catalogue) : (fuel : Nat) → (stack : List String) → String → Except Fault Value
  | 0, _, _ => .ok (.dict [])
  | fuel + 1, stack, name =>
    match c.model? name with
    | none => .ok (.dict [])
    | some m => do
      let inside := name :: stack
      let entries ← (← Action.describe c m).mapM fun d => do
        return (Value.text d.wireName, ← fieldValue c (document c fuel inside) inside d.type)
      return .dict (Value.dictOf entries)

/-- A value of a type. -/
def ofType (c : Catalogue) (t : Ty) : Except Fault Value :=
  value c (document c (c.models.length + 1) []) [] t

/-- The entries of a document of a model that are not nothing. -/
def givenEntries (c : Catalogue) (model : String) : Except Fault (List (Value × Value)) := do
  match ← ofType c (.record model) with
  | .dict entries => return entries.filter fun e => !e.2.isNull
  | _ => return []

/-- A record of a model, or why the model rejects it. -/
def record? (c : Catalogue) (model : String) : Except Fault (Except (List Rejection) Value) := do
  return Shape.build c model (.dict (← givenEntries c model))

/-- Notes that a model rejects the record that was made for it. -/
def noteSkipped (model : String) (rejections : List Rejection) : Action Unit :=
  Action.note .warning "schema_example_skipped"
    [("model", .text model), ("errors", .int rejections.length)]

/-- A record of a model written by `write`; none, and a notice, if the model rejects it. -/
def written? (c : Catalogue) (model : String) (write : Value → Except Fault String) :
    Action (Option String) := do
  match ← (record? c model : Except Fault (Except (List Rejection) Value)) with
  | .ok v => return some (← (write v : Except Fault String))
  | .error rejections =>
    noteSkipped model rejections
    return none

/-- An example document of a model, laid out over lines. -/
def xmlExample (c : Catalogue) (model : String) (root : Option String) : Action (Option String) :=
  written? c model fun v => Markup.encode c v root true

end Intake.Mock
