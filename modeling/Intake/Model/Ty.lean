import Intake.Value.Basic

/-!
The types of fields, and the kinds that they fall into. Annotations without meaning of their own and
the permission to be absent are stripped before a type is classified; an alternative of several types
has no kind.
-/

namespace Intake

/-- A type of a field. Records and enumerations are given by name, so types may refer to each other in
circles. -/
inductive Ty where
  | str
  | int
  | float
  | bool
  | moment
  | day
  | uuid
  | any
  | bytes
  | null
  | bareList
  | bareTuple
  | bareSet (frozen : Bool)
  | bareDict
  | enumeration (name : String)
  | record (name : String)
  | list (item : Ty)
  | set (frozen : Bool) (item : Ty)
  | tuple (items : List Ty)
  | sequence (item : Ty)
  | dict (key value : Ty)
  | union (choices : List Ty)
  | annotated (inner : Ty)
  | literal (values : List Value)
deriving Repr, Inhabited

mutual

/-- Whether two types are written alike. -/
def Ty.alike : Ty → Ty → Bool
  | .str, .str | .int, .int | .float, .float | .bool, .bool | .moment, .moment | .day, .day | .uuid, .uuid
  | .any, .any | .bytes, .bytes | .null, .null | .bareList, .bareList | .bareTuple, .bareTuple
  | .bareDict, .bareDict => true
  | .bareSet frozen, .bareSet other => frozen == other
  | .enumeration name, .enumeration other | .record name, .record other => name == other
  | .list item, .list other | .sequence item, .sequence other | .annotated item, .annotated other =>
    item.alike other
  | .set frozen item, .set otherFrozen other => frozen == otherFrozen && item.alike other
  | .tuple items, .tuple others | .union items, .union others => Ty.alikeAll items others
  | .dict key value, .dict otherKey otherValue => key.alike otherKey && value.alike otherValue
  | .literal values, .literal others => values == others
  | _, _ => false

def Ty.alikeAll : List Ty → List Ty → Bool
  | [], [] => true
  | t :: rest, other :: others => t.alike other && Ty.alikeAll rest others
  | _, _ => false

end

instance : BEq Ty := ⟨Ty.alike⟩

/-- The kinds that fields fall into. -/
inductive Kind where
  | string
  | integer
  | float
  | boolean
  | array
  | map
  | record
  | moment
  | uuid
  | any
deriving DecidableEq, Repr, Inhabited

namespace Kind

def label : Kind → String
  | .string => "string"
  | .integer => "integer"
  | .float => "float"
  | .boolean => "boolean"
  | .array => "array"
  | .map => "map"
  | .record => "record"
  | .moment => "datetime"
  | .uuid => "uuid"
  | .any => "any"

def all : List Kind :=
  [.string, .integer, .float, .boolean, .array, .map, .record, .moment, .uuid, .any]

/-- The kind with a label. -/
def ofLabel? (label : String) : Option Kind := all.find? fun k => k.label == label

def isNumeric (k : Kind) : Bool := k == .integer || k == .float

/-- Kinds that are made of parts and yet are treated as one value. -/
def isSpecial (k : Kind) : Bool := k == .moment || k == .uuid

end Kind

namespace Ty

def isNull : Ty → Bool
  | .null => true
  | _ => false

/-- The choices that a type offers. -/
def choices : Ty → List Ty
  | .union ts => ts
  | t => [t]

/-- The type that offers all given choices, each once; a single choice stands for itself. -/
def unionOf (ts : List Ty) : Ty :=
  let distinct := (ts.flatMap choices).foldl (fun kept t => if kept.contains t then kept else kept ++ [t]) []
  match distinct with
  | [t] => t
  | ts => .union ts

/-- The type whose values may be absent. -/
def optional (t : Ty) : Ty := unionOf [t, .null]

mutual

/-- The type without annotations and without the permission to be absent, and whether it had that
permission. -/
def unwrap : Ty → Ty × Bool
  | .annotated inner => inner.unwrap
  | .union choices =>
    let optional := choices.any isNull
    match unwrapOnly choices with
    | some (inner, innerOptional) => (inner, optional || innerOptional)
    | none => (.union choices, optional)
  | t => (t, false)

/-- The only choice that is not absence, unwrapped. -/
def unwrapOnly : List Ty → Option (Ty × Bool)
  | [] => none
  | t :: rest =>
    if t.isNull then unwrapOnly rest
    else if rest.all isNull then some t.unwrap
    else none

end

/-- The type of the items of a collection or of the values of a dictionary. -/
def element? : Ty → Option Ty
  | .list item | .set _ item | .sequence item => some item.unwrap.1
  | .tuple (item :: _) => some item.unwrap.1
  | .dict _ value => some value.unwrap.1
  | _ => none

/-- The name of the record that a type is. -/
def recordName? : Ty → Option String
  | .record name => some name
  | _ => none

end Ty

/-- A declared enumeration, its members in order. -/
structure Enumeration where
  name : String
  base : EnumBase
  members : List (String × Value)
deriving Repr, Inhabited

/-- The members as values. -/
def Enumeration.values (e : Enumeration) : List Value :=
  e.members.map fun (name, value) => .member e.name name e.base value

end Intake
