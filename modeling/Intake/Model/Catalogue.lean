import Intake.Model.Ty

/-!
Declared models. A model has the fields of its base first; a field that it declares again keeps its
place. A catalogue holds the models and enumerations that types refer to by name.
-/

namespace Intake

/-- The kind of an enumeration: that of the scalars its members are. -/
def Enumeration.kind (e : Enumeration) : Kind :=
  match e.base with
  | .text => .string
  | .integer => .integer
  | .plain => .any

/-- Where a field's default comes from. -/
inductive Default where
  | value (v : Value)
  | emptyList
  | emptyDict
  | emptySet
deriving Repr, Inhabited

/-- The value of a default. -/
def Default.get : Default → Value
  | .value v => v
  | .emptyList => .list []
  | .emptyDict => .dict []
  | .emptySet => .set false []

/-- Annotations of a field as they are written, absent where nothing is. -/
structure Annotations where
  rules : Option String
  messages : Option String
  form : Option String
  query : Option String
  header : Option String
  cookie : Option String
  path : Option String
  xml : Option String
  source : Option String
deriving DecidableEq, Repr, Inhabited

/-- No annotations. -/
def Annotations.none : Annotations :=
  ⟨.none, .none, .none, .none, .none, .none, .none, .none, .none⟩

/-- Bounds that the type of a field sets by itself. -/
structure Constraints where
  least : Option Int
  greatest : Option Int
  maxLength : Option Nat
deriving DecidableEq, Repr, Inhabited

/-- A declared field. -/
structure Field where
  name : String
  type : Ty
  default : Option Default
  documentKey : Option String
  annotations : Annotations
  description : Option String
  constraints : Constraints
deriving Repr, Inhabited

/-- The key of a field in documents. -/
def Field.wireName (f : Field) : String :=
  match f.documentKey with
  | some key => if key.isEmpty then f.name else key
  | none => f.name

/-- How strictly a model takes documents: a strict one fills missing keys with zero values, refuses
unknown keys and knows its fields by both names; a plain one does neither. -/
inductive Strictness where
  | strict
  | plain
deriving DecidableEq, Repr, Inhabited

/-- A declared model with the fields of its bases. -/
structure Model where
  name : String
  moduleName : String
  qualifiedName : String
  doc : Option String
  strictness : Strictness
  ancestors : List String
  fields : List Field
deriving Repr, Inhabited

/-- Puts declared fields over inherited ones. -/
def Field.extend (inherited declared : List Field) : List Field :=
  declared.foldl (fun all f =>
    if all.any fun g => g.name == f.name then all.map fun g => if g.name == f.name then f else g
    else all ++ [f]) inherited

/-- The models and enumerations in view. -/
structure Catalogue where
  models : List Model
  enumerations : List Enumeration
deriving Repr, Inhabited

namespace Catalogue

/-- The model of a name. -/
def model? (c : Catalogue) (name : String) : Option Model :=
  c.models.find? fun m => m.name == name

/-- The enumeration of a name. -/
def enumeration? (c : Catalogue) (name : String) : Option Enumeration :=
  c.enumerations.find? fun e => e.name == name

/-- Whether records of one model are records of another, too. -/
def isA (c : Catalogue) (name other : String) : Bool :=
  name == other || (c.model? name).any fun m => m.ancestors.contains other

/-- The kind of a type without annotations. -/
def kindOf (c : Catalogue) : Ty → Kind
  | .str => .string
  | .int => .integer
  | .float => .float
  | .bool => .boolean
  | .moment => .moment
  | .uuid => .uuid
  | .bareList | .bareTuple | .bareSet _ | .list _ | .set _ _ | .tuple _ | .sequence _ => .array
  | .bareDict | .dict _ _ => .map
  | .record _ => .record
  | .enumeration name =>
    match c.enumeration? name with
    | some e => e.kind
    | none => .any
  | .day | .any | .bytes | .null | .union _ | .annotated _ | .literal _ => .any

end Catalogue
end Intake
