import Intake.Fault

/-!
The types of values in documents. A document does not coerce: a text is never a number, nor a number
a truth value, and moments and identifiers have to be texts. Nothing fits everywhere. The items of an
array and the values of a map are looked at by the kind that the field gives them, and records by
their own fields.
-/

namespace Intake.Binding

/-- What a value is called in a document. -/
def jsonType (v : Value) : String :=
  match v with
  | .bool _ => "boolean"
  | .list _ => "array"
  | .dict _ => "object"
  | .brokenText _ => "string"
  | v =>
    match v.size?, v.text? with
    | some _, _ => "number"
    | none, some _ => "string"
    | none, none => v.typeName

/-- Whether a value has the type that a kind has in documents. -/
def hasJsonType (kind : Kind) (v : Value) : Bool :=
  match kind with
  | .string | .moment | .uuid => jsonType v == "string"
  | .boolean => jsonType v == "boolean"
  | .integer => match v.size?, v with
    | _, .bool _ => false
    | some (.whole _), _ => true
    | _, _ => false
  | .float => jsonType v == "number"
  | .array => jsonType v == "array"
  | .map | .record => jsonType v == "object"
  | .any => true

/-- The first value of a wrong type, if there is one: the way to it and what is wrong. -/
abbrev Finding := Except Fault (Option String)

/-- How to look at a value: by a kind of a field, at a place. -/
abbrev Check := Descriptor → Kind → String → Finding

/-- The first finding of two. -/
def orElse (first second : Finding) : Finding := do
  match ← first with
  | some reason => return some reason
  | none => second

/-- The key of a document that stands for a field: the key for documents if it is there, and the name
of the field if not. -/
def keyOf (d : Descriptor) (entries : List (Value × Value)) : String :=
  if (Value.lookupText d.wireName entries).isSome then d.wireName else d.name

/-- The check of the entry under a key. -/
def lookupCheck (key : String) (checks : List (Value × Check)) : Option Check :=
  (checks.find? fun e => e.1.same (.text key)).map (·.2)

/-- Looks at the fields of a record in their order. -/
def checkFields (entries : List (Value × Value)) (checks : List (Value × Check)) (path : String) :
    List Descriptor → Finding
  | [] => .ok none
  | d :: rest =>
    match lookupCheck (keyOf d entries) checks with
    | some check => orElse (check d d.kind (path ++ d.wireName)) (checkFields entries checks path rest)
    | none => checkFields entries checks path rest

/-- Looks at a record, whose type the catalogue has. -/
def checkRecord (c : Catalogue) (entries : List (Value × Value)) (checks : List (Value × Check))
    (model path : String) : Finding :=
  match c.model? model with
  | none => .ok none
  | some m => do checkFields entries checks path (← Action.describe c m)

/-- Looks at a value by a kind, and then at what is inside. -/
def checkValue (v : Value) (inside : Check) : Check := fun d kind path =>
  if v.isNull || kind == .any then .ok none
  else if !hasJsonType kind v then
    .ok (some (path ++ ": cannot decode JSON " ++ jsonType v ++ " into " ++ kind.label))
  else inside d kind path

mutual

/-- How to look at a value. -/
def check (c : Catalogue) : Value → Check
  | .list xs => checkValue (.list xs) fun d kind path =>
    match d.elementKind with
    | some element => if kind == d.kind then checkItems c d element path 0 xs else .ok none
    | none => .ok none
  | .dict entries => checkValue (.dict entries) fun d kind path =>
    match kind, d.model, d.elementKind with
    | .record, some model, _ => checkRecord c entries (checkEntries c entries) model (path ++ ".")
    | .map, _, some element =>
      if kind == d.kind then checkMembers c d element path entries else .ok none
    | _, _, _ => .ok none
  | v => checkValue v fun _ _ _ => .ok none

def checkEntries (c : Catalogue) : List (Value × Value) → List (Value × Check)
  | [] => []
  | (k, v) :: rest => (k, check c v) :: checkEntries c rest

def checkItems (c : Catalogue) (d : Descriptor) (kind : Kind) (path : String) :
    (index : Nat) → List Value → Finding
  | _, [] => .ok none
  | i, v :: rest =>
    orElse (check c v d kind (path ++ "[" ++ toString i ++ "]"))
      (checkItems c d kind path (i + 1) rest)

def checkMembers (c : Catalogue) (d : Descriptor) (kind : Kind) (path : String) :
    List (Value × Value) → Finding
  | [] => .ok none
  | (k, v) :: rest =>
    orElse (check c v d kind (path ++ "[" ++ k.display ++ "]"))
      (checkMembers c d kind path rest)

end

/-- The first value of a document whose type is not that of its field. -/
def jsonTypeMismatch (c : Catalogue) (model : String) (entries : List (Value × Value))
    (path : String) : Finding :=
  checkRecord c entries (checkEntries c entries) model path

/-- Whether the value of one field has a wrong type. -/
def jsonValueMismatch (c : Catalogue) (d : Descriptor) (v : Value) (path : String) : Finding :=
  check c v d d.kind path

end Intake.Binding
