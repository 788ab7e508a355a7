import Intake.Json.Writer

/-!
Schemas: what documents of a type look like. A schema is either a reference to a component by name, or
says itself what a value may be. What it does not say is left out of its document.
-/

namespace Intake

/-- The place of a value in a document of elements. -/
structure XmlFacts where
  name : Option String
  nodeType : Option String
  namespaceName : Option String
  namePrefix : Option String
deriving DecidableEq, Repr, Inhabited

/-- What a schema says about a value besides what is inside. -/
structure Facts where
  type : Option String
  format : Option String
  title : Option String
  description : Option String
  nullable : Option Bool
  default : Value
  sample : Value
  choices : Option (List Value)
  required : Option (List String)
  minimum : Option Value.Size
  maximum : Option Value.Size
  exclusiveMinimum : Option Value.Size
  exclusiveMaximum : Option Value.Size
  multipleOf : Option Value.Size
  minLength : Option Int
  maxLength : Option Int
  pattern : Option String
  minItems : Option Int
  maxItems : Option Int
  uniqueItems : Option Bool
  minProperties : Option Int
  maxProperties : Option Int
  xml : Option XmlFacts
deriving Repr, Inhabited

/-- A schema. -/
inductive Schema where
  | reference (target : String)
  | node (facts : Facts) (properties : Option (List (String × Schema))) (items : Option Schema)
      (additional : Option Schema)
deriving Repr, Inhabited

/-- Nothing said. -/
def Facts.none : Facts :=
  ⟨.none, .none, .none, .none, .none, .null, .null, .none, .none, .none, .none, .none, .none, .none,
    .none, .none, .none, .none, .none, .none, .none, .none, .none⟩

/-- What is said about values of a type. -/
def Facts.ofType (type : String) : Facts := { Facts.none with type := some type }

/-- What is said about values of a type in a format. -/
def Facts.ofFormat (type format : String) : Facts := { Facts.ofType type with format := some format }

namespace Schema

/-- Where components stand in the document that holds them. -/
def componentsPath : String := "#/components/schemas/"

/-- The schema that is a component. -/
def component (name : String) : Schema := .reference (componentsPath ++ name)

/-- The name of the component behind a reference. -/
def componentName (target : String) : String :=
  match Text.afterStart? componentsPath.toList target.toList with
  | some rest => String.ofList rest
  | none => target

/-- A schema with nothing inside. -/
def leaf (facts : Facts) : Schema := .node facts none none none

/-- The schema that any value fits. -/
def anything : Schema := leaf Facts.none

/-- The schema with other facts; a reference says nothing of its own. -/
def mapFacts (change : Facts → Facts) : Schema → Schema
  | .reference target => .reference target
  | .node facts properties items additional => .node (change facts) properties items additional

/-- The schema with another schema of items. -/
def mapItems (change : Schema → Schema) : Schema → Schema
  | .reference target => .reference target
  | .node facts properties items additional => .node facts properties (items.map change) additional

/-- An entry of a document, left out if it is nothing. -/
def entry (key : String) (v : Value) : List (Value × Value) :=
  if v.isNull then [] else [(.text key, v)]

/-- An entry for what may not be said. -/
def entryOf {α : Type} (key : String) (write : α → Value) (v : Option α) : List (Value × Value) :=
  match v with
  | some v => [(.text key, write v)]
  | none => []

/-- A number as a value. -/
def sizeValue : Value.Size → Value
  | .whole i => .int i
  | .real x => .float x

/-- The place of a value as a document. -/
def xmlValue (x : XmlFacts) : Value :=
  .dict (entryOf "name" .text x.name ++ entryOf "nodeType" .text x.nodeType
    ++ entryOf "namespace" .text x.namespaceName ++ entryOf "prefix" .text x.namePrefix)

/-- What is said before what is inside. -/
def headEntries (f : Facts) : List (Value × Value) :=
  entryOf "type" .text f.type ++ entryOf "format" .text f.format ++ entryOf "title" .text f.title
    ++ entryOf "description" .text f.description ++ entryOf "nullable" .bool f.nullable
    ++ entry "default" (Json.plain f.default) ++ entry "example" (Json.plain f.sample)
    ++ entryOf "enum" (fun choices => .list (choices.map Json.plain)) f.choices
    ++ entryOf "required" (fun names => .list (names.map .text)) f.required

/-- What is said after what is inside. -/
def boundEntries (f : Facts) : List (Value × Value) :=
  entryOf "minimum" sizeValue f.minimum ++ entryOf "maximum" sizeValue f.maximum
    ++ entryOf "exclusiveMinimum" sizeValue f.exclusiveMinimum
    ++ entryOf "exclusiveMaximum" sizeValue f.exclusiveMaximum
    ++ entryOf "multipleOf" sizeValue f.multipleOf
    ++ entryOf "minLength" .int f.minLength ++ entryOf "maxLength" .int f.maxLength
    ++ entryOf "pattern" .text f.pattern
    ++ entryOf "minItems" .int f.minItems ++ entryOf "maxItems" .int f.maxItems
    ++ entryOf "uniqueItems" .bool f.uniqueItems
    ++ entryOf "minProperties" .int f.minProperties ++ entryOf "maxProperties" .int f.maxProperties
    ++ entryOf "xml" xmlValue f.xml

mutual

/-- A schema as a document. -/
def toValue : Schema → Value
  | .reference target => .dict [(.text "$ref", .text target)]
  | .node facts properties items additional =>
    .dict (headEntries facts ++ propertiesEntry properties ++ inner "items" items
      ++ inner "additionalProperties" additional ++ boundEntries facts)

def inner (key : String) : Option Schema → List (Value × Value)
  | none => []
  | some s => [(.text key, s.toValue)]

def propertiesEntry : Option (List (String × Schema)) → List (Value × Value)
  | none => []
  | some properties => [(.text "properties", .dict (propertyEntries properties))]

def propertyEntries : List (String × Schema) → List (Value × Value)
  | [] => []
  | (name, s) :: rest => (.text name, s.toValue) :: propertyEntries rest

end

/-- Whether a schema is a reference. -/
def isReference : Schema → Bool
  | .reference _ => true
  | .node _ _ _ _ => false

end Schema
end Intake
