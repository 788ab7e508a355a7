import Intake.Schema.Basic
import Intake.Shape.Build

/-!
Schemas from documents. What a schema may say is itself a model, so a document that is no schema is
rejected as any other document is.
-/

namespace Intake.Schema

/-- A field of a schema that may be left out. -/
def fieldOf (name key : String) (type : Ty) : Field :=
  { name := name
    type := type.optional
    default := some (.value .null)
    documentKey := some key
    annotations := Annotations.none
    description := none
    constraints := ⟨none, none, none⟩ }

/-- The name of the model of schemas that say something themselves. -/
def nodeModel : String := "SchemaNode"

/-- The name of the model of references. -/
def referenceModel : String := "Reference"

/-- The name of the model of places in documents of elements. -/
def xmlModel : String := "XMLObject"

/-- A model of which every key is known. -/
def modelNamed (name : String) (fields : List Field) : Model :=
  ⟨name, "", name, none, .plain, [], fields⟩

/-- Either kind of schema. -/
def anySchema : Ty := .union [.record nodeModel, .record referenceModel]

/-- The fields of schemas that say something themselves. -/
def nodeFields : List Field :=
  let number : Ty := .union [.int, .float]
  [fieldOf "type" "type" .str, fieldOf "format" "format" .str, fieldOf "title" "title" .str,
    fieldOf "description" "description" .str, fieldOf "nullable" "nullable" .bool,
    { fieldOf "default" "default" .any with type := .any },
    { fieldOf "example" "example" .any with type := .any },
    fieldOf "enum" "enum" (.list .any),
    fieldOf "properties" "properties" (.dict .str anySchema),
    fieldOf "required" "required" (.list .str),
    fieldOf "items" "items" anySchema,
    fieldOf "additional_properties" "additionalProperties" anySchema,
    fieldOf "minimum" "minimum" number, fieldOf "maximum" "maximum" number,
    fieldOf "exclusive_minimum" "exclusiveMinimum" number,
    fieldOf "exclusive_maximum" "exclusiveMaximum" number,
    fieldOf "multiple_of" "multipleOf" number,
    fieldOf "min_length" "minLength" .int, fieldOf "max_length" "maxLength" .int,
    fieldOf "pattern" "pattern" .str,
    fieldOf "min_items" "minItems" .int, fieldOf "max_items" "maxItems" .int,
    fieldOf "unique_items" "uniqueItems" .bool,
    fieldOf "min_properties" "minProperties" .int, fieldOf "max_properties" "maxProperties" .int,
    fieldOf "xml" "xml" (.record xmlModel)]

/-- The models of schemas. -/
def models : Catalogue :=
  { models := [
      modelNamed xmlModel [fieldOf "name" "name" .str,
        fieldOf "node_type" "nodeType"
          (.literal (["element", "attribute", "text", "cdata", "none"].map .text)),
        fieldOf "namespace" "namespace" .str, fieldOf "prefix" "prefix" .str],
      modelNamed referenceModel [{ fieldOf "ref" "$ref" .str with type := .str, default := none }],
      modelNamed nodeModel nodeFields]
    enumerations := [] }

/-- The attributes of a record. -/
def attributesOf : Value → List (String × Value)
  | .record _ attributes => attributes
  | _ => []

/-- A text among attributes. -/
def textAt (attributes : List (String × Value)) (name : String) : Option String :=
  (attributes.lookup name).bind Value.text?

/-- An integer among attributes. -/
def intAt (attributes : List (String × Value)) (name : String) : Option Int :=
  match attributes.lookup name with
  | some (.int i) => some i
  | _ => none

/-- A truth value among attributes. -/
def boolAt (attributes : List (String × Value)) (name : String) : Option Bool :=
  match attributes.lookup name with
  | some (.bool b) => some b
  | _ => none

/-- A number among attributes. -/
def sizeAt (attributes : List (String × Value)) (name : String) : Option Value.Size :=
  (attributes.lookup name).bind Value.size?

/-- A list among attributes. -/
def listAt (attributes : List (String × Value)) (name : String) : Option (List Value) :=
  match attributes.lookup name with
  | some (.list xs) => some xs
  | _ => none

/-- A place from the attributes of its record. -/
def xmlOf (attributes : List (String × Value)) : XmlFacts :=
  let text := textAt attributes
  ⟨text "name", text "node_type", text "namespace", text "prefix"⟩

/-- What the attributes of a schema say besides what is inside. -/
def factsOf (attributes : List (String × Value)) : Facts :=
  let text := textAt attributes
  let int := intAt attributes
  let size := sizeAt attributes
  { type := text "type"
    format := text "format"
    title := text "title"
    description := text "description"
    nullable := boolAt attributes "nullable"
    default := (attributes.lookup "default").getD .null
    sample := (attributes.lookup "example").getD .null
    choices := listAt attributes "enum"
    required := (listAt attributes "required").map fun xs => xs.filterMap Value.text?
    minimum := size "minimum"
    maximum := size "maximum"
    exclusiveMinimum := size "exclusive_minimum"
    exclusiveMaximum := size "exclusive_maximum"
    multipleOf := size "multiple_of"
    minLength := int "min_length"
    maxLength := int "max_length"
    pattern := text "pattern"
    minItems := int "min_items"
    maxItems := int "max_items"
    uniqueItems := boolAt attributes "unique_items"
    minProperties := int "min_properties"
    maxProperties := int "max_properties"
    xml := match attributes.lookup "xml" with
      | some (.record _ xml) => some (xmlOf xml)
      | _ => none }

/-- A record as a schema, and the schemas of its entries if it is a dictionary of them. -/
structure Read where
  whole : Schema
  entries : List (String × Schema)

mutual

/-- The record of a schema as the schema. -/
def ofValue : Value → Read
  | .record name attributes =>
    if name == referenceModel then
      ⟨.reference ((textAt attributes "ref").getD ""), []⟩
    else
      let parts := ofAttributes attributes
      let given (key : String) : Option Read :=
        (parts.lookup key).bind fun part => if part.1 then none else some part.2
      ⟨.node (factsOf attributes) ((given "properties").map (·.entries)) ((given "items").map (·.whole))
        ((given "additional_properties").map (·.whole)), []⟩
  | .dict entries => ⟨anything, ofEntries entries⟩
  | _ => ⟨anything, []⟩

/-- Attributes as schemas, each with a mark if it is nothing. -/
def ofAttributes : List (String × Value) → List (String × Bool × Read)
  | [] => []
  | (name, v) :: rest => (name, v.isNull, ofValue v) :: ofAttributes rest

def ofEntries : List (Value × Value) → List (String × Schema)
  | [] => []
  | (key, v) :: rest => (key.display, (ofValue v).whole) :: ofEntries rest

end

/-- The schema that a document is, or why it is none. -/
def ofDocument (v : Value) : Except (List Rejection) Schema :=
  (Shape.build models nodeModel v).map fun v => (ofValue v).whole

end Intake.Schema
