import Intake.Model.Declaration
import Intake.Schema.Constraint
import Intake.Schema.Mock
import Intake.Schema.Registry

/-!
Deriving schemas from types. Records become components, each once, and are referred to wherever they
come up; everything else is said in place. There are two dialects: plain documents, and documents of
elements, where every field has a place and every component an example.
-/

namespace Intake

/-- A character of a type's name as it can stand in the name of a component. -/
def nameChar (c : Char) : Char :=
  if c.isAlphanum || c == '.' || c == '_' || c == '-' then c else '_'

/-- The name of a model among components: its module and its qualified name. -/
def Model.componentName (m : Model) : String :=
  let qualified := Text.remove "<locals>." m.qualifiedName
  String.ofList ((m.moduleName ++ "." ++ qualified).toList.map nameChar)

namespace Schema

/-- What documents are made of. -/
inductive Dialect where
  | json
  | xml
deriving DecidableEq, Repr, Inhabited

/-- What the names of components of a dialect end with. -/
def Dialect.ending : Dialect → String
  | .json => ""
  | .xml => ".XML"

/-- The name of a model among components of a dialect. -/
def Dialect.componentName (dialect : Dialect) (m : Model) : String :=
  m.componentName ++ dialect.ending

/-- The schema of a type that may be absent. -/
def orNull (optional : Bool) (s : Schema) : Schema :=
  if optional then s.mapFacts fun f => { f with nullable := some true } else s

/-- The schema of an array with items of a schema. -/
def arrayOf (rules : List Rule) (items : Schema) : Schema :=
  .node (rules.foldl arrayRule (.ofType "array")) none (some items) none

/-- The schema of a map with values of a schema. -/
def mapOf (rules : List Rule) (values : Schema) : Schema :=
  .node (rules.foldl mapRule (.ofType "object")) none none (some values)

/-- The rules of an array or a map that are about what is inside. -/
def rulesInside (rules : List Rule) : List Rule := rules.filter fun r => innerRules.contains r.name

mutual

/-- The schema of a type under rules, whether it may be absent or not; records are derived by
`record`. -/
def ofType (c : Catalogue) (record : String → Registering Schema) :
    Ty → List Rule → Registering Schema
  | .annotated inner, rules => ofType c record inner rules
  | .union choices, rules => ofOnly c record choices rules
  | .record name, _ => record name
  | .list item, rules => return arrayOf rules (← ofType c record item (rulesInside rules))
  | .set _ item, rules => return arrayOf rules (← ofType c record item (rulesInside rules))
  | .sequence item, rules => return arrayOf rules (← ofType c record item (rulesInside rules))
  | .tuple items, rules => return arrayOf rules (← ofFirst c record items (rulesInside rules))
  | .dict _ item, rules => return mapOf rules (← ofType c record item (rulesInside rules))
  | .bareList, rules | .bareTuple, rules | .bareSet _, rules => return arrayOf rules anything
  | .bareDict, rules => return mapOf rules anything
  | t, rules => return leaf (scalarFacts (c.kindOf t) rules)

/-- The schema of the only choice that is not absence. -/
def ofOnly (c : Catalogue) (record : String → Registering Schema) :
    List Ty → List Rule → Registering Schema
  | [], _ => return anything
  | t :: rest, rules =>
    if t.isNull then ofOnly c record rest rules
    else if rest.all Ty.isNull then ofType c record t rules
    else return anything

/-- The schema of the first type. -/
def ofFirst (c : Catalogue) (record : String → Registering Schema) :
    List Ty → List Rule → Registering Schema
  | [], _ => return anything
  | t :: _, rules => ofType c record t rules

end

/-- The schema of a type. -/
def derive (c : Catalogue) (record : String → Registering Schema) (t : Ty) (rules : List Rule) :
    Registering Schema := do
  return orNull t.unwrap.2 (← ofType c record t rules)

/-- The place of a field in a document of elements. -/
def placeOf (name : String) (isAttribute : Bool) : XmlFacts :=
  ⟨some name, some (if isAttribute then "attribute" else "element"), none, none⟩

/-- The schema with a place. -/
def atPlace (place : XmlFacts) (s : Schema) : Schema := s.mapFacts fun f => { f with xml := some place }

/-- The schema of a field: what its description and its place add to that of its type. -/
def ofField (c : Catalogue) (dialect : Dialect) (record : String → Registering Schema)
    (d : Descriptor) : Registering Schema := do
  let s ← derive c record d.type d.rules
  let described := match nonEmpty d.description with
    | some text => s.mapFacts fun f => { f with description := some text }
    | none => s
  match dialect with
  | .json => return described
  | .xml =>
    let placed := atPlace (placeOf d.xmlName d.xmlAttribute) described
    return placed.mapItems (atPlace (placeOf d.xmlName false))

/-- The key of a field in documents of a dialect. -/
def Dialect.keyOf (dialect : Dialect) (d : Descriptor) : String :=
  match dialect with
  | .json => d.wireName
  | .xml => d.xmlName

/-- The fields that documents of a dialect have. -/
def Dialect.fieldsOf (dialect : Dialect) (fields : List Descriptor) : List Descriptor :=
  match dialect with
  | .json => fields
  | .xml => fields.filter fun d => !d.xmlSkip

/-- The properties of a record, of fields with one key the last, and the keys that are required. -/
def propertiesOf (dialect : Dialect) (field : Descriptor → Registering Schema) :
    List Descriptor → List (String × Schema) → Registering (List (String × Schema))
  | [], found => return found
  | d :: rest, found => do
    let s ← field d
    propertiesOf dialect field rest (Registry.putInto (dialect.keyOf d) s found)

/-- What the documentation of a model says. -/
def describedBy (m : Model) : Option String := (nonEmpty m.doc).map Text.strip

/-- What the component of a model says besides the properties of its fields. -/
def componentFacts (dialect : Dialect) (m : Model) (fields : List Descriptor) : Facts :=
  let required := (fields.filter fun d => Rule.has d.rules "required").map dialect.keyOf
  { Facts.ofType "object" with
    title := some (dialect.componentName m)
    description := describedBy m
    required := if required.isEmpty then none else some required }

/-- The component of a model, where the records inside are derived by `record`. -/
def nodeOf (c : Catalogue) (dialect : Dialect) (record : String → Registering Schema)
    (root : Option String) (m : Model) : Registering Schema := do
  let fields := dialect.fieldsOf (← (Action.describe c m : Except Fault (List Descriptor)))
  let properties ← propertiesOf dialect (ofField c dialect record) fields []
  let facts := componentFacts dialect m fields
  match dialect with
  | .json => return .node facts (some properties) none none
  | .xml =>
    let sample ← Registering.ofAction (Mock.xmlExample c m.name root)
    return .node { facts with
      xml := some (placeOf (givenOr root m.name) false)
      sample := (sample.map Value.text).getD .null } (some properties) none none

/-- The component of a model, derived unless it is there. The name is taken first, so no model is
derived inside itself, and the models bound the depth. -/
def component? (c : Catalogue) (dialect : Dialect) : (fuel : Nat) → Option String → String →
    Registering Schema
  | 0, _, name => return component name
  | fuel + 1, root, model => do
    let some m := c.model? model
      | return anything
    let name := dialect.componentName m
    let registry : Registry ← get
    if registry.contains name then return component name
    discard (Registering.reserve name)
    Registering.put name (← nodeOf c dialect (component? c dialect fuel none) root m)
    return component name

/-- The component of a model. -/
def ofRecord (c : Catalogue) (dialect : Dialect) (root : Option String) (model : String) :
    Registering Schema :=
  component? c dialect (c.models.length + 1) root model

/-- The schema of a type in plain documents. -/
def ofJson (c : Catalogue) (t : Ty) : Registering Schema :=
  derive c (ofRecord c .json none) t []

/-- The element that stands around a list of elements. -/
def wrapperOf (root : Option String) (item : Option Ty) : String :=
  givenOr root (match item.bind Ty.recordName? with
    | some name => Text.lower name ++ "s"
    | none => "items")

/-- The schema of a list in documents of elements, with an example if the items are records. -/
def ofXmlList (c : Catalogue) (root : Option String) (item : Option Ty) : Registering Schema := do
  let wrapper := wrapperOf root item
  let items ← match item with
    | some t => derive c (ofRecord c .xml none) t []
    | none => pure anything
  let sample ← match item.bind Ty.recordName? with
    | some model =>
      Registering.ofAction (Mock.written? c model fun v => Markup.encodeAll c [v] wrapper true)
    | none => pure none
  return .node { Facts.ofType "array" with
    xml := some (placeOf wrapper false)
    sample := (sample.map Value.text).getD .null } none (some items) none

/-- The schema of a type in documents of elements. -/
def ofXml (c : Catalogue) (t : Ty) (root : Option String) : Registering Schema := do
  let inner := t.unwrap.1
  match c.kindOf inner with
  | .record => match inner.recordName? with
    | some model => ofRecord c .xml root model
    | none => return anything
  | .array => ofXmlList c root inner.element?
  | _ =>
    let s ← derive c (ofRecord c .xml none) inner []
    let sample ← (Mock.ofType c inner : Except Fault Value)
    return s.mapFacts fun f => { f with sample := sample }

end Schema
end Intake
