import Intake.Applicability
import Intake.Markup.Writer

/-!
Records as elements. Every field has its place: an attribute, an element, an element for each item of
an array, or an element around the entries of a map. What is nothing is left out, but an item or an
entry that is nothing is an empty element.
-/

namespace Intake.Markup

/-- The name of the element of an entry of a map. -/
def entryName : String := "entry"

/-- The name of the attribute that holds the key of an entry. -/
def keyName : String := "key"

/-- An element that holds the text of a scalar. -/
def leaf (name : String) (v : Value) : Element :=
  .mk name [] (if v.isNull then "" else v.scalarText) [] ""

/-- The element with one more attribute. -/
def Element.with (key value : String) : Element → Element
  | .mk name attributes text children tail =>
    .mk name (putAttribute key value attributes) text children tail

/-- A value as it can be written: as one element of a name, as an element for each item, and as the
entries of a map. -/
structure Writing where
  value : Value
  whole : String → Except Fault Element
  items : String → Except Fault (List Element)
  entries : Except Fault (List Element)

/-- A value that no records are inside. -/
def Writing.scalar (v : Value) : Writing :=
  { value := v
    whole := fun name => .ok (leaf name v)
    items := fun name =>
      match v.traverse? with
      | some xs => .ok (xs.map (leaf name))
      | none => .error (.noItems v.typeName)
    entries := .error (.noEntries v.typeName) }

/-- What a field adds to the element of its record: an attribute, or elements. -/
inductive Addition where
  | nothing
  | attribute (name value : String)
  | elements (es : List Element)

/-- What a field adds. -/
def writeField (d : Descriptor) (w : Writing) : Except Fault Addition :=
  if d.xmlSkip || w.value.isNull then .ok .nothing
  else if d.xmlAttribute then .ok (.attribute d.xmlName w.value.scalarText)
  else match d.kind with
    | .array => (w.items d.xmlName).map .elements
    | .map => w.entries.map fun es => .elements [.mk d.xmlName [] "" es ""]
    | _ => (w.whole d.xmlName).map fun e => .elements [e]

/-- Adds to an element. -/
def Element.add : Element → Addition → Element
  | e, .nothing => e
  | e, .attribute key value => e.with key value
  | .mk name attributes text children tail, .elements es =>
    .mk name attributes text (children ++ es) tail

/-- The element of a record, to which every field adds in its turn. -/
def writeFields (name : String) (attributes : List (String × Writing)) (fields : List Descriptor) :
    Except Fault Element :=
  fields.foldlM (fun e d => return e.add (← match attributes.lookup d.name with
    | some w => writeField d w
    | none => .ok .nothing)) (.mk name [] "" [] "")

/-- Writes a record of a model. -/
def writeRecord (c : Catalogue) (model : String) (attributes : List (String × Writing))
    (name : String) : Except Fault Element :=
  match c.model? model with
  | none => .ok (.mk name [] "" [] "")
  | some m => do writeFields name attributes (← Action.describe c m)

mutual

/-- How a value is written. -/
def writing (c : Catalogue) : Value → Writing
  | .record model attributes =>
    { Writing.scalar (.record model attributes) with
      whole := writeRecord c model (writingEach c attributes) }
  | .list xs => { Writing.scalar (.list xs) with items := writeItems c xs }
  | .tuple xs => { Writing.scalar (.tuple xs) with items := writeItems c xs }
  | .set frozen xs => { Writing.scalar (.set frozen xs) with items := writeItems c xs }
  | .dict entries => { Writing.scalar (.dict entries) with entries := writeEntries c entries }
  | v => .scalar v

def writingEach (c : Catalogue) : List (String × Value) → List (String × Writing)
  | [] => []
  | (name, v) :: rest => (name, writing c v) :: writingEach c rest

def writeItems (c : Catalogue) : List Value → String → Except Fault (List Element)
  | [], _ => .ok []
  | v :: rest, name => do return (← (writing c v).whole name) :: (← writeItems c rest name)

def writeEntries (c : Catalogue) : List (Value × Value) → Except Fault (List Element)
  | [] => .ok []
  | (k, v) :: rest => do
    let e ← (writing c v).whole entryName
    return e.with keyName k.scalarText :: (← writeEntries c rest)

end

/-- The name of the model of a record. -/
def modelOf : Value → String
  | .record model _ => model
  | v => v.typeName

/-- A record as an element, of its model's name unless another is given. -/
def ofRecord (c : Catalogue) (v : Value) (root : Option String) : Except Fault Element :=
  (writing c v).whole (givenOr root (modelOf v))

/-- An element as a document, with or without lines. -/
def document (indent : Bool) (e : Element) : String :=
  (if indent then e.indented 0 else e).render

/-- A record as a document. -/
def encode (c : Catalogue) (v : Value) (root : Option String) (indent : Bool) : Except Fault String :=
  (ofRecord c v root).map (document indent)

/-- Records as one document, inside an element around them all. -/
def encodeAll (c : Catalogue) (vs : List Value) (root : String) (indent : Bool) :
    Except Fault String := do
  let es ← vs.mapM fun v => ofRecord c v none
  return document indent (.mk root [] "" es "")

end Intake.Markup
