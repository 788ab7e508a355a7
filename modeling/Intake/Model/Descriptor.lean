import Intake.Model.Catalogue
import Intake.Rule
import Intake.Text.Quoted

/-!
What a field's declaration says about it: its kind, its rules, and its name in every part of a
request. A name that is not given falls back on the form's, and that on the key in documents.
-/

namespace Intake

/-- The parts of a request that a field may be read from. -/
inductive Source where
  | auto
  | path
  | query
  | header
  | cookie
  | form
  | body
deriving DecidableEq, Repr, Inhabited

namespace Source

def label : Source → String
  | .auto => "auto"
  | .path => "path"
  | .query => "query"
  | .header => "header"
  | .cookie => "cookie"
  | .form => "form"
  | .body => "body"

def all : List Source := [.auto, .path, .query, .header, .cookie, .form, .body]

/-- The source with a label. -/
def ofLabel? (label : String) : Option Source := all.find? fun s => s.label == label

end Source

/-- A label that names no source. -/
structure UnknownSource where
  label : String
deriving DecidableEq, Repr, Inhabited

/-- The words for an unknown source. -/
def UnknownSource.message (e : UnknownSource) : String :=
  Text.quoted e.label ++ " is not a valid BindSource"

/-- What is known about a field. -/
structure Descriptor where
  name : String
  wireName : String
  type : Ty
  kind : Kind
  element : Option Ty
  elementKind : Option Kind
  model : Option String
  rules : List Rule
  messages : Messages
  optional : Bool
  hasDefault : Bool
  formName : String
  queryName : String
  headerName : String
  cookieName : String
  pathName : String
  xmlName : String
  xmlAttribute : Bool
  xmlSkip : Bool
  formSkip : Bool
  source : Source
  description : Option String
deriving Repr, Inhabited

/-- The label of the kind in diagnostics. -/
def Descriptor.typeLabel (d : Descriptor) : String :=
  match d.kind, d.elementKind with
  | .array, some kind => "array of " ++ kind.label
  | kind, _ => kind.label

/-- The place of a field in markup: its name, whether it is an attribute, and whether it is left
out. -/
structure XmlPlace where
  name : String
  isAttribute : Bool
  skip : Bool
deriving DecidableEq, Repr

/-- The place that an annotation gives; a hyphen leaves the field out. -/
def XmlPlace.parse (given : Option String) (fallback : String) : XmlPlace :=
  match given with
  | none => ⟨fallback, false, false⟩
  | some raw =>
    if raw == "-" then ⟨"", false, true⟩
    else
      let (name, options) := Text.cut ',' raw
      ⟨if name.isEmpty then fallback else name,
        (Text.split ',' (options.getD "")).contains "attr", false⟩

/-- A text that is given and not empty, or the fallback. -/
def givenOr (given : Option String) (fallback : String) : String :=
  match given with
  | some s => if s.isEmpty then fallback else s
  | none => fallback

namespace Catalogue

/-- What the declaration of a field says. -/
def describeField (c : Catalogue) (f : Field) : Except UnknownSource Descriptor := do
  let (type, optional) := f.type.unwrap
  let kind := c.kindOf type
  let element := type.element?
  let elementKind := element.map c.kindOf
  let wireName := f.wireName
  let a := f.annotations
  let formSkip := a.form == some "-"
  let formName := if formSkip then wireName else givenOr a.form wireName
  let xml := XmlPlace.parse a.xml wireName
  let label := a.source.getD Source.auto.label
  let source ← match Source.ofLabel? label with
    | some source => .ok source
    | none => .error ⟨label⟩
  return {
    name := f.name
    wireName := wireName
    type := f.type
    kind := kind
    element := element
    elementKind := elementKind
    model := match type.recordName? with
      | some name => some name
      | none => element.bind Ty.recordName?
    rules := ((a.rules.map Rule.parse).getD [])
    messages := ((a.messages.map Messages.parse).getD [])
    optional := optional
    hasDefault := f.default.isSome
    formName := formName
    queryName := givenOr a.query formName
    headerName := givenOr a.header formName
    cookieName := givenOr a.cookie formName
    pathName := givenOr a.path formName
    xmlName := xml.name
    xmlAttribute := xml.isAttribute
    xmlSkip := xml.skip
    formSkip := formSkip
    source := source
    description := f.description }

/-- What the declarations of a model's fields say, in their order. -/
def describe (c : Catalogue) (m : Model) : Except UnknownSource (List Descriptor) :=
  m.fields.mapM c.describeField

end Catalogue
end Intake
