import Intake.Model.Descriptor

/-!
Declaring fields and models. Annotations that are empty count as not given; a source has to be known
when the field is declared, unless the annotations are given all together as they are.
-/

namespace Intake

/-- A text that is given and not empty. -/
def nonEmpty (s : Option String) : Option String := s.filter fun s => !s.isEmpty

/-- The annotations that a declaration gives one by one. -/
def Annotations.declare (a : Annotations) : Except UnknownSource Annotations := do
  if let some label := nonEmpty a.source then
    if (Source.ofLabel? label).isNone then throw ⟨label⟩
  return {
    rules := nonEmpty a.rules
    messages := nonEmpty a.messages
    form := nonEmpty a.form
    query := nonEmpty a.query
    header := nonEmpty a.header
    cookie := nonEmpty a.cookie
    path := nonEmpty a.path
    xml := nonEmpty a.xml
    source := nonEmpty a.source }

/-- What a model is made from: nothing but its own fields, strictly or plainly, or another model. -/
inductive Base where
  | root (strictness : Strictness)
  | model (name : String)
deriving DecidableEq, Repr, Inhabited

/-- Adds a model to a catalogue. -/
def Catalogue.declare (c : Catalogue) (name moduleName qualifiedName : String) (doc : Option String)
    (base : Base) (fields : List Field) : Catalogue :=
  let (strictness, ancestors, inherited) := match base with
    | .root strictness => (strictness, [], [])
    | .model name =>
      match c.model? name with
      | some m => (m.strictness, m.name :: m.ancestors, m.fields)
      | none => (.strict, [], [])
  { c with models := c.models ++
      [⟨name, moduleName, qualifiedName, doc, strictness, ancestors, Field.extend inherited fields⟩] }

end Intake
