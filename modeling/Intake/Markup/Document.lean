import Intake.Applicability
import Intake.Markup.RecordElement
import Intake.Markup.Reader

/-!
Elements as documents of a model. A field that the element says nothing about is left out, and what no
field is about is skipped; all scalars stay texts.
-/

namespace Intake.Markup

/-- An element as it can be read for a field: its value, and the values of the entries inside. -/
structure Part where
  name : String
  key : String
  value : Descriptor → Except Fault Value
  entries : Descriptor → Except Fault (List (Value × Value))

/-- What the element of a record says about a field. -/
def readPlace (attributes : List (String × String)) (parts : List Part) (d : Descriptor) :
    Except Fault (Option Value) :=
  if d.xmlSkip then .ok none
  else if d.xmlAttribute then .ok ((attributes.lookup d.xmlName).map .text)
  else
    match parts.filter fun p => p.name == d.xmlName with
    | [] => .ok none
    | p :: rest =>
      match d.kind with
      | .array => do return some (.list (← (p :: rest).mapM fun p => p.value d))
      | .map => do return some (.dict (Value.dictOf (← p.entries d)))
      | _ => do return some (← p.value d)

/-- What the element of a record says about the fields of a model. -/
def readPlaces (c : Catalogue) (model : String) (attributes : List (String × String))
    (parts : List Part) : Except Fault (List (Value × Value)) :=
  match c.model? model with
  | none => .ok []
  | some m => do
    let found ← (← Action.describe c m).filterMapM fun d => do
      return (← readPlace attributes parts d).map fun v => (Value.text d.wireName, v)
    return Value.dictOf found

mutual

/-- How an element is read. -/
def part (c : Catalogue) : Element → Part
  | .mk name attributes text children _ =>
    let parts := partsOf c children
    { name := name
      key := (attributes.lookup keyName).getD ""
      value := fun d =>
        match d.model with
        | some model => (readPlaces c model attributes parts).map .dict
        | none => .ok (.text text)
      entries := fun d => (parts.filter fun p => p.name == entryName).mapM fun p => do
        return (.text p.key, ← p.value d) }

def partsOf (c : Catalogue) : List Element → List Part
  | [] => []
  | e :: rest => part c e :: partsOf c rest

end

/-- What an element says about the fields of a model. -/
def Element.entries (c : Catalogue) (model : String) (e : Element) :
    Except Fault (List (Value × Value)) :=
  readPlaces c model e.attributes (partsOf c e.children)

/-- A document as its model sees it, or what is wrong with it. -/
def decode (c : Catalogue) (model : String) (document : Except Flaw Element) :
    Except Fault (List (Value × Value)) := do
  (← document.mapError .markup).entries c model

end Intake.Markup
