import Intake.Fault

/-!
Which rules make sense for a field. A rule that does not is left out everywhere; it is noted once for
its model, field and rule, and nothing else comes of it.
-/

namespace Intake

/-- Rules that bound numbers. -/
def numericRules : List String := ["min", "max", "multipleOf"]

/-- Rules about texts. -/
def textRules : List String := ["minlength", "maxlength", "pattern"]

/-- Rules about the number of items or entries. -/
def countRules : List String := ["minItems", "maxItems"]

/-- Rules about the items of an array. -/
def itemRules : List String := ["uniqueItems", "emptyItemsAllowed"]

/-- Whether a test holds for the kind of a field or, for an array, of its items. -/
def Descriptor.holdsFor (d : Descriptor) (test : Kind → Bool) : Bool :=
  test d.kind || (d.kind == .array && d.elementKind.any test)

/-- Why a rule does not apply to a field. -/
inductive Mismatch where
  | unknown (rule : String)
  | wrongKind (rule expected found : String)
deriving DecidableEq, Repr

/-- The words for a mismatch. -/
def Mismatch.message : Mismatch → String
  | .unknown rule => "unknown validation rule " ++ Text.enclosed rule
  | .wrongKind rule expected found =>
    "validation rule " ++ Text.enclosed rule ++ " can only be applied to " ++ expected
      ++ ", but field is " ++ found

/-- Whether a rule applies to a field of this kind, and the kinds it is for; none for unknown
rules. -/
def Descriptor.suits? (d : Descriptor) (rule : String) : Option (Bool × String) :=
  if rule == "required" then some (true, "any types")
  else if numericRules.contains rule then some (d.holdsFor Kind.isNumeric, "integer or float types")
  else if textRules.contains rule then some (d.holdsFor (· == .string), "string types")
  else if countRules.contains rule then
    some (d.kind == .array || d.kind == .map, "array or map types")
  else if itemRules.contains rule then some (d.kind == .array, "array types")
  else if rule == "format" then
    some (d.holdsFor fun k => k == .string || k == .moment, "string or datetime types")
  else if rule == "enum" then
    some (d.holdsFor fun k => k == .string || k.isNumeric, "string, integer or float types")
  else none

/-- Why a rule does not apply to a field; none where it does. -/
def Descriptor.mismatch? (d : Descriptor) (rule : Rule) : Option Mismatch :=
  match d.suits? rule.name with
  | none => some (.unknown rule.name)
  | some (true, _) => none
  | some (false, expected) => some (.wrongKind rule.name expected d.typeLabel)

/-- The rules of a field that apply to it, in their order. -/
def Descriptor.applicable (d : Descriptor) : List Rule :=
  d.rules.filter fun r => (d.mismatch? r).isNone

/-- The occasion of an event for a rule. -/
def occasion (m : Model) (d : Descriptor) (rule : Rule) (event : String) : Occasion :=
  ⟨m.qualifiedName ++ "@" ++ m.moduleName, d.name, rule.text, event⟩

/-- Notes an event for a rule the first time. -/
def noteOnce (m : Model) (d : Descriptor) (rule : Rule) (level : Level) (event : String)
    (details : List (String × Value)) : Action Unit :=
  modify fun j => j.noteOnce (occasion m d rule event)
    ⟨level, event, ("model", .text m.name) :: ("field", .text d.name) :: ("rule", .text rule.text)
      :: details⟩

/-- Notes the rules of a field that do not apply. -/
def noteMisapplied (m : Model) (d : Descriptor) : Action Unit :=
  d.rules.forM fun rule =>
    match d.mismatch? rule with
    | none => pure ()
    | some mismatch =>
      noteOnce m d rule .warning "validation_rule_misapplied" [("diagnostic", .text mismatch.message)]

/-- The rules that apply to a field; the others are noted. -/
def applicableRules (m : Model) (d : Descriptor) : Action (List Rule) := do
  noteMisapplied m d
  return d.applicable

/-- Where a field's rules do not apply, in the words of the check of a model. -/
def mismatchTexts (m : Model) (d : Descriptor) : List String :=
  d.rules.filterMap fun rule =>
    (d.mismatch? rule).map fun mismatch => m.name ++ "." ++ d.name ++ ": " ++ mismatch.message

/-- Checks the models that wait and those that their fields lead to; the one that waits shortest comes
first. Every round takes one model, and every model adds as many as it has fields, so the rounds are
bounded by the fields of all models. -/
def checkPending (c : Catalogue) : (fuel : Nat) → (pending visited : List String) → Action (List String)
  | 0, _, _ | _, [], _ => return []
  | fuel + 1, name :: pending, visited => do
    if visited.contains name then checkPending c fuel pending visited
    else
      match c.model? name with
      | none => checkPending c fuel pending visited
      | some m =>
        let fields ← Action.describe c m
        fields.forM (noteMisapplied m)
        let found := fields.flatMap (mismatchTexts m)
        let next := fields.filterMap (·.model)
        return found ++ (← checkPending c fuel (next.reverse ++ pending) (name :: visited))

/-- The number of rounds that a check of any model of a catalogue takes at most. -/
def Catalogue.checkBound (c : Catalogue) : Nat :=
  c.models.foldl (fun bound m => bound + 1 + m.fields.length) 1

/-- Checks the rules of a model and of every model that its fields lead to. -/
def checkModel (c : Catalogue) (name : String) : Action (List String) :=
  checkPending c c.checkBound [name] []

end Intake
