import Intake.Calendar.Iso
import Intake.Calendar.Layout
import Intake.Model.Ty
import Intake.Number.Reading
import Intake.Text.Lowercase
import Intake.Value.Display

/-!
Scalars as plain text, and back. The text of a scalar is what reading it as the scalar's kind takes.
Reading is by the kind alone: kinds that are no scalars, and texts, keep what is written.
-/

namespace Intake

namespace Value

/-- The text of a scalar: truth values in lower case, moments in the form with `T`, members of
enumerations as their values. -/
def scalarText : Value → String
  | .bool b => if b then "true" else "false"
  | .moment m => if m.isUniversal then m.zuluText else m.text
  | .member _ _ _ value => value.display
  | v => v.display

end Value

/-- Why a text cannot be read as a scalar. -/
inductive Unreadable where
  | integer
  | number
  | uuid
  | moment (layout : Option String)
deriving DecidableEq, Repr, Inhabited

/-- The words for an unreadable text. -/
def Unreadable.message : Unreadable → String
  | .integer => "invalid integer"
  | .number => "invalid float"
  | .uuid => "invalid UUID"
  | .moment layout => "invalid time format, expected " ++ layout.getD "ISO 8601"

/-- The texts that are read as true; every other one is false. -/
def trueTexts : List String := ["true", "1", "yes"]

/-- Reads a moment by a layout, or in one of the standard forms without one. One that names no offset
is universal. -/
def readMoment (layout : Option String) (raw : String) :
    Except Pattern.Flaw (Except Unreadable Calendar.Moment) := do
  let layout := layout.filter fun s => !s.isEmpty
  let found ← match layout with
    | some layout => Calendar.Moment.ofLayout? layout raw
    | none => .ok (Calendar.Moment.ofIso? raw)
  return match found with
    | some m => .ok m.orUniversal
    | none => .error (.moment layout)

/-- Reads a text as a value of a kind. A layout may be so broken that it says nothing about any
text. -/
def Kind.read (kind : Kind) (raw : String) (layout : Option String) :
    Except Pattern.Flaw (Except Unreadable Value) :=
  match kind with
  | .integer => .ok <| match Number.int? raw with
    | some i => .ok (.int i)
    | none => .error .integer
  | .float => .ok <| match Number.float? raw with
    | some x => .ok (.float x)
    | none => .error .number
  | .boolean => .ok (.ok (.bool (trueTexts.contains (Text.lower (Text.strip raw)))))
  | .moment => (readMoment layout raw).map fun outcome => outcome.map .moment
  | .uuid => .ok <| match Uuid.ofLenient? raw with
    | some u => .ok (.uuid u)
    | none => .error .uuid
  | .string | .array | .map | .record | .any => .ok (.ok (.text raw))

end Intake
