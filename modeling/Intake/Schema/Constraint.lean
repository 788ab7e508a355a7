import Intake.Model.Ty
import Intake.Number.Reading
import Intake.Rule
import Intake.Schema.Basic

/-!
Rules as facts of schemas. Each rule says one thing about values of the kinds it is for; of several
rules of one name the last counts, and one whose argument cannot be read says nothing.
-/

namespace Intake.Schema

/-- The number that an argument gives for values of a kind. -/
def numberOf (kind : Kind) (raw : String) : Option Value.Size :=
  if kind == .integer then (Number.int? raw).map .whole else (Number.float? raw).map .real

/-- Whether a number is zero. -/
def isZero (n : Value.Size) : Bool := n.same (.whole 0)

/-- What a rule says about a text. -/
def textRule (f : Facts) (r : Rule) : Facts :=
  match r.name with
  | "minlength" => { f with minLength := r.arg.bind Number.int? }
  | "maxlength" => { f with maxLength := r.arg.bind Number.int? }
  | "pattern" => { f with pattern := r.arg }
  | "format" =>
    match r.arg with
    | some arg => if arg.isEmpty then f else { f with format := some arg }
    | none => f
  | "enum" => { f with choices := some (r.values.map .text) }
  | _ => f

/-- What a rule says about a number. -/
def numericRule (kind : Kind) (f : Facts) (r : Rule) : Facts :=
  let number := r.arg.bind (numberOf kind)
  match r.name with
  | "min" => { f with minimum := number }
  | "max" => { f with maximum := number }
  | "multipleOf" => { f with multipleOf := number.filter fun n => !isZero n }
  | "enum" => { f with choices := some ((r.values.filterMap (numberOf kind)).map sizeValue) }
  | _ => f

/-- What the rules of a field say about a single value. -/
def scalarRules (kind : Kind) (rules : List Rule) (f : Facts) : Facts :=
  if kind == .string then rules.foldl textRule f
  else if kind.isNumeric then rules.foldl (numericRule kind) f
  else f

/-- What a rule says about an array. -/
def arrayRule (f : Facts) (r : Rule) : Facts :=
  match r.name with
  | "minItems" => { f with minItems := r.arg.bind Number.int? }
  | "maxItems" => { f with maxItems := r.arg.bind Number.int? }
  | "uniqueItems" => { f with uniqueItems := some true }
  | _ => f

/-- What a rule says about a map. -/
def mapRule (f : Facts) (r : Rule) : Facts :=
  match r.name with
  | "minItems" => { f with minProperties := r.arg.bind Number.int? }
  | "maxItems" => { f with maxProperties := r.arg.bind Number.int? }
  | _ => f

/-- Rules of an array or a map that are about what is inside. -/
def innerRules : List String :=
  ["min", "max", "multipleOf", "minlength", "maxlength", "pattern", "format", "enum"]

/-- The signs of a layout: letters that stand right behind a percent sign. -/
def layoutSigns : List Char → List Char
  | '%' :: c :: rest => if c.isAlpha then c :: layoutSigns rest else layoutSigns (c :: rest)
  | _ :: rest => layoutSigns rest
  | [] => []

/-- Signs of layouts that are about the day. -/
def daySigns : List Char := "aAwdbBmyYjUWxGuV".toList

/-- Signs of layouts that are about the time of the day. -/
def clockSigns : List Char := "HIpMSfzZX".toList

/-- The format of moments in a layout. -/
def momentFormat (layout : Option String) : String :=
  let signs := layoutSigns (layout.getD "").toList
  match signs.any daySigns.contains, signs.any clockSigns.contains with
  | true, false => "date"
  | false, true => "time"
  | _, _ => "date-time"

/-- What is known about a single value of a kind under rules. -/
def scalarFacts (kind : Kind) (rules : List Rule) : Facts :=
  match kind with
  | .string => scalarRules kind rules (.ofType "string")
  | .integer => scalarRules kind rules (.ofFormat "integer" "int64")
  | .float => scalarRules kind rules (.ofFormat "number" "double")
  | .boolean => scalarRules kind rules (.ofType "boolean")
  | .moment => .ofFormat "string" (momentFormat ((Rule.find? rules "format").bind Rule.arg))
  | .uuid => .ofFormat "string" "uuid"
  | .array | .map | .record | .any => Facts.none

end Intake.Schema
