import Intake.Applicability
import Intake.Email
import Intake.Pattern.Matcher
import Intake.Validation.Emptiness
import Intake.Validation.Unique

/-!
The rules as tests of values. Integers are compared within 64 bits, numbers with a fraction in
millionths where a multiple is asked for, texts by their characters. A rule whose argument cannot be
read has no verdict.
-/

namespace Intake.Validation

/-- Why a rule gives no verdict: its argument is unfit, or the operation fails. -/
inductive Trouble where
  | argument (reason : String)
  | fault (f : Fault)
deriving DecidableEq, Repr

/-- The message of a rule that is broken; none where it is kept. -/
abbrev Verdict := Except Trouble (Option String)

/-- The least and the greatest integer of 64 bits. -/
def leastInteger : Int := -9223372036854775808

def greatestInteger : Int := 9223372036854775807

/-- An integer brought into 64 bits. -/
def saturate (i : Int) : Int := max leastInteger (min greatestInteger i)

/-- The integer of a double-precision number, cut toward zero. -/
def truncate (x : Binary64) : Except Fault Int :=
  match x.truncate?, x with
  | some n, _ => .ok n
  | none, .nan => .error .nanToInteger
  | none, _ => .error .infinityToInteger

/-- The integer of a value. -/
def integerOf (v : Value) : Except Fault Int :=
  match v.size?, v.text? with
  | some (.whole i), _ => .ok i
  | some (.real x), _ => truncate x
  | none, some s =>
    match Number.int? s with
    | some i => .ok i
    | none => .error (.integerLiteral s)
  | none, none => .error (.noNumber "int()" v.typeName)

/-- The double-precision number of a value. -/
def numberOf (v : Value) : Except Fault Binary64 :=
  match v.size?, v.text? with
  | some (.whole i), _ =>
    match Binary64.ofInt? i with
    | some x => .ok x
    | none => .error .integerTooLarge
  | some (.real x), _ => .ok x
  | none, some s =>
    match Number.float? s with
    | some x => .ok x
    | none => .error (.numberLiteral s)
  | none, none => .error (.noNumber "float()" v.typeName)

/-- The argument of a rule as a diagnostic shows it. -/
def argumentText (r : Rule) : String :=
  match r.arg with
  | some arg => Text.quoted arg
  | none => "None"

/-- The integer that a rule gives. -/
def integerArgument (r : Rule) : Except Trouble Int :=
  match r.arg.bind Number.int? with
  | some n => .ok n
  | none => .error (.argument ("expected an integer argument, got " ++ argumentText r))

/-- The number that a rule gives. -/
def numberArgument (r : Rule) : Except Trouble Binary64 :=
  match r.arg.bind Number.float? with
  | some x => .ok x
  | none => .error (.argument ("expected a numeric argument, got " ++ argumentText r))

/-- A message if a condition fails. -/
def messageUnless (kept : Bool) (message : String) : Option String :=
  if kept then none else some message

/-- The message of a rule that lists the values allowed. -/
def choiceMessage (r : Rule) : String := "must be one of: " ++ ", ".intercalate r.values

/-- Fails the operation. -/
def lift {α : Type} (result : Except Fault α) : Except Trouble α := result.mapError .fault

/-- The verdict of a rule on an integer. -/
def judgeInteger (r : Rule) (value : Value) : Verdict := do
  let v := saturate (← lift (integerOf value))
  match r.name with
  | "min" =>
    let bound ← integerArgument r
    return messageUnless (bound ≤ v) ("must be ≥ " ++ toString bound)
  | "max" =>
    let bound ← integerArgument r
    return messageUnless (v ≤ bound) ("must be ≤ " ++ toString bound)
  | "multipleOf" =>
    let step ← integerArgument r
    if step = 0 then throw (.argument "multipleOf must not be zero")
    return messageUnless (v % step = 0) ("must be a multiple of " ++ toString step)
  | "enum" =>
    return messageUnless ((r.values.filterMap Number.int?).contains v) (choiceMessage r)
  | _ => return none

/-- The number of millionths in which multiples are counted. -/
def multipleScale : Nat := 1000000

/-- The verdict of a rule on a number with a fraction. -/
def judgeNumber (r : Rule) (value : Value) : Verdict := do
  let v ← lift (numberOf value)
  match r.name with
  | "min" =>
    let bound ← numberArgument r
    return messageUnless (!v.lt bound) ("must be ≥ " ++ Number.sixPlaces bound)
  | "max" =>
    let bound ← numberArgument r
    return messageUnless (!bound.lt v) ("must be ≤ " ++ Number.sixPlaces bound)
  | "multipleOf" =>
    let step ← numberArgument r
    let scaled ← lift (truncate (step.scaleNat multipleScale))
    if scaled = 0 then throw (.argument "multipleOf must not be zero")
    let size ← lift (truncate (v.scaleNat multipleScale))
    return messageUnless (size % scaled = 0) ("must be a multiple of " ++ Number.sixPlaces step)
  | "enum" =>
    return messageUnless ((r.values.filterMap Number.float?).any v.eq) (choiceMessage r)
  | _ => return none

/-- The verdict of a pattern on a text. A pattern that cannot be read matches nothing. -/
def judgePattern (r : Rule) (s : String) : Verdict :=
  match r.arg with
  | none => .error (.argument "pattern needs an expression")
  | some pattern =>
    match Pattern.compile .none pattern with
    | .ok compiled => .ok (messageUnless (compiled.occursIn s) "invalid format")
    | .error .malformed => .ok (some "invalid format")
    | .error flaw => .error (.fault (.pattern flaw))

/-- The text of a value, where codes that belong to no character are replaced. -/
def textOf (v : Value) : Except Fault String :=
  match v with
  | .brokenText codes =>
    .ok (String.ofList (codes.map fun n => Char.ofNat (if Text.isSurrogate n then 0xFFFD else n)))
  | v =>
    match v.text? with
    | some s => .ok s
    | none => .error (.noText v.typeName)

/-- The verdict of a rule on a text. -/
def judgeText (r : Rule) (value : Value) : Verdict := do
  match r.name with
  | "minlength" =>
    let length ← lift (length value)
    let bound ← integerArgument r
    return messageUnless (bound ≤ length) ("must have at least " ++ toString bound ++ " characters")
  | "maxlength" =>
    let length ← lift (length value)
    let bound ← integerArgument r
    return messageUnless (length ≤ bound) ("must have at most " ++ toString bound ++ " characters")
  | "pattern" =>
    if r.arg.isNone then throw (.argument "pattern needs an expression")
    judgePattern r (← lift (textOf value))
  | "format" =>
    return messageUnless (Email.accepts (← lift (textOf value))) "is not a valid email address"
  | "enum" =>
    return messageUnless (r.values.any fun s => value.same (.text s)) (choiceMessage r)
  | _ => return none

/-- The verdict of a rule on a value that is no collection. -/
def judgeScalar (kind : Kind) (r : Rule) (value : Value) : Verdict :=
  match kind with
  | .integer => judgeInteger r value
  | .float => judgeNumber r value
  | .string => judgeText r value
  | _ => .ok none

/-- The verdict of a rule on a number of items or entries. -/
def judgeCount (r : Rule) (count : Nat) (noun : String) : Verdict := do
  match r.name with
  | "minItems" =>
    let bound ← integerArgument r
    return messageUnless (bound ≤ count) ("must have at least " ++ toString bound ++ " " ++ noun)
  | "maxItems" =>
    let bound ← integerArgument r
    return messageUnless (count ≤ bound) ("must have at most " ++ toString bound ++ " " ++ noun)
  | _ => return none

/-- Rules that arrays pass on to their items. -/
def elementRules : List String :=
  ["min", "max", "multipleOf", "minlength", "maxlength", "pattern", "format", "enum"]

/-- The verdict of a rule on the first item that breaks it; absent items keep every rule. -/
def judgeItems (kind : Kind) (r : Rule) : List Value → Verdict
  | [] => .ok none
  | v :: rest =>
    if v.isNull then judgeItems kind r rest
    else do
      match ← judgeScalar kind r v with
      | some message => return some message
      | none => judgeItems kind r rest

/-- The items of a value in a row; the characters of a text, the keys of a dictionary. -/
def itemsOf (v : Value) : Except Fault (List Value) :=
  match v.traverse? with
  | some xs => .ok xs
  | none => .error (.noItems v.typeName)

/-- The verdict of a rule on the value of a field. -/
def judge (d : Descriptor) (r : Rule) (value : Value) : Verdict :=
  match d.kind with
  | .array =>
    if countRules.contains r.name then do judgeCount r (← lift (length value)) "items"
    else if r.name == "uniqueItems" then do
      return messageUnless (← lift (allUnique [] (← lift (itemsOf value)))) "must have unique items"
    else match elementRules.contains r.name, d.elementKind with
      | true, some kind => do judgeItems kind r (← lift (itemsOf value))
      | _, _ => .ok none
  | .map => do judgeCount r (← lift (length value)) "entries"
  | kind => judgeScalar kind r value

end Intake.Validation
