import Intake.Fault

/-!
Emptiness: whether a value is the zero value of its field. A record is empty when all its members are,
whatever their defaults; a member that may be absent is empty only when it is.
-/

namespace Intake.Validation

/-- The number of characters, items or entries of a value. -/
def length (v : Value) : Except Fault Nat :=
  match v with
  | .brokenText codes => .ok codes.length
  | .bytes bs => .ok bs.length
  | .dict entries => .ok entries.length
  | v =>
    match v.text?, v.items? with
    | some s, _ => .ok s.length
    | none, some xs => .ok xs.length
    | none, none => .error (.noLength v.typeName)

/-- Whether a moment is the first one. -/
def isZeroMoment (v : Value) : Except Fault Bool :=
  match v with
  | .moment m => .ok m.isFirst
  | v => .error (.noOffset v.typeName)

/-- Whether a value that is no record counts as nothing. -/
def isFalsy (v : Value) : Bool :=
  match v with
  | .null => true
  | .brokenText codes => codes.isEmpty
  | .bytes bs => bs.isEmpty
  | .dict entries => entries.isEmpty
  | v =>
    match v.size?, v.text?, v.items? with
    | some n, _, _ => n.same (.whole 0)
    | _, some s, _ => s.isEmpty
    | _, _, some xs => xs.isEmpty
    | _, _, _ => false

/-- Whether a value that is no record is the zero value of a kind. -/
def isZeroScalar (kind : Kind) (v : Value) : Except Fault Bool :=
  if v.isNull then .ok true
  else match kind with
    | .string | .array | .map => (length v).map (· == 0)
    | .integer | .float => .ok (v.same (.int 0))
    | .boolean => match v with
      | .bool b => .ok (!b)
      | _ => .ok false
    | .moment => isZeroMoment v
    | .uuid => .ok (v.same (.uuid Uuid.nil))
    | .record => .ok (isFalsy v)
    | .any => .ok false

/-- An attribute of a record: its value, and whether it is the zero value of a kind. -/
structure Member where
  name : String
  value : Value
  isZero : Kind → Except Fault Bool

/-- Whether the members of a record are all empty, looked at in the order of the fields. -/
def allEmpty (members : List Member) : List Descriptor → Except Fault Bool
  | [] => .ok true
  | d :: rest => do
    match members.find? fun m => m.name == d.name with
    | none => allEmpty members rest
    | some m =>
      if d.optional && !m.value.isNull then return false
      if ← m.isZero d.kind then allEmpty members rest else return false

mutual

/-- Whether a value is the zero value of a kind. -/
def isZero (c : Catalogue) : Value → Kind → Except Fault Bool
  | .record name attributes, kind =>
    if kind == .record then
      match c.model? name with
      | some m => do allEmpty (membersOf c attributes) (← Action.describe c m)
      | none => .ok false
    else isZeroScalar kind (.record name attributes)
  | v, kind => isZeroScalar kind v

/-- The attributes of a record with their tests of emptiness. -/
def membersOf (c : Catalogue) : List (String × Value) → List Member
  | [] => []
  | (name, v) :: rest => ⟨name, v, isZero c v⟩ :: membersOf c rest

end

/-- Whether an item of an array of moments or identifiers is empty. -/
def isEmptyItem (kind : Kind) (v : Value) : Except Fault Bool :=
  if v.isNull then .ok true
  else if kind == .moment then isZeroMoment v
  else .ok (v.same (.uuid Uuid.nil))

end Intake.Validation
