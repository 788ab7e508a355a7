import Intake.Fault
import Intake.Schema.Basic

/-!
The registry of components: schemas by name, in the order in which the names were taken. A name is
taken before its schema is known, so that schemas may refer to each other in circles. Once the registry
is frozen nothing can be put into it any more.
-/

namespace Intake

/-- Components by name, and whether more can be added. -/
structure Registry where
  components : List (String × Schema)
  frozen : Bool
deriving Repr, Inhabited

namespace Registry

/-- A registry without components. -/
def empty : Registry := ⟨[], false⟩

/-- The schema of a name. -/
def get? (r : Registry) (name : String) : Option Schema := r.components.lookup name

/-- Whether a name is taken. -/
def contains (r : Registry) (name : String) : Bool := (r.get? name).isSome

/-- The names in the order in which they were taken. -/
def names (r : Registry) : List String := r.components.map (·.1)

def size (r : Registry) : Nat := r.components.length

/-- What stands under a name until its schema is known. -/
def placeholder (name : String) : Schema :=
  .leaf { Facts.ofType "object" with title := some name }

/-- The components with the schema of a name; one that is there already keeps its place. -/
def putInto (name : String) (s : Schema) : List (String × Schema) → List (String × Schema)
  | [] => [(name, s)]
  | (n, t) :: rest => if n == name then (n, s) :: rest else (n, t) :: putInto name s rest

/-- The registry with the schema of a name, if it is not frozen. -/
def insert? (r : Registry) (name : String) (s : Schema) : Except Fault Registry :=
  if r.frozen then .error (.frozenRegistry name)
  else .ok { r with components := putInto name s r.components }

theorem lookup_putInto_self (name : String) (s : Schema) (components : List (String × Schema)) :
    (putInto name s components).lookup name = some s := by
  induction components with
  | nil => simp [putInto]
  | cons first rest ih =>
    obtain ⟨n, t⟩ := first
    by_cases same : n = name
    · simp [putInto, same]
    · simp [putInto, same, List.lookup_cons, beq_false_of_ne (Ne.symm same), ih]

theorem lookup_putInto_of_ne {name other : String} (s : Schema) (components : List (String × Schema))
    (different : other ≠ name) :
    (putInto name s components).lookup other = components.lookup other := by
  induction components with
  | nil => simp [putInto, List.lookup_cons, beq_false_of_ne different]
  | cons first rest ih =>
    obtain ⟨n, t⟩ := first
    by_cases same : n = name
    · simp [putInto, same, List.lookup_cons, beq_false_of_ne different]
    · simp [putInto, same, List.lookup_cons, ih]

theorem insert?_of_frozen {r : Registry} (name : String) (s : Schema) (frozen : r.frozen = true) :
    r.insert? name s = .error (.frozenRegistry name) := by
  simp [insert?, frozen]

/-- What was put under a name is found there, and under all other names what was there before. -/
theorem get?_insert? {r next : Registry} {name : String} {s : Schema}
    (done : r.insert? name s = .ok next) (asked : String) :
    next.get? asked = if asked = name then some s else r.get? asked := by
  have shape : next = { r with components := putInto name s r.components } := by
    simp only [insert?] at done
    split at done
    · cases done
    · exact (Except.ok.inj done).symm
  by_cases same : asked = name
  · simp [shape, get?, same, lookup_putInto_self]
  · simp [shape, get?, same, lookup_putInto_of_ne s r.components same]

/-- The components in the order of their names. -/
def sorted (r : Registry) : List (String × Schema) :=
  r.components.mergeSort fun a b => !(b.1 < a.1)

/-- The components as a document. -/
def toValue (r : Registry) : Value :=
  .dict [(.text "schemas", .dict (r.sorted.map fun (name, s) => (.text name, s.toValue)))]

end Registry

/-- An operation on a registry that may note things and may fail; what it has put into the registry
stays there. -/
abbrev Registering := ExceptT Fault (StateT Registry (StateM Journal))

namespace Registering

/-- An operation that does not touch the registry. -/
def ofAction {α : Type} (a : Action α) : Registering α :=
  ExceptT.mk fun r => fun j =>
    let (result, j) := a.run j
    ((result, r), j)

/-- Adds a notice. -/
def note (level : Level) (event : String) (details : List (String × Value)) : Registering Unit :=
  ofAction (Action.note level event details)

/-- Takes a name, if it is not taken yet. -/
def reserve (name : String) : Registering Bool := do
  let r : Registry ← get
  let next ← (r.insert? name (Registry.placeholder name) : Except Fault Registry)
  if r.contains name then return false
  set next
  return true

/-- Puts a schema under a name, taken or not. -/
def put (name : String) (s : Schema) : Registering Unit := do
  let r : Registry ← get
  set (← (r.insert? name s : Except Fault Registry))
  note .debug "schema_component_registered" [("component", .text name)]

/-- Lets nothing more into the registry. -/
def freeze : Registering Unit := do
  let r : Registry ← get
  set { r with frozen := true }
  note .info "schema_registry_frozen" [("components", .int r.size)]

end Registering
end Intake
