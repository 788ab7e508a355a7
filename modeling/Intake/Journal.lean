import Intake.Value.Basic

/-!
The journal: notices in the order in which they were made, and the occasions that are noted only once.
An operation that fails keeps the notices that it has made.
-/

namespace Intake

/-- How grave a notice is. -/
inductive Level where
  | debug
  | info
  | warning
  | error
  | critical
deriving DecidableEq, Repr, Inhabited

namespace Level

def label : Level → String
  | .debug => "debug"
  | .info => "info"
  | .warning => "warning"
  | .error => "error"
  | .critical => "critical"

def rank : Level → Nat
  | .debug => 10
  | .info => 20
  | .warning => 30
  | .error => 40
  | .critical => 50

end Level

/-- A notice: what happened, and the particulars by name. -/
structure Notice where
  level : Level
  event : String
  details : List (String × Value)
deriving Repr, Inhabited

/-- An occasion that is noted once: a model by qualified name and module, a field, a rule and the
event. -/
structure Occasion where
  model : String
  field : String
  rule : String
  event : String
deriving DecidableEq, Repr, Inhabited

/-- The notices so far and the occasions that were noted. -/
structure Journal where
  notices : List Notice
  seen : List Occasion
deriving Repr, Inhabited

namespace Journal

/-- A journal without entries. -/
def empty : Journal := ⟨[], []⟩

/-- Adds a notice. -/
def note (j : Journal) (n : Notice) : Journal := { j with notices := j.notices ++ [n] }

/-- Adds a notice for an occasion that was not noted before. -/
def noteOnce (j : Journal) (occasion : Occasion) (n : Notice) : Journal :=
  if j.seen.contains occasion then j
  else { notices := j.notices ++ [n], seen := j.seen ++ [occasion] }

end Journal
end Intake
