import Intake.Text.Lowercase
import Intake.Value.Basic

/-!
What must not be seen in a journal. What stands under a sensitive key is replaced, down to a depth
below which nothing is looked at.
-/

namespace Intake.Redaction

/-- Keys whose values must not be seen, in any case. -/
def sensitiveKeys : List String := ["password", "token", "secret", "authorization", "cookie"]

/-- What stands in the place of a value that must not be seen. -/
def mark : Value := .text "[REDACTED]"

/-- The depth down to which dictionaries and lists are looked at. -/
def maxDepth : Nat := 5

/-- Whether what stands under a key must not be seen. -/
def isSensitive (key : Value) : Bool :=
  key.text?.any fun s => sensitiveKeys.contains (Text.lower s)

mutual

/-- A value at a depth, without what must not be seen. -/
def redactAt (depth : Nat) : Value → Value
  | .dict entries => .dict (if maxDepth < depth then entries else redactEntries depth entries)
  | .list items => .list (if maxDepth < depth then items else redactItems depth items)
  | v => v

def redactEntries (depth : Nat) : List (Value × Value) → List (Value × Value)
  | [] => []
  | (key, v) :: rest =>
    (key, if isSensitive key then mark else redactAt (depth + 1) v) :: redactEntries depth rest

def redactItems (depth : Nat) : List Value → List Value
  | [] => []
  | v :: rest => redactAt (depth + 1) v :: redactItems depth rest

end

/-- A value without what must not be seen. -/
def redact (v : Value) : Value := redactAt 0 v

end Intake.Redaction
