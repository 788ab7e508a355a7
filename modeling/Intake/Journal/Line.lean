import Intake.Journal
import Intake.Journal.Redaction
import Intake.Json.Reader
import Intake.Json.Writer

/-!
The lines of a journal. A line is written if it is grave enough for its logger; it holds the context in
which it was noted, its particulars, and where it comes from, without what must not be seen.
-/

namespace Intake.Journal

/-- How a journal is written: from which level on, and whether as documents. -/
structure Configuration where
  level : String
  json : Bool
deriving DecidableEq, Repr, Inhabited

/-- The configuration that counts if none is given. -/
def Configuration.default : Configuration := ⟨"INFO", false⟩

/-- The rank from which on a level lets lines through. A level that is not known is as good as the
one that is usual. -/
def rankOf (level : String) : Nat :=
  let ranks := [("critical", 50), ("fatal", 50), ("error", 40), ("warning", 30), ("warn", 30),
    ("info", 20), ("debug", 10), ("notset", 0)]
  (ranks.lookup (Text.lower level)).getD Level.info.rank

/-- Loggers that are quiet whatever the configuration, and so are those below them. -/
def quietLoggers : List String := ["uvicorn.access", "httpcore", "httpx"]

/-- Whether a logger is another or below it. -/
def isBelow (logger above : String) : Bool := logger == above || logger.startsWith (above ++ ".")

/-- The rank from which on a logger lets lines through. -/
def threshold (c : Configuration) (logger : String) : Nat :=
  if quietLoggers.any (isBelow logger) then Level.warning.rank else rankOf c.level

/-- What the lines of this service say where they come from. -/
def service : String := "webfram"

/-- The name of the logger of a domain. -/
def domainLogger (domain : String) : String := service ++ "." ++ domain

/-- Puts an entry among others; one of the same name is replaced in its place. -/
def putDetail (name : String) (v : Value) : List (String × Value) → List (String × Value)
  | [] => [(name, v)]
  | (n, w) :: rest => if n == name then (n, v) :: rest else (n, w) :: putDetail name v rest

/-- A key as a line can hold it: as the text that it has in a document, or else by itself. -/
def shownKey (key : Value) : Value :=
  match Json.keyCodes key with
  | .ok codes => Json.textValue codes
  | .error _ => .text key.display

mutual

/-- A value as a line can hold it: as it is if documents have it, and otherwise as the text that it has
inside brackets. -/
def shown : Value → Value
  | .member enumeration name .plain value =>
    .text (Value.innerText (.member enumeration name .plain value))
  | .member _ _ _ value => value
  | .list items | .tuple items => .list (shownItems items)
  | .dict entries => .dict (shownEntries entries)
  | .moment m => .text (Value.momentText m)
  | .day d => .text (Value.dayText d)
  | .uuid u => .text (Value.innerText (.uuid u))
  | .bytes bs => .text (Value.bytesText bs)
  | .set frozen items => .text (Value.innerText (.set frozen items))
  | .record model attributes => .text (Value.innerText (.record model attributes))
  | v => v

def shownItems : List Value → List Value
  | [] => []
  | v :: rest => shown v :: shownItems rest

def shownEntries : List (Value × Value) → List (Value × Value)
  | [] => []
  | (key, v) :: rest => (shownKey key, shown v) :: shownEntries rest

end

/-- A particular as a line holds it; bytes stand for their text there. -/
def particular : Value → Value
  | .bytes bs => .text (Text.lossyUtf8 bs)
  | v => shown v

/-- What is told about every line anyway: particulars of these names do not count. -/
def ownNames : List String := ["timestamp"]

/-- The entries of a line. Particulars count more than the context, and what is known about the line
more than both; only the service can be told otherwise. -/
def lineOf (context : List (String × Value)) (logger : String) (n : Notice) : Value :=
  let given := (context ++ n.details).filter fun e => !ownNames.contains e.1
  let merged := given.foldl (fun all e => putDetail e.1 e.2 all) []
  let named := putDetail "event" (.text n.event) merged
  let leveled := putDetail "level" (.text n.level.label) named
  let placed := putDetail "logger" (.text (if logger.isEmpty then "root" else logger)) leveled
  let served := if (placed.lookup "service").isSome then placed
    else putDetail "service" (.text service) placed
  match Redaction.redact (.dict (served.map fun (k, v) => (.text k, v))) with
  | .dict entries => .dict (entries.map fun (k, v) => (k, particular v))
  | v => v

/-- The line for a notice, if it is grave enough for its logger. -/
def line? (c : Configuration) (context : List (String × Value)) (logger : String) (n : Notice) :
    Option Value :=
  if n.level.rank < threshold c logger then none else some (lineOf context logger n)

end Intake.Journal
