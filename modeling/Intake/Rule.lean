import Intake.Text.Blank
import Intake.Text.Pieces

/-!
The two annotations of a field. Rules stand between commas, each a name or a name and an argument;
blanks around a rule do not count and empty rules are left out. Messages stand between semicolons,
each for the rule before its first equals sign, and the first message for a rule wins.
-/

namespace Intake

/-- A rule with its argument. -/
structure Rule where
  name : String
  arg : Option String
deriving DecidableEq, Repr, Inhabited

namespace Rule

/-- The texts between bars of the argument. -/
def values (r : Rule) : List String :=
  match r.arg with
  | some arg => Text.split '|' arg
  | none => []

/-- A rule as it is written. -/
def text (r : Rule) : String :=
  match r.arg with
  | some arg => r.name ++ "=" ++ arg
  | none => r.name

/-- The rule that a text without blanks at its ends writes. -/
def ofText (s : String) : Rule :=
  let (name, arg) := Text.cut '=' s
  ⟨name, arg⟩

/-- The rules of an annotation, in their order. -/
def parse (written : String) : List Rule :=
  let texts := (Text.split ',' written).map Text.strip
  (texts.filter fun s => !s.isEmpty).map ofText

/-- Whether a rule of a name is there. -/
def has (rules : List Rule) (name : String) : Bool :=
  rules.any fun r => r.name == name

/-- The first rule of a name. -/
def find? (rules : List Rule) (name : String) : Option Rule :=
  rules.find? fun r => r.name == name

end Rule

/-- Messages by rule, in the order of their first appearance. -/
abbrev Messages := List (String × String)

namespace Messages

/-- Notes a message unless the rule has one. -/
def note (messages : Messages) (rule message : String) : Messages :=
  if messages.any fun m => m.1 == rule then messages else messages ++ [(rule, message)]

/-- The messages of an annotation. -/
def parse (written : String) : Messages :=
  if written.isEmpty then []
  else (Text.split ';' written).foldl (fun messages part =>
    match Text.cut '=' part with
    | (rule, some message) => messages.note rule message
    | (_, none) => messages) []

/-- The message for a rule, or the fallback. -/
def resolve (messages : Messages) (rule fallback : String) : String :=
  (messages.lookup rule).getD fallback

theorem note_of_any {messages : Messages} {rule : String} (message : String)
    (known : (messages.any fun m => m.1 == rule) = true) : messages.note rule message = messages := by
  simp [note, known]

/-- The first message for a rule wins, and a note for one rule leaves all others as they were. -/
theorem lookup_note (messages : Messages) (rule message asked : String) :
    List.lookup asked (messages.note rule message) =
      (List.lookup asked messages).or (if asked = rule then some message else none) := by
  simp only [note]
  split
  · rename_i known
    by_cases same : asked = rule
    · obtain ⟨m, inside, equal⟩ := List.any_eq_true.mp known
      have found : (List.lookup asked messages).isSome := by
        rw [List.lookup_isSome_iff]
        exact ⟨m, inside, by rw [same, ← eq_of_beq equal, beq_self_eq_true]⟩
      obtain ⟨value, held⟩ := Option.isSome_iff_exists.mp found
      simp [held]
    · simp [same]
  · rw [List.lookup_append]
    by_cases same : asked = rule
    · simp [same]
    · simp [List.lookup_cons, same, beq_false_of_ne same]

end Messages
end Intake
