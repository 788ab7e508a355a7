import Intake.Markup.Flaw

/-!
Entities: named texts that references stand for. Five are known without a declaration. An entity may
refer to others but not to itself.
-/

namespace Intake.Markup

/-- What an entity is. -/
inductive Entity where
  | inside (text : List Char)
  | outside
  | binary
deriving Repr, Inhabited

/-- The declared entities, of which the first with a name counts, and whether there may be others that
were not read. -/
structure Entities where
  declared : List (String × Entity)
  mayMiss : Bool
deriving Repr, Inhabited

/-- No entities but those that are always known. -/
def Entities.none : Entities := ⟨[], false⟩

/-- The character that a name stands for without a declaration. -/
def knownCharacter? (name : String) : Option Char :=
  match name with
  | "lt" => some '<'
  | "gt" => some '>'
  | "amp" => some '&'
  | "quot" => some Text.doubleQuote
  | "apos" => some Text.singleQuote
  | _ => .none

/-- The character of a number, if documents may hold it. -/
def characterOf? (code : Nat) : Option Char :=
  if code.isValidChar && !isForbidden (Char.ofNat code) then some (Char.ofNat code) else .none

/-- What a reference stands for: a character, the text of an entity, or nothing that is known. -/
inductive Meaning where
  | character (c : Char)
  | entity (name : String) (e : Entity)
  | unknown (name : String)

/-- Resolves a reference. A name without a declaration is a problem unless declarations may be
missing. -/
def Entities.resolve (es : Entities) (r : Reference) : Except Problem Meaning :=
  match r with
  | .character code =>
    match characterOf? code with
    | some c => .ok (.character c)
    | .none => .error .badCharacter
  | .entity name =>
    match knownCharacter? name, es.declared.lookup name with
    | some c, _ => .ok (.character c)
    | .none, some e => .ok (.entity name e)
    | .none, .none => if es.mayMiss then .ok (.unknown name) else .error .undefinedEntity

/-- Reads the value of an attribute up to its quote, or the text of an entity in it, where entities
inside are read by `expand`. Line ends and tabs become blanks. An entity that is not known and a
problem inside an entity are told at `start`, the place of the tag. -/
def readValue (es : Entities) (expand : String → List Char → Except Problem (List Char))
    (start : List Char) (quote : Option Char) : (fuel : Nat) → List Char → Except Trouble (List Char)
  | 0, _ | _, [] => .ok []
  | fuel + 1, c :: rest =>
    if quote == some c then .ok []
    else if c == '&' then
      match scanReference rest with
      | .error stop => .error (stop.trouble (c :: rest))
      | .ok (r, behind) =>
        match es.resolve r with
        | .error .undefinedEntity => .error ⟨.undefinedEntity, start⟩
        | .error problem => .error ⟨problem, c :: rest⟩
        | .ok (.character d) => do return d :: (← readValue es expand start quote fuel behind)
        | .ok (.unknown _) => readValue es expand start quote fuel behind
        | .ok (.entity _ .binary) => .error ⟨.binaryEntity, c :: rest⟩
        | .ok (.entity _ .outside) => .error ⟨.externalEntity, c :: rest⟩
        | .ok (.entity name (.inside text)) =>
          match expand name text with
          | .error problem => .error ⟨problem, start⟩
          | .ok cs => do return cs ++ (← readValue es expand start quote fuel behind)
    else if c == '<' then .error ⟨.invalidToken, c :: rest⟩
    else
      match c, rest with
      | '\r', '\n' :: behind => do return ' ' :: (← readValue es expand start quote fuel behind)
      | _, _ => do
        return (if isSpace c then ' ' else c) :: (← readValue es expand start quote fuel rest)

/-- The text of an entity inside the value of an attribute; `left` bounds how deep entities may stand
in one another, and `around` holds those that are being read. -/
def expandInValue (es : Entities) : (left : Nat) → (around : List String) → String → List Char →
    Except Problem (List Char)
  | 0, _, _, _ => .error .recursiveEntity
  | left + 1, around, name, text =>
    if around.contains name then .error .recursiveEntity
    else (readValue es (expandInValue es left (name :: around)) [] .none (text.length + 1) text).mapError
      (·.problem)

/-- The value of an attribute of the tag at a place. -/
def RawAttribute.read (a : RawAttribute) (es : Entities) (start : List Char) :
    Except Trouble String :=
  (readValue es (expandInValue es (es.declared.length + 1) []) start (some a.quote)
    (a.value.length + 1) a.value).map String.ofList

end Intake.Markup
