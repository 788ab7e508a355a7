import Intake.Markup.Flaw

/-!
The declaration at the beginning of a document: a version, an encoding and whether the document stands
alone, in this order; the version has to be there. What stands between the first word and the closing
signs is read here; a place in it is given by what is left of it.
-/

namespace Intake.Markup

/-- A part of a declaration: its name, its value, and their places. -/
structure DeclarationPart where
  name : String
  namePlace : List Char
  value : String
  valuePlace : List Char
deriving Repr, Inhabited

/-- Whether a character may stand in the value of a part. -/
def isDeclarationChar (c : Char) : Bool := c.isAlphanum || c == '.' || c == '-' || c == '_'

/-- Reads the value of a part. -/
def readPartValue (name : String) (namePlace : List Char) :
    List Char → Except (List Char) (DeclarationPart × List Char)
  | [] => .error []
  | quote :: value =>
    if quote == Text.doubleQuote || quote == Text.singleQuote then
      let text := value.takeWhile isDeclarationChar
      match value.drop text.length with
      | c :: rest =>
        if c == quote then .ok (⟨name, namePlace, String.ofList text, value⟩, rest)
        else .error (c :: rest)
      | [] => .error []
    else .error (quote :: value)

/-- Reads a part, if there is one. -/
def readPart? (cs : List Char) : Except (List Char) (Option DeclarationPart × List Char) :=
  match cs, skipSpaces cs with
  | [], _ | _, [] => .ok (none, cs)
  | c :: _, start =>
    if !isSpace c then .error cs
    else
      let name := start.takeWhile fun c => c != '=' && !isSpace c && c.toNat < 128
      match skipSpaces (start.drop name.length) with
      | '=' :: rest =>
        if name.isEmpty then .error ('=' :: rest)
        else do
          let (part, rest) ← readPartValue (String.ofList name) start (skipSpaces rest)
          return (some part, rest)
      | rest => .error rest

/-- The encoding that a declaration names, and its place. -/
structure DeclaredEncoding where
  name : String
  place : List Char
deriving Repr, Inhabited

/-- Reads whether a document stands alone, behind which nothing follows. -/
def readAlone (part : DeclarationPart) (rest : List Char) : Except (List Char) Unit :=
  if part.name != "standalone" then .error part.namePlace
  else if part.value != "yes" && part.value != "no" then .error part.valuePlace
  else match skipSpaces rest with
    | [] => .ok ()
    | rest => .error rest

/-- Reads a declaration: the encoding that it names. -/
def readDeclaration (cs : List Char) : Except (List Char) (Option DeclaredEncoding) := do
  match ← readPart? cs with
  | (none, rest) => throw rest
  | (some version, rest) =>
    if version.name != "version" then throw version.namePlace
    match ← readPart? rest with
    | (none, _) => return none
    | (some part, rest) =>
      if part.name != "encoding" then
        readAlone part rest
        return none
      if !((part.value.toList.head?).any Char.isAlpha) then throw part.valuePlace
      match ← readPart? rest with
      | (none, _) => pure ()
      | (some part, rest) => readAlone part rest
      return some ⟨part.value, part.valuePlace⟩

end Intake.Markup
