import Intake.Markup.Entity

/-!
What stands before and behind the root element: spaces, comments, instructions, and before it also a
declaration at the very beginning and a document type. Of a document type the entities count, and all
other declarations are passed over.
-/

namespace Intake.Markup

/-- A token outside of elements. -/
inductive OuterToken where
  | space
  | comment
  | instruction (isDeclaration : Bool)
  | openDeclaration (name : String)
  | element
  | name (s : String)
  | literal (cs : List Char)
  | openBracket
  | closeBracket
  | closeDeclaration
  | parameterReference
  | percent
  | other
deriving Repr, Inhabited

/-- Reads a declaration's name behind its signs. -/
def scanDeclaration (cs : List Char) : Except Stop (OuterToken × List Char) :=
  let word := cs.takeWhile Char.isAlpha
  match word, cs.drop word.length with
  | [], [] | _ :: _, [] => .error .unfinished
  | [], rest => .error (.invalid rest)
  | word, c :: rest =>
    if isSpace c || c == '%' then .ok (.openDeclaration (String.ofList word), c :: rest)
    else .error (.invalid (c :: rest))

/-- Reads a literal up to its quote; a sign that cannot stand behind it is a fault. -/
def scanLiteral (quote : Char) : List Char → Except Stop (List Char × List Char)
  | [] => .error .unfinished
  | c :: rest =>
    if c == quote then
      match rest with
      | [] => .ok ([], [])
      | d :: _ =>
        if isSpace d || d == '>' || d == '%' || d == '[' then .ok ([], rest)
        else .error (.invalid rest)
    else if isForbidden c then .error (.invalid (c :: rest))
    else do
      let (cs, rest) ← scanLiteral quote rest
      return (c :: cs, rest)

/-- The signs that may stand behind a word. -/
def endsWord (c : Char) : Bool := isSpace c || ">),|[%".toList.contains c

/-- Reads a word: a name, with a prefix or without, or another run of characters of names. -/
def scanWord (cs : List Char) : Except Stop (OuterToken × List Char) :=
  let isPart (c : Char) : Bool := isNameChar c || c == ':'
  let word := cs.takeWhile isPart
  let rest := cs.drop word.length
  let token : OuterToken :=
    match word with
    | c :: _ => if isNameStart c then .name (String.ofList word) else .other
    | [] => .other
  match rest with
  | [] =>
    if word.getLast? == some ':' && word.count ':' == 1 then .error .unfinished else .ok (token, [])
  | c :: behind =>
    if endsWord c then .ok (token, rest)
    else if c == '+' || c == '*' || c == '?' then .ok (.other, behind)
    else .error (.invalid rest)

/-- Reads the next token outside of elements. -/
def scanOuter (cs : List Char) : Except Stop (OuterToken × List Char) :=
  match cs with
  | [] => .error .unfinished
  | '<' :: '!' :: '-' :: rest => do return (.comment, (← scanComment rest).2)
  | '<' :: '!' :: '[' :: rest => .ok (.other, rest)
  | '<' :: '!' :: rest => scanDeclaration rest
  | '<' :: '?' :: rest => do
    match ← scanInstruction rest with
    | (.instruction isDeclaration, rest) => return (.instruction isDeclaration, rest)
    | (_, rest) => return (.other, rest)
  | '<' :: c :: rest =>
    if isNameStart c || 128 ≤ c.toNat then .ok (.element, cs) else .error (.invalid (c :: rest))
  | '<' :: [] => .error .unfinished
  | '[' :: rest => .ok (.openBracket, rest)
  | ']' :: rest => .ok (.closeBracket, rest)
  | '>' :: rest => .ok (.closeDeclaration, rest)
  | '%' :: rest => scanPercent rest
  | '#' :: rest => do
    let (_, rest) ← scanName rest
    return (.other, rest)
  | c :: rest =>
    if isSpace c then .ok (.space, skipSpaces rest)
    else if c == Text.doubleQuote || c == Text.singleQuote then do
      let (literal, rest) ← scanLiteral c rest
      return (.literal literal, rest)
    else if ",(|".toList.contains c then .ok (.other, rest)
    else if c == ')' then .ok (.other, rest.dropWhile fun d => d == '*' || d == '?' || d == '+')
    else if isNameChar c || c == ':' then scanWord cs
    else .error (.invalid cs)
where
  /-- A percent sign stands before a name and a semicolon, or alone before a space. -/
  scanPercent : List Char → Except Stop (OuterToken × List Char)
    | [] => .error .unfinished
    | c :: rest =>
      if isSpace c || c == '%' then .ok (.percent, c :: rest)
      else do
        let (_, rest) ← scanName (c :: rest)
        return (.parameterReference, ← expect ';' rest)

/-- Reads the next token, spaces passed over. A document that ends here has no element. -/
def nextOuter : (fuel : Nat) → List Char → Except Trouble (OuterToken × List Char × List Char)
  | 0, cs => .error ⟨.noElement, cs⟩
  | fuel + 1, cs =>
    if cs.isEmpty then .error ⟨.noElement, cs⟩
    else match scanOuter cs with
      | .error stop => .error (stop.trouble cs)
      | .ok (.space, rest) => nextOuter fuel rest
      | .ok (token, rest) => .ok (token, cs, rest)

/-- The text of an entity: references to characters are resolved, others stay. A fault is told with
what is left of the literal. -/
def entityText : (fuel : Nat) → List Char → Except Trouble (List Char)
  | 0, _ | _, [] => .ok []
  | fuel + 1, c :: rest =>
    match c, rest with
    | '&', _ =>
      match scanReference rest with
      | .ok (.character code, behind) =>
        match characterOf? code with
        | some d => do return d :: (← entityText fuel behind)
        | none => .error ⟨.badCharacter, c :: rest⟩
      | .ok (.entity _, _) => do return c :: (← entityText fuel rest)
      | .error (.invalid behind) => .error ⟨.invalidToken, behind⟩
      | .error .unfinished => .error ⟨.invalidToken, c :: rest⟩
    | '%', _ => .error ⟨.parameterReference, c :: rest⟩
    | '\r', '\n' :: behind => do return '\n' :: (← entityText fuel behind)
    | '\r', _ => do return '\n' :: (← entityText fuel rest)
    | _, _ => do return c :: (← entityText fuel rest)

/-- Passes over tokens up to the end of a declaration. -/
def skipDeclaration : (fuel : Nat) → List Char → Except Trouble (List Char)
  | 0, cs => .error ⟨.noElement, cs⟩
  | fuel + 1, cs => do
    match ← nextOuter 2 cs with
    | (.closeDeclaration, _, rest) => return rest
    | (_, _, rest) => skipDeclaration fuel rest

/-- Reads where an entity is to be found, and whether it has a notation. -/
def readOutside : (fuel : Nat) → List Char → Except Trouble (Entity × List Char)
  | 0, cs => .error ⟨.noElement, cs⟩
  | fuel + 1, cs => do
    match ← nextOuter 2 cs with
    | (.literal _, _, rest) => readOutside fuel rest
    | (.name "NDATA", _, rest) => return (.binary, ← skipDeclaration (fuel + 1) rest)
    | (.closeDeclaration, _, rest) => return (.outside, rest)
    | (_, place, _) => throw ⟨.syntaxError, place⟩

/-- Reads what an entity is: a text, or where it is to be found, and for binary ones their notation. -/
def readEntity (fuel : Nat) (cs : List Char) : Except Trouble (Entity × List Char) := do
  match ← nextOuter 2 cs with
  | (.literal text, place, rest) =>
    match entityText (text.length + 1) text with
    | .error t => throw ⟨t.problem, place.drop (1 + text.length - t.place.length)⟩
    | .ok text =>
      match ← nextOuter 2 rest with
      | (.closeDeclaration, _, rest) => return (.inside text, rest)
      | (_, place, _) => throw ⟨.syntaxError, place⟩
  | (.name "SYSTEM", _, rest) | (.name "PUBLIC", _, rest) =>
    readOutside fuel rest
  | (_, place, _) => throw ⟨.syntaxError, place⟩

/-- Reads the declarations in the brackets of a document type. Every declaration takes a character, so
the characters bound the declarations. -/
def readDeclarations : (fuel : Nat) → Entities → List Char → Except Trouble (Entities × List Char)
  | 0, _, cs => .error ⟨.noElement, cs⟩
  | fuel + 1, es, cs => do
    match ← nextOuter 2 cs with
    | (.closeBracket, _, rest) => return (es, rest)
    | (.comment, _, rest) | (.instruction false, _, rest) => readDeclarations fuel es rest
    | (.instruction true, place, _) => throw ⟨.misplacedDeclaration, place⟩
    | (.parameterReference, _, rest) => readDeclarations fuel { es with mayMiss := true } rest
    | (.openDeclaration "ENTITY", _, rest) =>
      match ← nextOuter 2 rest with
      | (.name name, _, rest) =>
        let (e, rest) ← readEntity fuel rest
        readDeclarations fuel { es with declared := es.declared ++ [(name, e)] } rest
      | (.percent, _, rest) => readDeclarations fuel es (← skipDeclaration fuel rest)
      | (_, place, _) => throw ⟨.syntaxError, place⟩
    | (.openDeclaration name, place, rest) =>
      if ["ATTLIST", "ELEMENT", "NOTATION"].contains name then
        readDeclarations fuel es (← skipDeclaration fuel rest)
      else throw ⟨.syntaxError, place⟩
    | (_, place, _) => throw ⟨.syntaxError, place⟩

/-- Reads a document type behind its first word. -/
def readDocumentType (fuel : Nat) (cs : List Char) : Except Trouble (Entities × List Char) := do
  match ← nextOuter 2 cs with
  | (.name _, _, rest) => body fuel .none rest
  | (_, place, _) => throw ⟨.syntaxError, place⟩
where
  /-- An outer part of the document type is announced by a word and literals, and is not read. -/
  body : (fuel : Nat) → Entities → List Char → Except Trouble (Entities × List Char)
    | 0, _, cs => .error ⟨.noElement, cs⟩
    | fuel + 1, es, cs => do
      match ← nextOuter 2 cs with
      | (.closeDeclaration, _, rest) => return (es, rest)
      | (.name "SYSTEM", _, rest) | (.name "PUBLIC", _, rest) => body fuel { es with mayMiss := true } rest
      | (.literal _, place, rest) => if es.mayMiss then body fuel es rest else throw ⟨.syntaxError, place⟩
      | (.openBracket, _, rest) =>
        let (es, rest) ← readDeclarations fuel es rest
        match ← nextOuter 2 rest with
        | (.closeDeclaration, _, rest) => return (es, rest)
        | (_, place, _) => throw ⟨.syntaxError, place⟩
      | (_, place, _) => throw ⟨.syntaxError, place⟩

/-- Reads what stands before the root element. -/
def readProlog : (fuel : Nat) → (seen : Option Entities) → List Char → Except Trouble (Entities × List Char)
  | 0, _, cs => .error ⟨.noElement, cs⟩
  | fuel + 1, seen, cs => do
    match ← nextOuter 2 cs with
    | (.element, place, _) => return (seen.getD .none, place)
    | (.comment, _, rest) | (.instruction false, _, rest) => readProlog fuel seen rest
    | (.instruction true, place, _) => throw ⟨.misplacedDeclaration, place⟩
    | (.openDeclaration "DOCTYPE", place, rest) =>
      if seen.isSome then throw ⟨.syntaxError, place⟩
      let (es, rest) ← readDocumentType fuel rest
      readProlog fuel (some es) rest
    | (_, place, _) => throw ⟨.syntaxError, place⟩

/-- Reads what stands behind the root element, where nothing may stand but comments and
instructions. -/
def readEpilog : (fuel : Nat) → List Char → Except Trouble Unit
  | 0, _ => .ok ()
  | fuel + 1, cs =>
    if cs.isEmpty then .ok ()
    else match scanOuter cs with
      | .error stop => .error (stop.trouble cs)
      | .ok (.space, rest) | .ok (.comment, rest) | .ok (.instruction false, rest) =>
        readEpilog fuel rest
      | .ok _ => .error ⟨.junkAfterDocument, cs⟩

end Intake.Markup
