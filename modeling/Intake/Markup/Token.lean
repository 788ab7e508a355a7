import Intake.Markup.Name
import Intake.Text.Digits
import Intake.Text.Pieces
import Intake.Text.Quoted

/-!
The tokens of markup. A place in a document is given by what stands from there on, so every token keeps
the rest of the document where a later fault may have to point at it.
-/

namespace Intake.Markup

/-- Why a token cannot be read: a character does not fit, and the document from there on; or the
document ends inside the token. -/
inductive Stop where
  | invalid (rest : List Char)
  | unfinished
deriving Repr, Inhabited

/-- A reference inside text: to an entity by its name, or to a character by its number. -/
inductive Reference where
  | entity (name : String)
  | character (code : Nat)
deriving DecidableEq, Repr, Inhabited

/-- An attribute as it is written: its name, the place of the name, and its value. A value is kept with
the rest of the document behind it, so that it can be read again from its place. -/
structure RawAttribute where
  name : String
  place : List Char
  quote : Char
  value : List Char
deriving Repr, Inhabited

/-- A token. -/
inductive Token where
  | start (name : String) (attributes : List RawAttribute) (isEmpty : Bool)
  | finish (name : String) (place : List Char)
  | reference (r : Reference)
  | text (cs : List Char)
  | openLiteral
  | comment
  | instruction (isDeclaration : Bool)
deriving Repr, Inhabited

/-- Goes past one given character. -/
def expect (wanted : Char) : List Char → Except Stop (List Char)
  | [] => .error .unfinished
  | c :: rest => if c == wanted then .ok rest else .error (.invalid (c :: rest))

/-- Reads a name that has no prefix. -/
def scanName : List Char → Except Stop (List Char × List Char)
  | [] => .error .unfinished
  | c :: rest =>
    if isNameStart c then
      let (name, rest) := spanName rest
      .ok (c :: name, rest)
    else .error (.invalid (c :: rest))

/-- Reads a name with at most one prefix. -/
def scanPrefixedName (cs : List Char) : Except Stop (List Char × List Char) := do
  let (name, rest) ← scanName cs
  match rest with
  | ':' :: rest =>
    let (base, rest) ← scanName rest
    return (name ++ ':' :: base, rest)
  | _ => return (name, rest)

/-- Reads a reference behind its sign. -/
def scanReference : List Char → Except Stop (Reference × List Char)
  | '#' :: 'x' :: rest =>
    let digits := rest.takeWhile fun c => c.isDigit || ('a' ≤ c && c ≤ 'f') || ('A' ≤ c && c ≤ 'F')
    finishCode 16 digits (rest.drop digits.length)
  | '#' :: rest =>
    let digits := rest.takeWhile Char.isDigit
    finishCode 10 digits (rest.drop digits.length)
  | cs => do
    let (name, rest) ← scanName cs
    return (.entity (String.ofList name), ← expect ';' rest)
where
  /-- A number is capped where it is beyond all characters. -/
  finishCode (base : Nat) (digits rest : List Char) : Except Stop (Reference × List Char) :=
    match digits, rest with
    | _, [] => .error .unfinished
    | [], rest => .error (.invalid rest)
    | digits, rest => do
      let code := digits.foldl (fun n d => min 0x110000 (n * base + (Text.hexValue? d).getD 0)) 0
      return (.character code, ← expect ';' rest)

/-- Goes past the value of an attribute. Every step takes a character, so the characters bound the
steps. -/
def skipValue (quote : Char) : (fuel : Nat) → List Char → Except Stop (List Char)
  | 0, _ | _, [] => .error .unfinished
  | fuel + 1, c :: rest =>
    if c == quote then .ok rest
    else if c == '<' || isForbidden c then .error (.invalid (c :: rest))
    else if c == '&' then do
      let (_, rest) ← scanReference rest
      skipValue quote fuel rest
    else skipValue quote fuel rest

/-- Reads one attribute. -/
def scanAttribute (cs : List Char) : Except Stop (RawAttribute × List Char) := do
  let (name, rest) ← scanPrefixedName cs
  let rest ← expect '=' (skipSpaces rest)
  match skipSpaces rest with
  | [] => throw .unfinished
  | quote :: value =>
    if quote == Text.doubleQuote || quote == Text.singleQuote then
      let rest ← skipValue quote (value.length + 1) value
      return (⟨String.ofList name, cs, quote, value⟩, rest)
    else throw (.invalid (quote :: value))

/-- Reads the end of a start tag: whether the element is empty. -/
def scanTagEnd : List Char → Except Stop (Bool × List Char)
  | [] => .error .unfinished
  | '>' :: rest => .ok (false, rest)
  | '/' :: rest => do return (true, ← expect '>' rest)
  | cs => .error (.invalid cs)

/-- Reads attributes, each behind a space, and the end of the start tag. -/
def scanAttributes : (fuel : Nat) → List Char → Except Stop ((List RawAttribute × Bool) × List Char)
  | 0, _ => .error .unfinished
  | fuel + 1, cs =>
    match cs, skipSpaces cs with
    | c :: _, d :: rest =>
      if isSpace c && d != '>' && d != '/' then do
        let (first, rest) ← scanAttribute (d :: rest)
        let ((others, isEmpty), rest) ← scanAttributes fuel rest
        return ((first :: others, isEmpty), rest)
      else do
        let (isEmpty, rest) ← scanTagEnd (d :: rest)
        return (([], isEmpty), rest)
    | _, _ => .error .unfinished

/-- Reads a start tag behind its sign. -/
def scanStart (cs : List Char) : Except Stop (Token × List Char) := do
  let (name, rest) ← scanPrefixedName cs
  let ((attributes, isEmpty), rest) ← scanAttributes (rest.length + 1) rest
  return (.start (String.ofList name) attributes isEmpty, rest)

/-- Reads an end tag behind its signs. -/
def scanFinish (cs : List Char) : Except Stop (Token × List Char) := do
  let (first, rest) ← scanName cs
  let isPart (c : Char) : Bool := isNameChar c || c == ':'
  let name := first ++ rest.takeWhile isPart
  let rest ← expect '>' (skipSpaces (rest.dropWhile isPart))
  return (.finish (String.ofList name) cs, rest)

/-- Goes past a comment behind its first hyphen. -/
def scanComment (cs : List Char) : Except Stop (Token × List Char) := do
  let rest ← expect '-' cs
  return (.comment, ← body rest)
where
  /-- Two hyphens end a comment and stand nowhere else in it. -/
  body : List Char → Except Stop (List Char)
    | [] => .error .unfinished
    | '-' :: '-' :: rest => expect '>' rest
    | c :: rest => if isForbidden c then .error (.invalid (c :: rest)) else body rest

/-- Goes past the body of an instruction. -/
def skipInstruction : List Char → Except Stop (List Char)
  | [] => .error .unfinished
  | '?' :: '>' :: rest => .ok rest
  | c :: rest => if isForbidden c then .error (.invalid (c :: rest)) else skipInstruction rest

/-- Reads an instruction behind its signs. The word for declarations is reserved in every case, and
stands for a declaration in lower case. -/
def scanInstruction (cs : List Char) : Except Stop (Token × List Char) := do
  let (target, rest) ← scanName cs
  let isReserved := target.map Char.toLower == "xml".toList
  let isDeclaration := target == "xml".toList
  match rest with
  | [] => throw .unfinished
  | c :: behind =>
    if isReserved && !isDeclaration && (isSpace c || c == '?') then throw (.invalid rest)
    else if c == '?' then return (.instruction isDeclaration, ← expect '>' behind)
    else if isSpace c then return (.instruction isDeclaration, ← skipInstruction behind)
    else throw (.invalid rest)

/-- Goes past the rest of a given word. -/
def expectWord : List Char → List Char → Except Stop (List Char)
  | [], rest => .ok rest
  | w :: word, cs => do expectWord word (← expect w cs)

/-- Reads what begins with a tag's sign. -/
def scanMarkup : List Char → Except Stop (Token × List Char)
  | [] => .error .unfinished
  | '!' :: '-' :: rest => scanComment rest
  | '!' :: '[' :: rest =>
    let word := "CDATA[".toList
    if (rest.take word.length).length < word.length then .error .unfinished
    else do return (.openLiteral, ← expectWord word rest)
  | '!' :: [] => .error .unfinished
  | '!' :: rest => .error (.invalid rest)
  | '?' :: rest => scanInstruction rest
  | '/' :: rest => scanFinish rest
  | cs => scanStart cs

/-- Reads text up to the next sign. The end of a literal section may not stand in it. -/
def scanText : List Char → Except Stop (List Char × List Char)
  | [] => .ok ([], [])
  | ']' :: ']' :: '>' :: rest => .error (.invalid ('>' :: rest))
  | c :: rest =>
    if c == '<' || c == '&' then .ok ([], c :: rest)
    else if isForbidden c then .error (.invalid (c :: rest))
    else do
      let (cs, rest) ← scanText rest
      return (c :: cs, rest)

/-- Reads the next token of the content of an element. -/
def scanContent : List Char → Except Stop (Token × List Char)
  | '<' :: rest => scanMarkup rest
  | '&' :: rest => do
    let (r, rest) ← scanReference rest
    return (.reference r, rest)
  | cs => do
    let (text, rest) ← scanText cs
    return (.text text, rest)

end Intake.Markup
