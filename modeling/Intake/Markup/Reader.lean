import Intake.Markup.Declaration
import Intake.Markup.Element
import Intake.Markup.Encoding
import Intake.Markup.Prolog
import Intake.Markup.Scope

/-!
Reading documents into elements. Comments and instructions leave no trace, so the texts around them
run together; line ends are read as line feeds.
-/

namespace Intake.Markup

/-- An element whose end was not read yet: its name as it is written and in full, what it holds so
far, the elements inside backwards, and what prefixes stand for in it. -/
structure OpenElement where
  written : String
  name : String
  attributes : List (String × String)
  text : String
  children : List Element
  scope : Scope

/-- Puts text behind what an open element holds. -/
def OpenElement.addText (o : OpenElement) (s : String) : OpenElement :=
  match o.children with
  | [] => { o with text := o.text ++ s }
  | .mk name attributes text children tail :: others =>
    { o with children := .mk name attributes text children (tail ++ s) :: others }

/-- Puts an element behind what an open element holds. -/
def OpenElement.addChild (o : OpenElement) (e : Element) : OpenElement :=
  { o with children := e :: o.children }

/-- An open element, closed. -/
def OpenElement.close (o : OpenElement) : Element :=
  .mk o.name o.attributes o.text o.children.reverse ""

/-- The attributes of a start tag: declarations of prefixes are taken into the scope, the others are
kept as they are written. -/
def readAttributes (es : Entities) (start : List Char) :
    (seen : List String) → Scope → List RawAttribute → Except Trouble (Scope × List (String × String))
  | _, scope, [] => .ok (scope, [])
  | seen, scope, a :: rest => do
    if seen.contains a.name then throw ⟨.duplicateAttribute, a.place⟩
    let value ← a.read es start
    match declaredPrefix? a.name with
    | some label =>
      match scope.declare label value with
      | .error problem => throw ⟨problem, start⟩
      | .ok scope => readAttributes es start (a.name :: seen) scope rest
    | none =>
      let (scope, others) ← readAttributes es start (a.name :: seen) scope rest
      return (scope, (a.name, value) :: others)

/-- Gives attributes their full names, all different. -/
def nameAttributes (scope : Scope) : (seen : List String) → List (String × String) →
    Except Problem (List (String × String))
  | _, [] => .ok []
  | seen, (written, value) :: rest => do
    let name ← scope.attributeName written
    if seen.contains name then throw .duplicateAttribute
    return (name, value) :: (← nameAttributes scope (name :: seen) rest)

/-- Reads a start tag in a scope. -/
def openElement (es : Entities) (scope : Scope) (start : List Char) (written : String)
    (attributes : List RawAttribute) : Except Trouble OpenElement := do
  let (scope, attributes) ← readAttributes es start [] scope attributes
  let named : Except Problem OpenElement := do
    let attributes ← nameAttributes scope [] attributes
    return ⟨written, ← scope.elementName written, attributes, "", [], scope⟩
  named.mapError fun problem => ⟨problem, start⟩

/-- Text with line ends as line feeds. -/
def normalLines : List Char → List Char
  | [] => []
  | '\r' :: '\n' :: rest => '\n' :: normalLines rest
  | '\r' :: rest => '\n' :: normalLines rest
  | c :: rest => c :: normalLines rest

/-- Reads a literal section up to its end. -/
def scanLiteralSection : List Char → Except Trouble (List Char × List Char)
  | [] => .error ⟨.unclosedLiteral, []⟩
  | ']' :: ']' :: '>' :: rest => .ok ([], rest)
  | [']', ']'] => .error ⟨.unclosedLiteral, [']', ']']⟩
  | [']'] => .error ⟨.unclosedLiteral, [']']⟩
  | c :: rest =>
    if isForbidden c then .error ⟨.invalidToken, c :: rest⟩
    else do
      let (cs, rest) ← scanLiteralSection rest
      return (c :: cs, rest)

/-- What reading has come to: the open elements, the innermost first; and when the root is closed, it
and what stands behind it. -/
structure Progress where
  stack : List OpenElement
  result : Option (Element × List Char)

/-- Changes the innermost open element. -/
def onTop (change : OpenElement → OpenElement) : List OpenElement → List OpenElement
  | [] => []
  | o :: rest => change o :: rest

/-- Closes the innermost open element. What stands behind it counts if it was the root. -/
def closeTop (behind : List Char) : List OpenElement → Progress
  | [] => ⟨[], none⟩
  | [o] => ⟨[], some (o.close, behind)⟩
  | o :: outer :: rest => ⟨outer.addChild o.close :: rest, none⟩

/-- Reads content until the root is closed or, inside an entity, until its text ends; entities inside
are read by `expand`. An entity must close what it opens, and nothing else, so the innermost element
around it is told by their number `level`. Every step takes a character, so the characters bound the
steps. -/
def readContent (es : Entities)
    (expand : String → List Char → List OpenElement → Except Problem (List OpenElement))
    (level : Nat) : (fuel : Nat) → List OpenElement → List Char → Except Trouble Progress
  | 0, _, cs => .error ⟨.noElement, cs⟩
  | fuel + 1, stack, cs => do
    if cs.isEmpty then
      if level == 0 then throw ⟨.noElement, []⟩
      if stack.length != level then throw ⟨.unbalancedEntity, []⟩
      return ⟨stack, none⟩
    match scanContent cs with
    | .error stop => throw (stop.trouble cs)
    | .ok (token, rest) =>
      match token with
      | .comment | .instruction false => readContent es expand level fuel stack rest
      | .instruction true => throw ⟨.misplacedDeclaration, cs⟩
      | .text text =>
        if level == 0 && rest.isEmpty && text.getLast? == some '\r' then throw ⟨.noElement, ['\r']⟩
        let text := String.ofList (normalLines text)
        readContent es expand level fuel (onTop (·.addText text) stack) rest
      | .openLiteral =>
        let (text, rest) ← scanLiteralSection rest
        let text := String.ofList (normalLines text)
        readContent es expand level fuel (onTop (·.addText text) stack) rest
      | .reference r =>
        match es.resolve r with
        | .error problem => throw ⟨problem, cs⟩
        | .ok (.character c) =>
          readContent es expand level fuel (onTop (·.addText (String.singleton c)) stack) rest
        | .ok (.unknown name) => throw ⟨.unknownEntity name, cs⟩
        | .ok (.entity _ .binary) => throw ⟨.binaryEntity, cs⟩
        | .ok (.entity name .outside) => throw ⟨.unknownEntity name, cs⟩
        | .ok (.entity name (.inside text)) =>
          match expand name text stack with
          | .error problem => throw ⟨problem, cs⟩
          | .ok stack => readContent es expand level fuel stack rest
      | .start written attributes isEmpty =>
        let scope := match stack with
          | o :: _ => o.scope
          | [] => Scope.initial
        let element ← openElement es scope cs written attributes
        if isEmpty then
          let progress := closeTop rest (element :: stack)
          if progress.result.isSome then return progress
          readContent es expand level fuel progress.stack rest
        else readContent es expand level fuel (element :: stack) rest
      | .finish written place =>
        if stack.length == level then throw ⟨.unbalancedEntity, cs⟩
        if (stack.head?).any fun o => o.written != written then throw ⟨.mismatchedTag, place⟩
        let progress := closeTop rest stack
        if progress.result.isSome then return progress
        readContent es expand level fuel progress.stack rest

/-- Reads the text of an entity inside content; `left` bounds how deep entities may stand in one
another, and `around` holds those that are being read. -/
def expandInContent (es : Entities) : (left : Nat) → (around : List String) → String → List Char →
    List OpenElement → Except Problem (List OpenElement)
  | 0, _, _, _, _ => .error .recursiveEntity
  | left + 1, around, name, text, stack =>
    if around.contains name then .error .recursiveEntity
    else
      ((readContent es (expandInContent es left (name :: around)) stack.length (text.length + 1) stack
        text).mapError (·.problem)).map (·.stack)

/-- Reads the root element and what is around it. -/
def readRoot (cs : List Char) : Except Trouble Element := do
  let fuel := cs.length + 1
  let (es, rest) ← readProlog fuel none cs
  let progress ← readContent es (expandInContent es (es.declared.length + 1) []) 0 (rest.length + 1) [] rest
  match progress.result with
  | none => throw ⟨.noElement, []⟩
  | some (root, rest) =>
    readEpilog (rest.length + 1) rest
    return root

/-- What stands between the first word and the closing signs of a declaration. -/
def declarationBody : List Char → List Char × List Char
  | '?' :: '>' :: rest => ([], rest)
  | c :: rest =>
    let (body, behind) := declarationBody rest
    (c :: body, behind)
  | [] => ([], [])

/-- What stands behind the declaration, if the document begins with one, and the encoding that it
names. -/
def splitDeclaration (cs : List Char) : Except Trouble (Option DeclaredEncoding × List Char) :=
  match cs with
  | '<' :: '?' :: rest =>
    match scanInstruction rest with
    | .error stop => .error (stop.trouble cs)
    | .ok (.instruction true, _) =>
      let (body, behind) := declarationBody (rest.drop 3)
      let placed (place : List Char) : List Char := place ++ '?' :: '>' :: behind
      match readDeclaration body with
      | .error place => .error ⟨.malformedDeclaration, placed place⟩
      | .ok encoding => .ok (encoding.map fun e => { e with place := placed e.place }, behind)
    | .ok _ => .ok (none, cs)
  | _ => .ok (none, cs)

/-- The mark that some documents begin with. -/
def byteOrderMark : Char := Char.ofNat 0xFEFF

/-- Reads a document that is text already; an encoding that it names does not matter. -/
def ofChars (document : List Char) : Except Flaw Element :=
  let read : Except Trouble Element := do
    let start := match document with
      | c :: rest => if c == byteOrderMark then rest else document
      | [] => []
    let (_, rest) ← splitDeclaration start
    readRoot rest
  read.mapError (Trouble.locate document)

/-- Reads a document that is text already. -/
def ofText (s : String) : Except Flaw Element := ofChars s.toList

/-- Reads a document. Its encoding is told by the first bytes, or by its declaration. -/
def ofBytes (bytes : List UInt8) : Except Flaw Element :=
  let found := Encoding.detect bytes
  let first := found.decode bytes
  let declared : Except Trouble (Option DeclaredEncoding) := do
    let start := match first with
      | c :: rest => if c == byteOrderMark then rest else first
      | [] => []
    return (← splitDeclaration start).1
  match declared with
  | .error t => .error (t.locate first)
  | .ok none => ofChars first
  | .ok (some encoding) =>
    match found.agree encoding.name with
    | none => .error (Trouble.locate first ⟨.unknownEncoding encoding.name, encoding.place⟩)
    | some (some named) => ofChars (named.decode bytes)
    | some none => .error (Trouble.locate first ⟨.wrongEncoding, encoding.place⟩)

end Intake.Markup
