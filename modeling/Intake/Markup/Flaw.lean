import Intake.Markup.Token

/-!
Why a document cannot be read, and where. Lines count from one and columns from zero; a line ends with
a line feed, a carriage return, or both in this order.
-/

namespace Intake.Markup

/-- What is wrong with a document. -/
inductive Problem where
  | noElement
  | syntaxError
  | invalidToken
  | unclosedToken
  | partialCharacter
  | mismatchedTag
  | duplicateAttribute
  | junkAfterDocument
  | parameterReference
  | undefinedEntity
  | unknownEntity (name : String)
  | recursiveEntity
  | unbalancedEntity
  | badCharacter
  | binaryEntity
  | externalEntity
  | misplacedDeclaration
  | malformedDeclaration
  | unknownEncoding (name : String)
  | wrongEncoding
  | unclosedLiteral
  | badPublicName
  | unboundPrefix
  | undeclaredPrefix
  | reservedPrefix
  | reservedDeclaration
  | reservedNamespace
deriving DecidableEq, Repr, Inhabited

/-- The words for a problem. -/
def Problem.message : Problem → String
  | .noElement => "no element found"
  | .syntaxError => "syntax error"
  | .invalidToken => "not well-formed (invalid token)"
  | .unclosedToken => "unclosed token"
  | .partialCharacter => "partial character"
  | .mismatchedTag => "mismatched tag"
  | .duplicateAttribute => "duplicate attribute"
  | .junkAfterDocument => "junk after document element"
  | .parameterReference => "illegal parameter entity reference"
  | .undefinedEntity => "undefined entity"
  | .unknownEntity name => "undefined entity &" ++ name ++ ";"
  | .recursiveEntity => "recursive entity reference"
  | .unbalancedEntity => "asynchronous entity"
  | .badCharacter => "reference to invalid character number"
  | .binaryEntity => "reference to binary entity"
  | .externalEntity => "reference to external entity in attribute"
  | .misplacedDeclaration => "XML or text declaration not at start of entity"
  | .malformedDeclaration => "XML declaration not well-formed"
  | .unknownEncoding name => "unknown encoding: " ++ name
  | .wrongEncoding => "encoding specified in XML declaration is incorrect"
  | .unclosedLiteral => "unclosed CDATA section"
  | .badPublicName => "illegal character(s) in public id"
  | .unboundPrefix => "unbound prefix"
  | .undeclaredPrefix => "must not undeclare prefix"
  | .reservedPrefix =>
    "reserved prefix (xml) must not be undeclared or bound to another namespace name"
  | .reservedDeclaration => "reserved prefix (xmlns) must not be declared or undeclared"
  | .reservedNamespace => "prefix must not be bound to one of the reserved namespace names"

/-- A problem, and the document from the place of the problem on. -/
structure Trouble where
  problem : Problem
  place : List Char
deriving Repr, Inhabited

/-- Why a token that begins at a place cannot be read. -/
def Stop.trouble (start : List Char) : Stop → Trouble
  | .invalid rest => ⟨.invalidToken, rest⟩
  | .unfinished => ⟨.unclosedToken, start⟩

/-- A problem, and its line and column. -/
structure Flaw where
  problem : Problem
  line : Nat
  column : Nat
deriving DecidableEq, Repr, Inhabited

/-- The line and column after some characters. -/
def position (line column : Nat) : List Char → Nat × Nat
  | [] => (line, column)
  | '\r' :: '\n' :: rest => position (line + 1) 0 rest
  | '\r' :: rest => position (line + 1) 0 rest
  | '\n' :: rest => position (line + 1) 0 rest
  | _ :: rest => position line (column + 1) rest

/-- The line and column of trouble in a document. -/
def Trouble.locate (document : List Char) (t : Trouble) : Flaw :=
  let (line, column) := position 1 0 (document.take (document.length - t.place.length))
  ⟨t.problem, line, column⟩

/-- Whether the document cannot be read at all because its encoding is unknown. -/
def Flaw.isUnknownEncoding (f : Flaw) : Bool :=
  match f.problem with
  | .unknownEncoding _ => true
  | _ => false

/-- The words for a flaw. Where an encoding is unknown does not matter. -/
def Flaw.message (f : Flaw) : String :=
  if f.isUnknownEncoding then f.problem.message
  else f.problem.message ++ ": line " ++ toString f.line ++ ", column " ++ toString f.column

end Intake.Markup
