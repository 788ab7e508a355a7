import Intake.Text.Blank
import Intake.Text.Digits
import Intake.Text.Letters
import Intake.Text.Lowercase

/-!
Search patterns: the expressions that rules and time layouts are written in, the character classes in
them, and the modes that a part of an expression may switch.
-/

namespace Intake.Pattern

/-- The character classes that have a letter of their own. -/
inductive Category where
  | digit
  | space
  | word
deriving DecidableEq, Repr

/-- A member of a bracketed character class. Characters are given by their codes. -/
inductive SetItem where
  | one (code : Nat)
  | range (first last : Nat)
  | category (kind : Category) (negated : Bool)
deriving DecidableEq, Repr

/-- Places between characters. -/
inductive Anchor where
  | start
  | finish
  | textStart
  | textEnd
  | wordEdge
  | noWordEdge
deriving DecidableEq, Repr

/-- Whether a repetition takes as much as it can, as little, or as much without giving any back. -/
inductive Greed where
  | most
  | least
  | keepsAll
deriving DecidableEq, Repr

/-- The modes in force at a place of an expression. -/
structure Modes where
  caseBlind : Bool
  multiline : Bool
  dotAll : Bool
  verbose : Bool
  ascii : Bool
  unicode : Bool
deriving DecidableEq, Repr

/-- No mode at all. -/
def Modes.none : Modes := ⟨false, false, false, false, false, false⟩

/-- The modes that a group switches on and off. -/
structure ModeChange where
  added : Modes
  removed : Modes
deriving DecidableEq, Repr

/-- The modes inside a group. A group that chooses an alphabet forgets the choice around it. -/
def Modes.change (m : Modes) (c : ModeChange) : Modes :=
  let chooses := c.added.ascii || c.added.unicode
  { caseBlind := (m.caseBlind || c.added.caseBlind) && !c.removed.caseBlind
    multiline := (m.multiline || c.added.multiline) && !c.removed.multiline
    dotAll := (m.dotAll || c.added.dotAll) && !c.removed.dotAll
    verbose := (m.verbose || c.added.verbose) && !c.removed.verbose
    ascii := if chooses then c.added.ascii else m.ascii
    unicode := if chooses then c.added.unicode else m.unicode }

/-- Both modes' switches. -/
def Modes.union (a b : Modes) : Modes :=
  ⟨a.caseBlind || b.caseBlind, a.multiline || b.multiline, a.dotAll || b.dotAll,
    a.verbose || b.verbose, a.ascii || b.ascii, a.unicode || b.unicode⟩

/-- Whether some switch is on in both. -/
def Modes.overlaps (a b : Modes) : Bool :=
  a.caseBlind && b.caseBlind || a.multiline && b.multiline || a.dotAll && b.dotAll
    || a.verbose && b.verbose || a.ascii && b.ascii || a.unicode && b.unicode

/-- Expressions. Groups are numbered from 1 by their opening bracket. -/
inductive Expr where
  | empty
  | literal (code : Nat)
  | any
  | set (negated : Bool) (items : List SetItem)
  | anchor (place : Anchor)
  | seq (first second : Expr)
  | either (first second : Expr)
  | group (index : Nat) (body : Expr)
  | scoped (change : ModeChange) (body : Expr)
  | repeated (least : Nat) (most : Option Nat) (greed : Greed) (body : Expr)
  | same (index : Nat)
  | ahead (negated : Bool) (body : Expr)
  | behind (negated : Bool) (width : Nat) (body : Expr)
  | atomic (body : Expr)
  | whether (index : Nat) (yes no : Expr)
deriving DecidableEq, Repr, Inhabited

/-- An expression with the names of its groups and the modes in force on all of it. -/
structure Compiled where
  expr : Expr
  modes : Modes
  names : List (String × Nat)
deriving DecidableEq, Repr

/-- The characters of an expression in a row. -/
def Expr.ofItems (items : List Expr) : Expr :=
  items.foldr (fun first second => .seq first second) .empty

/-- White space among the first 128 characters. -/
def isAsciiSpace (c : Char) : Bool :=
  c.toNat == 32 || (9 ≤ c.toNat && c.toNat ≤ 13)

/-- A character that words are made of. -/
def isWord (ascii : Bool) (c : Char) : Bool :=
  if ascii then c.isAlphanum || c == '_' else Text.isWordChar c

/-- Whether a character is in a class. -/
def Category.holds (kind : Category) (ascii : Bool) (c : Char) : Bool :=
  match kind with
  | .digit => if ascii then c.isDigit else Text.isDecimalDigit c
  | .space => if ascii then isAsciiSpace c else Text.isBlank c
  | .word => isWord ascii c

/-- The codes that count as a character: itself, or what a case-blind comparison takes for it. -/
def codesOf (modes : Modes) (c : Char) : List Nat :=
  if !modes.caseBlind then [c.toNat]
  else if modes.ascii then [c.toNat, c.toLower.toNat, c.toUpper.toNat]
  else c.toNat :: (Text.caseVariants c).map Char.toNat

/-- Whether a class member holds for a character. -/
def SetItem.holds (item : SetItem) (modes : Modes) (c : Char) : Bool :=
  match item with
  | .one code => (codesOf modes c).contains code
  | .range first last => (codesOf modes c).any fun n => first ≤ n && n ≤ last
  | .category kind negated => kind.holds modes.ascii c != negated

end Intake.Pattern
