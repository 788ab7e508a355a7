import Intake.Pattern.Syntax

/-!
Matching by backtracking. A matcher is given what must match afterwards; it tries its choices in
order and the first that lets the rest match wins. A repetition whose last round took nothing makes
no further round, so the number of rounds is bounded by the length of the text.
-/

namespace Intake.Pattern

/-- A place in the text with the characters on both sides, those before it in reverse, and what the
groups have taken so far. -/
structure Cursor where
  before : List Char
  after : List Char
  position : Nat
  taken : List (Nat × List Char)
deriving Repr

namespace Cursor

/-- The place before the first character. -/
def atStart (cs : List Char) : Cursor := ⟨[], cs, 0, []⟩

/-- What a group has taken last. -/
def group? (s : Cursor) (index : Nat) : Option (List Char) :=
  (s.taken.find? fun t => t.1 == index).map (·.2)

/-- The place one character on. -/
def next? (s : Cursor) : Option (Char × Cursor) :=
  match s.after with
  | [] => none
  | c :: rest => some (c, { s with before := c :: s.before, after := rest, position := s.position + 1 })

/-- The place so many characters back. -/
def back? : (width : Nat) → Cursor → Option Cursor
  | 0, s => some s
  | width + 1, s =>
    match s.before with
    | [] => none
    | c :: rest => back? width { s with before := rest, after := c :: s.after, position := s.position - 1 }

/-- The place after the given characters, if they come next. -/
def skip? (modes : Modes) : List Char → Cursor → Option Cursor
  | [], s => some s
  | c :: rest, s => do
    let (d, s) ← s.next?
    if (codesOf modes d).contains c.toNat then skip? modes rest s else none

/-- Whether words begin or end here. -/
def isWordEdge (s : Cursor) (ascii : Bool) : Bool :=
  (s.before.head?.any (isWord ascii)) != (s.after.head?.any (isWord ascii))

/-- Whether the text has no characters at all. -/
def isBare (s : Cursor) : Bool := s.before.isEmpty && s.after.isEmpty

end Cursor

/-- Whether a place satisfies an anchor. -/
def Anchor.holds (place : Anchor) (modes : Modes) (s : Cursor) : Bool :=
  match place with
  | .textStart => s.before.isEmpty
  | .textEnd => s.after.isEmpty
  | .start => s.before.isEmpty || (modes.multiline && s.before.head? == some '\n')
  | .finish =>
    s.after.isEmpty || s.after == ['\n'] || (modes.multiline && s.after.head? == some '\n')
  | .wordEdge => !s.isBare && s.isWordEdge modes.ascii
  | .noWordEdge => !s.isBare && !s.isWordEdge modes.ascii

/-- What is left to match after some part, as a test of the place that the part reached. -/
abbrev Rest := Cursor → Option Cursor

/-- A matcher tries its choices against what is left to match. -/
abbrev Matcher := Cursor → Rest → Option Cursor

/-- One character that passes the test. -/
def matchOne (test : Char → Bool) : Matcher := fun s rest =>
  match s.next? with
  | some (c, s) => if test c then rest s else none
  | none => none

/-- Rounds of a body, as many as possible first. `round` counts the rounds made and `last` is where
the last optional one began. -/
def repeatMost (body : Matcher) (least : Nat) (most : Option Nat) :
    (fuel round : Nat) → (last : Option Nat) → Matcher
  | 0, _, _, s, rest => rest s
  | fuel + 1, round, last, s, rest =>
    if round < least then
      body s fun s => repeatMost body least most fuel (round + 1) none s rest
    else if most.all (round < ·) && last != some s.position then
      match body s fun t => repeatMost body least most fuel (round + 1) (some s.position) t rest with
      | some found => some found
      | none => rest s
    else rest s

/-- Rounds of a body, as few as possible first. -/
def repeatLeast (body : Matcher) (least : Nat) (most : Option Nat) :
    (fuel round : Nat) → (last : Option Nat) → Matcher
  | 0, _, _, s, rest => rest s
  | fuel + 1, round, last, s, rest =>
    if round < least then
      body s fun s => repeatLeast body least most fuel (round + 1) none s rest
    else match rest s with
      | some found => some found
      | none =>
        if most.all (round < ·) && last != some s.position then
          body s fun t => repeatLeast body least most fuel (round + 1) (some s.position) t rest
        else none

/-- As many rounds of a body as possible, each taken in its first way. -/
def repeatAll (body : Matcher) (least : Nat) (most : Option Nat) :
    (fuel round : Nat) → (last : Option Nat) → Cursor → Option Cursor
  | 0, _, _, s => some s
  | fuel + 1, round, last, s =>
    if round < least then (body s some).bind (repeatAll body least most fuel (round + 1) none)
    else if most.all (round < ·) && last != some s.position then
      match body s some with
      | some t => repeatAll body least most fuel (round + 1) (some s.position) t
      | none => some s
    else some s

/-- The matcher of an expression. -/
def Expr.run : Expr → Modes → Matcher
  | .empty, _, s, rest => rest s
  | .literal code, modes, s, rest => matchOne (fun c => (codesOf modes c).contains code) s rest
  | .any, modes, s, rest => matchOne (fun c => modes.dotAll || c != '\n') s rest
  | .set negated items, modes, s, rest =>
    matchOne (fun c => items.any (·.holds modes c) != negated) s rest
  | .anchor place, modes, s, rest => if place.holds modes s then rest s else none
  | .seq first second, modes, s, rest => first.run modes s fun s => second.run modes s rest
  | .either first second, modes, s, rest =>
    match first.run modes s rest with
    | some found => some found
    | none => second.run modes s rest
  | .group index body, modes, s, rest =>
    body.run modes s fun t =>
      rest { t with taken := (index, s.after.take (t.position - s.position)) :: t.taken }
  | .scoped change body, modes, s, rest => body.run (modes.change change) s rest
  | .repeated least most greed body, modes, s, rest =>
    let fuel := least + s.after.length + 2
    match greed with
    | .most => repeatMost (body.run modes) least most fuel 0 none s rest
    | .least => repeatLeast (body.run modes) least most fuel 0 none s rest
    | .keepsAll => (repeatAll (body.run modes) least most fuel 0 none s).bind rest
  | .same index, modes, s, rest =>
    match s.group? index with
    | some cs => (s.skip? modes cs).bind rest
    | none => none
  | .ahead negated body, modes, s, rest =>
    match body.run modes s some, negated with
    | some t, false => rest { s with taken := t.taken }
    | none, true => rest s
    | _, _ => none
  | .behind negated width body, modes, s, rest =>
    match (s.back? width).bind fun s => body.run modes s some, negated with
    | some t, false => rest { s with taken := t.taken }
    | none, true => rest s
    | _, _ => none
  | .atomic body, modes, s, rest => (body.run modes s some).bind rest
  | .whether index yes no, modes, s, rest =>
    if (s.group? index).isSome then yes.run modes s rest else no.run modes s rest

/-- The first match that begins at a place or, failing that, later; `left` characters are left. -/
def searchFrom (p : Compiled) : (left : Nat) → Cursor → Option Cursor
  | 0, s => p.expr.run p.modes s some
  | left + 1, s =>
    match p.expr.run p.modes s some with
    | some found => some found
    | none => s.next?.bind fun (_, s) => searchFrom p left s

/-- Whether a pattern matches somewhere in a text. -/
def Compiled.occursIn (p : Compiled) (s : String) : Bool :=
  (searchFrom p s.toList.length (.atStart s.toList)).isSome

/-- Whether a pattern matches a text from its start to its end. -/
def Compiled.matchesWhole (p : Compiled) (s : String) : Bool :=
  (p.expr.run p.modes (.atStart s.toList) fun t => if t.after.isEmpty then some t else none).isSome

/-- The match of a pattern at the start of a text. -/
def Compiled.matchStart? (p : Compiled) (s : String) : Option Cursor :=
  p.expr.run p.modes (.atStart s.toList) some

end Intake.Pattern
