import Intake.Number.Reading
import Intake.Pattern.Syntax
import Intake.Text.Quoted

/-!
Reading patterns from text. A backslash binds the character after it, so the text is cut into tokens
first; the reader then takes one token after another and remembers which groups are open, closed and
named.
-/

namespace Intake.Pattern

/-- A character, a character after a backslash, or a backslash with nothing after it. -/
inductive Token where
  | plain (c : Char)
  | escaped (c : Char)
  | cutOff
deriving DecidableEq, Repr

/-- The tokens of a text. -/
def tokens : List Char → List Token
  | [] => []
  | ['\\'] => [.cutOff]
  | '\\' :: c :: rest => .escaped c :: tokens rest
  | c :: rest => .plain c :: tokens rest

/-- Why a text is no pattern. -/
inductive Flaw where
  | malformed
  | groupTwice (name : String) (second first position : Nat)
  | tooManyRounds
  | mixedAlphabets
  | longNumber (length : Nat)
deriving DecidableEq, Repr

/-- The words for a flaw. -/
def Flaw.message : Flaw → String
  | .malformed => "malformed pattern"
  | .groupTwice name second first position =>
    "redefinition of group name " ++ Text.quoted name ++ " as group " ++ toString second
      ++ "; was group " ++ toString first ++ " at position " ++ toString position
  | .tooManyRounds => "the repetition number is too large"
  | .mixedAlphabets => "ASCII and UNICODE flags are incompatible"
  | .longNumber length =>
    "Exceeds the limit (4300 digits) for integer string conversion: value has " ++ toString length
      ++ " digits; use sys.set_int_max_str_digits() to increase the limit"

/-- The least and the greatest number of characters an expression takes. -/
structure Width where
  least : Nat
  greatest : Option Nat
deriving DecidableEq, Repr

def Width.exactly (n : Nat) : Width := ⟨n, some n⟩

def Width.plus (a b : Width) : Width :=
  ⟨a.least + b.least, do return (← a.greatest) + (← b.greatest)⟩

def Width.either (a b : Width) : Width :=
  ⟨min a.least b.least, do return max (← a.greatest) (← b.greatest)⟩

def Width.times (a : Width) (least : Nat) (most : Option Nat) : Width :=
  ⟨a.least * least,
    match a.greatest, most with
    | some 0, _ => some 0
    | some n, some m => some (n * m)
    | _, _ => none⟩

/-- The width of an expression, where the widths of the closed groups are known. -/
def Expr.width (closed : List (Nat × Width)) : Expr → Width
  | .literal _ | .any | .set _ _ => .exactly 1
  | .empty | .anchor _ | .ahead _ _ | .behind _ _ _ => .exactly 0
  | .seq first second => (first.width closed).plus (second.width closed)
  | .either first second => (first.width closed).either (second.width closed)
  | .group _ body | .scoped _ body | .atomic body => body.width closed
  | .repeated least most _ body => (body.width closed).times least most
  | .same index => ((closed.lookup index).getD (.exactly 0))
  | .whether _ yes no => (yes.width closed).either (no.width closed)

/-- What the reader knows at a place of the pattern. -/
structure Progress where
  rest : List Token
  position : Nat
  opened : Nat
  closed : List (Nat × Width)
  names : List (String × Nat)
  behindFrom : Option Nat
  wanted : List Nat
  modes : Modes

abbrev Reader := StateT Progress (Except Flaw)

namespace Reader

def refuse {α : Type} : Reader α := throw .malformed

/-- The token that comes next. -/
def peek : Reader (Option Token) := return (← get).rest.head?

/-- Passes over a token. -/
def advance : Reader Unit := do
  let s ← get
  match s.rest with
  | [] => return
  | t :: rest =>
    if rest.head? == some .cutOff then refuse
    let width := match t with
      | .plain _ => 1
      | _ => 2
    set { s with rest := rest, position := s.position + width }

/-- Takes a token. -/
def take : Reader (Option Token) := do
  let t ← peek
  advance
  return t

/-- Passes over a given character if it comes next. -/
def accept (c : Char) : Reader Bool := do
  if (← peek) == some (.plain c) then
    advance
    return true
  else return false

/-- Passes over a given character, which has to come next. -/
def expect (c : Char) : Reader Unit := do
  unless ← accept c do refuse

/-- Takes at most so many characters that pass a test. -/
def takeWhile (test : Char → Bool) : (limit : Nat) → Reader (List Char)
  | 0 => return []
  | limit + 1 => do
    match ← peek with
    | some (.plain c) =>
      if test c then
        advance
        return c :: (← takeWhile test limit)
      else return []
    | _ => return []

/-- The number of tokens left. -/
def left : Reader Nat := return (← get).rest.length

/-- Takes the characters before a closing character, and passes over it. -/
def takeUntil (close : Char) : (fuel : Nat) → Reader (List Char)
  | 0 => refuse
  | fuel + 1 => do
    match ← take with
    | none | some .cutOff => refuse
    | some (.plain c) => if c == close then return [] else return c :: (← takeUntil close fuel)
    | some (.escaped c) => return '\\' :: c :: (← takeUntil close fuel)

end Reader

/-- Whether a name can stand for a group: a letter or a low line, then word characters. -/
def isGroupName (name : String) : Bool :=
  match name.toList with
  | [] => false
  | c :: rest => Text.isWordChar c && !Text.isDecimalDigit c && rest.all Text.isWordChar

open Reader

/-- A name before a closing character. -/
def readName (close : Char) : Reader String := do
  let name := String.ofList (← takeUntil close (← left))
  if isGroupName name then return name else refuse

/-- The number that hexadecimal digits denote. -/
def hexNumber (cs : List Char) : Nat :=
  cs.foldl (fun n c => 16 * n + (Text.hexValue? c).getD 0) 0

/-- The number that octal digits denote. -/
def octalNumber (cs : List Char) : Nat :=
  cs.foldl (fun n c => 8 * n + (c.toNat - 48)) 0

def isOctal (c : Char) : Bool := '0' ≤ c && c ≤ '7'

/-- A character code of exactly so many hexadecimal digits. -/
def readHex (digits : Nat) : Reader Nat := do
  let cs ← takeWhile (fun c => (Text.hexValue? c).isSome) digits
  let n := hexNumber cs
  if cs.length == digits && n < 0x110000 then return n else refuse

/-- The control character that a letter stands for. -/
def control? : Char → Option Nat
  | 'a' => some 7
  | 'b' => some 8
  | 'f' => some 12
  | 'n' => some 10
  | 'r' => some 13
  | 't' => some 9
  | 'v' => some 11
  | '\\' => some 92
  | _ => none

/-- The class that a letter stands for, a capital for its complement. -/
def category? : Char → Option (Category × Bool)
  | 'd' => some (.digit, false)
  | 'D' => some (.digit, true)
  | 's' => some (.space, false)
  | 'S' => some (.space, true)
  | 'w' => some (.word, false)
  | 'W' => some (.word, true)
  | _ => none

/-- The place that a letter stands for. -/
def anchor? : Char → Option Anchor
  | 'A' => some .textStart
  | 'b' => some .wordEdge
  | 'B' => some .noWordEdge
  | 'Z' => some .textEnd
  | _ => none

/-- A backslash escape that means the same inside brackets and outside. -/
def readCommonEscape (c : Char) : Reader Nat := do
  match c with
  | 'x' => readHex 2
  | 'u' => readHex 4
  | 'U' => readHex 8
  | _ => if c.isAlphanum then refuse else return c.toNat

/-- A backslash escape inside brackets. -/
def readSetEscape (c : Char) : Reader SetItem := do
  match control? c, category? c with
  | some code, _ => return .one code
  | none, some (kind, negated) => return .category kind negated
  | none, none =>
    if isOctal c then
      let n := octalNumber (c :: (← takeWhile isOctal 2))
      if n < 256 then return .one n else refuse
    else return .one (← readCommonEscape c)

/-- Checks that a group may be referred to here: it is closed, and within a look behind it was
opened before. -/
def checkReference (index : Nat) : Reader Unit := do
  let s ← get
  if (s.closed.lookup index).isNone then refuse
  if s.behindFrom.any (· ≤ index) then refuse

/-- A reference to a group by number, or a character by three octal digits. -/
def readReference (c : Char) : Reader Expr := do
  match ← takeWhile Char.isDigit 1 with
  | [] =>
    checkReference (c.toNat - 48)
    return .same (c.toNat - 48)
  | d :: _ =>
    let third ← if isOctal c && isOctal d then takeWhile isOctal 1 else pure []
    match third with
    | [e] =>
      let n := octalNumber [c, d, e]
      if n < 256 then return .literal n else refuse
    | _ =>
      let index := 10 * (c.toNat - 48) + (d.toNat - 48)
      checkReference index
      return .same index

/-- A backslash escape outside brackets. -/
def readEscape (c : Char) : Reader Expr := do
  match anchor? c, category? c, control? c with
  | some place, _, _ => return .anchor place
  | _, some (kind, negated), _ => return .set false [.category kind negated]
  | _, _, some code => return .literal code
  | _, _, _ =>
    if c == '0' then return .literal (octalNumber (← takeWhile isOctal 2))
    else if c.isDigit then readReference c
    else return .literal (← readCommonEscape c)

/-- One member of a bracketed class, or one end of a range. -/
def readSetMember (t : Token) : Reader SetItem :=
  match t with
  | .plain c => return .one c.toNat
  | .escaped c => readSetEscape c
  | .cutOff => refuse

/-- The members of a bracketed class up to the closing bracket, which is an ordinary character in the
first place. -/
def readSet : (fuel : Nat) → List SetItem → Reader (List SetItem)
  | 0, _ => refuse
  | fuel + 1, items => do
    match ← take with
    | none => refuse
    | some t =>
      if t == .plain ']' && !items.isEmpty then return items
      let first ← readSetMember t
      if ← accept '-' then
        match ← take with
        | none => refuse
        | some t =>
          if t == .plain ']' then return items ++ [first, .one 45]
          match first, ← readSetMember t with
          | .one low, .one high =>
            if high < low then refuse
            readSet fuel (items ++ [.range low high])
          | _, _ => refuse
      else readSet fuel (items ++ [first])

/-- The number of rounds from which on a repetition is refused. -/
def roundLimit : Nat := 4294967295

/-- A number of rounds; none where no digits are given. -/
def readRounds (cs : List Char) : Reader (Option Nat) := do
  if cs.isEmpty then return none
  if Number.maxDigits < cs.length then throw (.longNumber cs.length)
  let n := Number.ofDigits (cs.map fun c => c.toNat - 48)
  if roundLimit ≤ n then throw .tooManyRounds
  return some n

/-- The bounds of a repetition in braces; none where the braces do not form one. -/
def readBounds : Reader (Option (Nat × Option Nat)) := do
  let start ← get
  if (← peek) == some (.plain '\x7d') then return none
  let low ← takeWhile Char.isDigit (← left)
  let high ← if ← accept ',' then takeWhile Char.isDigit (← left) else pure low
  if ← accept '\x7d' then
    let least := (← readRounds low).getD 0
    match ← readRounds high with
    | some most => if most < least then refuse else return some (least, some most)
    | none => return some (least, none)
  else
    set start
    return none

/-- How much a repetition takes, by the mark after it. -/
def readGreed : Reader Greed := do
  if ← accept '?' then return .least
  if ← accept '+' then return .keepsAll
  return .most

/-- Repeats the item read last. Places cannot be repeated, nor repetitions. -/
def readRepetition (least : Nat) (most : Option Nat) (items : List Expr) : Reader (List Expr) := do
  match items with
  | [] | .anchor _ :: _ | .repeated .. :: _ => refuse
  | item :: earlier =>
    return .repeated least most (← readGreed) item :: earlier

/-- The mode that a letter switches. -/
def modeOf? : Char → Option Modes
  | 'i' => some { Modes.none with caseBlind := true }
  | 'm' => some { Modes.none with multiline := true }
  | 's' => some { Modes.none with dotAll := true }
  | 'x' => some { Modes.none with verbose := true }
  | 'a' => some { Modes.none with ascii := true }
  | 'u' => some { Modes.none with unicode := true }
  | _ => none

/-- Mode letters from the given one on, up to a character that is none. -/
def readModes : (fuel : Nat) → Modes → Char → Reader (Modes × Char)
  | 0, _, _ => refuse
  | fuel + 1, modes, c => do
    match modeOf? c with
    | none => return (modes, c)
    | some mode =>
      let modes := modes.union mode
      if modes.ascii && modes.unicode then refuse
      match ← take with
      | some (.plain c) => readModes fuel modes c
      | _ => refuse

/-- What the letters after a question mark switch; none where they switch modes everywhere. -/
def readModeChange (c : Char) : Reader (Option ModeChange) := do
  let (added, c) ← readModes ((← left) + 1) .none c
  if c == ')' then
    modify fun s => { s with modes := s.modes.union added }
    return none
  else if c == ':' then return some ⟨added, .none⟩
  else if c == '-' then
    match ← take with
    | some (.plain c) =>
      if (modeOf? c).isNone then refuse
      let (removed, c) ← readModes ((← left) + 1) .none c
      if c != ':' || removed.ascii || removed.unicode || added.overlaps removed then refuse
      return some ⟨added, removed⟩
    | _ => refuse
  else refuse

/-- Passes over a comment that ends with the line. -/
def skipLine : (fuel : Nat) → Reader Unit
  | 0 => return
  | fuel + 1 => do
    match ← take with
    | none | some (.plain '\n') => return
    | _ => skipLine fuel

/-- What the beginning of a group says about it. -/
inductive GroupKind where
  | numbered
  | named (name : String)
  | scoped (change : ModeChange)
  | atomic
  | ahead (negated : Bool)
  | behind (negated : Bool)
  | whether (index : Nat)
  | reference (index : Nat)
  | nothing
  | modesOnly

/-- Finds a group by its name. -/
def namedGroup (name : String) : Reader Nat := do
  match (← get).names.lookup name with
  | some index => return index
  | none => refuse

/-- The group that a condition names, or gives by number. -/
def readCondition : Reader Nat := do
  let text := String.ofList (← takeUntil ')' (← left))
  let index ← if isGroupName text then namedGroup text
    else match Number.int? text with
      | some (.ofNat (n + 1)) =>
        modify fun s => { s with wanted := (n + 1) :: s.wanted }
        pure (n + 1)
      | _ => refuse
  let s ← get
  if s.behindFrom.isSome then checkReference index
  return index

/-- What stands after the opening bracket of a group. -/
def readGroupKind : Reader GroupKind := do
  unless ← accept '?' do return .numbered
  match ← take with
  | some (.plain 'P') =>
    if ← accept '<' then return .named (← readName '>')
    expect '='
    let index ← namedGroup (← readName ')')
    checkReference index
    return .reference index
  | some (.plain ':') => return .scoped ⟨.none, .none⟩
  | some (.plain '#') =>
    let _ ← takeUntil ')' (← left)
    return .nothing
  | some (.plain '=') => return .ahead false
  | some (.plain '!') => return .ahead true
  | some (.plain '<') =>
    if ← accept '=' then return .behind false
    expect '!'
    return .behind true
  | some (.plain '(') => return .whether (← readCondition)
  | some (.plain '>') => return .atomic
  | some (.plain c) =>
    if c != '-' && (modeOf? c).isNone then refuse
    match ← readModeChange c with
    | some change => return .scoped change
    | none => return .modesOnly
  | _ => refuse

/-- Opens a numbered group. -/
def openGroup (name : Option String) : Reader Nat := do
  let s ← get
  let index := s.opened + 1
  match name with
  | none => set { s with opened := index }
  | some name =>
    match s.names.lookup name with
    | some first => throw (.groupTwice name index first (s.position - name.length - 1))
    | none => set { s with opened := index, names := s.names ++ [(name, index)] }
  return index

/-- Closes a group and notes its width. -/
def closeGroup (index : Nat) (body : Expr) : Reader Unit :=
  modify fun s => { s with closed := (index, body.width s.closed) :: s.closed }

mutual

/-- Alternatives between bars. `outermost` holds outside all groups and `leading` in the first
alternative. -/
def readEither : (fuel : Nat) → (verbose outermost leading : Bool) → Reader Expr
  | 0, _, _, _ => refuse
  | fuel + 1, verbose, outermost, leading => do
    let first ← readSequence fuel verbose (outermost && leading) []
    if ← accept '|' then
      let s ← get
      let verbose := if outermost then s.modes.verbose else verbose
      let second ← readEither fuel verbose outermost false
      return .either first second
    else return first

/-- Items in a row; those read are kept in reverse. `leading` holds where modes may be switched for
the whole pattern. -/
def readSequence : (fuel : Nat) → (verbose leading : Bool) → List Expr → Reader Expr
  | 0, _, _, _ => refuse
  | fuel + 1, verbose, leading, items => do
    match ← peek with
    | none | some (.plain '|') | some (.plain ')') => return Expr.ofItems items.reverse
    | some .cutOff => refuse
    | some (.escaped c) =>
      advance
      readSequence fuel verbose leading ((← readEscape c) :: items)
    | some (.plain c) =>
      advance
      if verbose && isAsciiSpace c then readSequence fuel verbose leading items
      else if verbose && c == '#' then
        skipLine (← left)
        readSequence fuel verbose leading items
      else match c with
        | '[' =>
          let negated ← accept '^'
          let members ← readSet (← left) []
          readSequence fuel verbose leading (.set negated members :: items)
        | '.' => readSequence fuel verbose leading (.any :: items)
        | '^' => readSequence fuel verbose leading (.anchor .start :: items)
        | '$' => readSequence fuel verbose leading (.anchor .finish :: items)
        | '?' => readSequence fuel verbose leading (← readRepetition 0 (some 1) items)
        | '*' => readSequence fuel verbose leading (← readRepetition 0 none items)
        | '+' => readSequence fuel verbose leading (← readRepetition 1 none items)
        | '\x7b' =>
          match ← readBounds with
          | some (least, most) =>
            readSequence fuel verbose leading (← readRepetition least most items)
          | none => readSequence fuel verbose leading (.literal c.toNat :: items)
        | '(' =>
          match ← readGroupKind with
          | .nothing => readSequence fuel verbose leading items
          | .modesOnly =>
            if !leading || !items.isEmpty then refuse
            let s ← get
            readSequence fuel s.modes.verbose leading items
          | .reference index => readSequence fuel verbose leading (.same index :: items)
          | .whether index =>
            let yes ← readSequence fuel verbose false []
            let no ← if ← accept '|' then readSequence fuel verbose false [] else pure .empty
            expect ')'
            readSequence fuel verbose leading (.whether index yes no :: items)
          | .ahead negated =>
            let body ← readEither fuel verbose false false
            expect ')'
            readSequence fuel verbose leading (.ahead negated body :: items)
          | .behind negated =>
            let s ← get
            let around := s.behindFrom
            modify fun s => { s with behindFrom := some (around.getD (s.opened + 1)) }
            let body ← readEither fuel verbose false false
            modify fun s => { s with behindFrom := around }
            expect ')'
            let s ← get
            let width := body.width s.closed
            if width.greatest != some width.least then refuse
            readSequence fuel verbose leading (.behind negated width.least body :: items)
          | .atomic =>
            let body ← readEither fuel verbose false false
            expect ')'
            readSequence fuel verbose leading (.atomic body :: items)
          | .scoped change =>
            let inner := (verbose || change.added.verbose) && !change.removed.verbose
            let body ← readEither fuel inner false false
            expect ')'
            readSequence fuel verbose leading (.scoped change body :: items)
          | .numbered =>
            let index ← openGroup none
            let body ← readEither fuel verbose false false
            expect ')'
            closeGroup index body
            readSequence fuel verbose leading (.group index body :: items)
          | .named name =>
            let index ← openGroup (some name)
            let body ← readEither fuel verbose false false
            expect ')'
            closeGroup index body
            readSequence fuel verbose leading (.group index body :: items)
        | _ => readSequence fuel verbose leading (.literal c.toNat :: items)

end

/-- Reads a pattern whole, in the given modes. -/
def compile (modes : Modes) (text : String) : Except Flaw Compiled := do
  let ts := tokens text.toList
  if ts.head? == some .cutOff then throw .malformed
  let (expr, s) ← (readEither (3 * ts.length + 3) modes.verbose true true).run
    ⟨ts, 0, 0, [], [], none, [], modes⟩
  if !s.rest.isEmpty then throw .malformed
  if s.wanted.any fun index => s.opened < index then throw .malformed
  if s.modes.ascii && s.modes.unicode then throw .mixedAlphabets
  return ⟨expr, s.modes, s.names⟩

end Intake.Pattern
