import Intake.Model.Catalogue
import Intake.Number.Reading
import Intake.Shape.Rejection

/-!
Fitting one value to a scalar type. A value that already has the type is kept and fits exactly; a text
that spells the value, or another scalar that loses nothing, fits loosely.
-/

namespace Intake.Shape

/-- How well a value fits. -/
inductive Fitness where
  | loose
  | close
  | exact
deriving DecidableEq, Repr, Inhabited

def Fitness.rank : Fitness → Nat
  | .loose => 0
  | .close => 1
  | .exact => 2

/-- The worse of two. -/
def Fitness.worse (a b : Fitness) : Fitness := if a.rank ≤ b.rank then a else b

/-- The outcome of fitting a scalar. -/
abbrev Outcome := Except Problem (Value × Fitness)

/-- The text of a value that is one, or of bytes; bytes that are no text have the given problem. -/
def spelling? (problem : Problem) : Value → Except Problem (Option String)
  | .bytes bs =>
    match Text.utf8? bs with
    | some s => .ok (some s)
    | none => .error problem
  | .brokenText _ => .error .stringUnicode
  | v => .ok v.text?

/-- A text without low lines, where they stand only between other characters and one by one. -/
def withoutLowLines (cs : List Char) : List Char :=
  if cs.head? == some '_' || cs.getLast? == some '_' || Text.occursIn ['_', '_'] cs then cs
  else cs.filter (· != '_')

/-- The characters after zeros and low lines at the beginning; the first has to be a zero if any is
dropped. A zero is kept before a point and at the end. -/
def afterZeros? : List Char → Option (List Char)
  | [] => none
  | '0' :: rest =>
    match rest.dropWhile fun c => c == '0' || c == '_' with
    | [] => rest.getLast?.elim (some ['0']) fun c => some [c]
    | '.' :: places => some ((if rest.head? == some '.' then '0' else
        ((rest.takeWhile fun c => c == '0' || c == '_').getLast?.getD '0')) :: '.' :: places)
    | c :: rest => if '1' ≤ c && c ≤ '9' then some (c :: rest) else none
  | c :: rest => if ('1' ≤ c && c ≤ '9') || c == '-' then some (c :: rest) else none

/-- A text without a point and the zeros after it. -/
def withoutZeroPlaces (cs : List Char) : List Char :=
  match Text.cutChars '.' cs with
  | (whole, some places) => if places.all (· == '0') then whole else cs
  | (whole, none) => whole

/-- The integer of digits without leading zeros, perhaps after a minus sign. -/
def plainInt? : List Char → Option Int
  | '-' :: cs => (unsigned? cs).map fun n => -(n : Int)
  | cs => (unsigned? cs).map Int.ofNat
where
  unsigned? (cs : List Char) : Option Nat :=
    if cs.isEmpty || !cs.all Char.isDigit || (cs.head? == some '0' && cs.length != 1) then none
    else some (cs.foldl (fun n c => 10 * n + (c.toNat - 48)) 0)

/-- The integer that a text spells. -/
def intOfText (s : String) : Except Problem Int :=
  let cs := Text.trimBoth Text.isWhiteSpace s.toList
  if Number.maxDigits < cs.length then .error .intSize
  else
    let cs := match cs with
      | '+' :: rest => rest
      | cs => cs
    match (afterZeros? cs).bind fun cs => plainInt? (withoutLowLines (withoutZeroPlaces cs)) with
    | some n => .ok n
    | none => .error .intParsing

/-- The integer that a double-precision number is. -/
def intOfFloat (x : Binary64) : Except Problem Int :=
  match x.truncate? with
  | none => .error .notFinite
  | some n => if x.isWhole then .ok n else .error .intFraction

/-- Fits a value to the integers. -/
def fitInt : Value → Outcome
  | .int i => .ok (.int i, .exact)
  | .bool b => .ok (.int (if b then 1 else 0), .loose)
  | .member _ _ .integer (.int i) => .ok (.int i, .close)
  | .float x => do return (.int (← intOfFloat x), .loose)
  | .member _ _ .plain value => .ok (value, .loose)
  | v => do
    match ← spelling? .intParsing v with
    | some s => return (.int (← intOfText s), .loose)
    | none => .error .intType

/-- The number that a text of ASCII digits spells, with a point or an exponent. -/
def decimal? (negative : Bool) (cs : List Char) : Option Binary64 := do
  let whole := cs.takeWhile Char.isDigit
  let rest := cs.dropWhile Char.isDigit
  let (places, rest) := match rest with
    | '.' :: rest => (rest.takeWhile Char.isDigit, rest.dropWhile Char.isDigit)
    | rest => ([], rest)
  if whole.isEmpty && places.isEmpty then none
  let digits := (whole ++ places).map fun c => c.toNat - 48
  let power : Int ← match rest with
    | [] => some 0
    | e :: rest =>
      if e != 'e' && e != 'E' then none
      else
        let (minus, rest) := Number.takeSign rest
        if rest.isEmpty || !rest.all Char.isDigit then none
        else
          let n : Int := Number.ofDigits (rest.map fun c => c.toNat - 48)
          some (if minus then -n else n)
  return Binary64.ofDecimal negative (Number.ofDigits digits) (power - places.length)

/-- The double-precision number that characters spell, in digits or by a word. -/
def floatOfChars? (cs : List Char) : Option Binary64 :=
  let (negative, rest) := Number.takeSign cs
  (Number.special? negative (String.ofList (rest.map Char.toLower))).orElse
    fun _ => decimal? negative rest

/-- The double-precision number that a text spells. -/
def floatOfText (s : String) : Except Problem Binary64 :=
  let cs := Text.trimBoth Text.isWhiteSpace s.toList
  match (floatOfChars? cs).orElse fun _ => floatOfChars? (withoutLowLines cs) with
  | some x => .ok x
  | none => .error .floatParsing

/-- Fits a value to the double-precision numbers. -/
def fitFloat : Value → Outcome
  | .float x => .ok (.float x, .exact)
  | .bool b => .ok (.float (if b then Binary64.ofRatio false 1 1 else Binary64.zero), .loose)
  | .int i | .member _ _ .integer (.int i) =>
    match Binary64.ofInt? i with
    | some x => .ok (.float x, .close)
    | none => .error .floatType
  | v => do
    match ← spelling? .floatParsing v with
    | some s => return (.float (← floatOfText s), .loose)
    | none => .error .floatType

/-- Words for false and for true. -/
def falseWords : List String := ["0", "off", "f", "false", "n", "no"]

def trueWords : List String := ["1", "on", "t", "true", "y", "yes"]

/-- The truth value that a word spells, in any case. -/
def boolOfText (s : String) : Except Problem Bool :=
  let word := String.ofList (s.toList.map Char.toLower)
  if falseWords.contains word then .ok false
  else if trueWords.contains word then .ok true
  else .error .boolParsing

/-- The truth value that an integer stands for. -/
def boolOfInt (i : Int) : Except Problem Bool :=
  if i == 0 then .ok false
  else if i == 1 then .ok true
  else .error .boolParsing

/-- Fits a value to the truth values. -/
def fitBool : Value → Outcome
  | .bool b => .ok (.bool b, .exact)
  | .int i | .member _ _ .integer (.int i) => do return (.bool (← boolOfInt i), .loose)
  | .float x =>
    match intOfFloat x with
    | .ok i => do return (.bool (← boolOfInt i), .loose)
    | .error _ => .error .boolType
  | v => do
    match ← spelling? .boolParsing v with
    | some s => return (.bool (← boolOfText s), .loose)
    | none => .error .boolType

/-- Fits a value to the texts. -/
def fitText : Value → Outcome
  | .text s => .ok (.text s, .exact)
  | .member _ _ .text value => .ok (value, .close)
  | .member _ _ _ value => .ok (.text value.display, .loose)
  | .bytes bs =>
    match Text.utf8? bs with
    | some s => .ok (.text s, .loose)
    | none => .error .stringUnicode
  | .brokenText _ => .error .stringUnicode
  | _ => .error .stringType

/-- Fits a value to the byte sequences. -/
def fitBytes : Value → Outcome
  | .bytes bs => .ok (.bytes bs, .exact)
  | v =>
    match v.text? with
    | some s => .ok (.bytes (Text.utf8Bytes s), .loose)
    | none => .error .bytesType

/-- The whole part of a double-precision number toward minus infinity, and the microseconds beyond
it. -/
def floorParts (x : Binary64) : Except Problem (Int × Int) :=
  match x.fraction? with
  | none =>
    match x with
    | .nan => .error (.momentParsing .notANumber)
    | .infinite true => .error (.momentParsing .tooEarly)
    | _ => .error (.momentParsing .tooLate)
  | some (n, d) =>
    let whole := n.fdiv d
    let size := n.natAbs % d
    .ok (whole, (2 * size * 1000000 + d) / (2 * d))

/-- The moment of a value by itself, without taking days for midnights. -/
def momentOf (v : Value) : Except Problem (Value × Fitness) :=
  let stamp (m : Except Calendar.Stamp.Fault Calendar.Moment) : Outcome :=
    match m with
    | .ok m => .ok (.moment m, .loose)
    | .error fault => .error (.momentParsing fault)
  match v with
  | .moment m => .ok (.moment m, .exact)
  | .int i | .member _ _ .integer (.int i) => stamp (Calendar.Stamp.ofInt i)
  | .float x => do
    let (whole, microseconds) ← floorParts x
    stamp (Calendar.Stamp.ofParts whole microseconds)
  | .day d => .ok (.moment ⟨d, Calendar.midnight, none⟩, .loose)
  | v => do
    match ← spelling? .momentType v with
    | some s => stamp (Calendar.Stamp.moment s)
    | none => .error .momentType

/-- Fits a value to the moments; a day stands for its midnight. -/
def fitMoment (v : Value) : Outcome :=
  match momentOf v with
  | .ok fit => .ok fit
  | .error problem =>
    match v.text? with
    | some s =>
      match Calendar.Stamp.day s with
      | .ok d => .ok (.moment ⟨d, Calendar.midnight, none⟩, .loose)
      | .error fault => .error (.momentFromDay fault)
    | none => .error problem

/-- The day of a moment that is a midnight. -/
def dayOfMidnight (m : Calendar.Moment) : Outcome :=
  if m.clock == Calendar.midnight then .ok (.day m.day, .loose) else .error .dayInexact

/-- Fits a value to the days; a moment at midnight stands for its day. -/
def fitDay (v : Value) : Outcome :=
  let fromMoment : Outcome :=
    match momentOf v with
    | .ok (.moment m, _) => dayOfMidnight m
    | .ok _ => .error .dayType
    | .error (.momentParsing fault) => .error (.dayFromMoment fault)
    | .error _ => .error .dayType
  match v with
  | .day d => .ok (.day d, .exact)
  | v =>
    match v.text? with
    | some s =>
      match Calendar.Stamp.day s with
      | .ok d => .ok (.day d, .loose)
      | .error _ => fromMoment
    | none => fromMoment

/-- The number of sixteen bytes. -/
def numberOfBytes (bs : List UInt8) : Nat := bs.foldl (fun n b => 256 * n + b.toNat) 0

/-- Fits a value to the identifiers. -/
def fitUuid : Value → Outcome
  | .uuid u => .ok (.uuid u, .exact)
  | .text s =>
    match Uuid.ofText? s with
    | .ok u => .ok (.uuid u, .loose)
    | .error fault => .error (.uuidParsing fault)
  | .bytes bs =>
    match (Text.utf8? bs).map Uuid.ofText? with
    | some (.ok u) => .ok (.uuid u, .loose)
    | _ =>
      if bs.length = 16 then .ok (.uuid ⟨numberOfBytes bs⟩, .loose)
      else .error (.uuidParsing (.byteLength bs.length))
  | _ => .error .uuidType

/-- Whether a value is one of a literal's choices: equal to it and of its type. -/
def isChoice (v choice : Value) : Bool := v.typeName == choice.typeName && v.same choice

/-- Fits a value to a choice of literals. -/
def fitLiteral (choices : List Value) (v : Value) : Outcome :=
  match choices.find? (isChoice v) with
  | some choice => .ok (choice, .exact)
  | none => .error (.literal (choices.map Value.innerText))

/-- Fits a value to the members of an enumeration: a member, or the value of one. -/
def fitMember (e : Enumeration) (v : Value) : Outcome :=
  let problem : Problem := .enumeration (e.members.map fun m => m.2.innerText)
  let byValue (found : Outcome) : Outcome :=
    match found with
    | .ok (value, _) =>
      match e.values.find? fun m => match m with
        | .member _ _ _ w => isChoice value w
        | _ => false with
      | some m => .ok (m, .loose)
      | none => .error problem
    | .error _ => .error problem
  match v with
  | .member name _ _ _ =>
    if name == e.name then .ok (v, .exact)
    else match e.base with
      | .text => byValue (fitText v)
      | .integer => byValue (fitInt v)
      | .plain => .error problem
  | v => match e.base with
    | .text => byValue (fitText v)
    | .integer => byValue (fitInt v)
    | .plain => byValue (.ok (v, .loose))

end Intake.Shape
