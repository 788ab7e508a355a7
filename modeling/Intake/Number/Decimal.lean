import Intake.Number.Binary64

/-!
Decimal texts of double-precision numbers. The shortest text has the fewest digits that read back as
the same number and, of those, the digits nearest to it; a text with fixed places rounds the exact
value, a half to the even digit.
-/

namespace Intake.Number

/-- Decimal digits and the power of ten of the last of them. -/
structure Digits where
  digits : Nat
  scale : Int
deriving Repr, DecidableEq

/-- The quotient by a power of ten, as numerator and denominator. -/
def overPowerOfTen (numerator denominator : Nat) (scale : Int) : Nat × Nat :=
  match scale with
  | .ofNat e => (numerator, denominator * Nat.pow 10 e)
  | .negSucc e => (numerator * Nat.pow 10 (e + 1), denominator)

/-- The power of ten of the leading digit of a positive quotient, found from its bit lengths and
corrected by comparison. -/
def leadingPower (numerator denominator : Nat) : Int :=
  let bits : Int := (Nat.log2 numerator : Int) - Nat.log2 denominator
  let guess : Int := (bits * 30103) / 100000 - 1
  let reaches (p : Int) : Bool :=
    let (n, d) := overPowerOfTen numerator denominator p
    d ≤ n
  if reaches (guess + 2) then guess + 2
  else if reaches (guess + 1) then guess + 1
  else guess

/-- Of the two neighbours of a magnitude on a decimal grid, the nearer one that reads back as the
same number. -/
def onGrid? (x : Binary64) (numerator denominator : Nat) (scale : Int) : Option Digits :=
  let (n, d) := overPowerOfTen numerator denominator scale
  let below := n / d
  let readsBack (k : Nat) : Bool := Binary64.ofDecimal false k scale == x
  let twice := 2 * (n % d)
  let preferBelow := twice < d || (twice == d && below % 2 == 0)
  let (first, second) := if preferBelow then (below, below + 1) else (below + 1, below)
  if readsBack first then some ⟨first, scale⟩
  else if readsBack second then some ⟨second, scale⟩
  else none

/-- The first of the grids with one digit, two digits and so on that holds a number which reads
back; seventeen digits always do. -/
def shortestFrom (x : Binary64) (numerator denominator : Nat) : Nat → Int → Digits
  | 0, scale =>
    let (n, d) := overPowerOfTen numerator denominator scale
    ⟨Binary64.roundQuotient n d, scale⟩
  | more + 1, scale =>
    match onGrid? x numerator denominator scale with
    | some found => found
    | none => shortestFrom x numerator denominator more (scale - 1)

/-- The shortest digits of a positive finite number. -/
def shortest (mantissa : Nat) (exponent : Int) : Digits :=
  let (n, d) := Binary64.magnitude mantissa exponent
  shortestFrom (.finite false mantissa exponent) n d 17 (leadingPower n d)

/-- The digits of a natural number as characters. -/
def digitChars (n : Nat) : List Char := Nat.toDigits 10 n

/-- The digits without the zeros at their end, and how many were dropped. -/
def dropTrailingZeros (cs : List Char) : List Char × Nat :=
  let kept := (cs.reverse.dropWhile (· == '0')).reverse
  (kept, cs.length - kept.length)

/-- Digits with a point after the given number of them, zeros filled in on either side. -/
def placePoint (cs : List Char) (point : Int) : List Char :=
  if point ≤ 0 then '0' :: '.' :: (List.replicate (-point).toNat '0' ++ cs)
  else
    let point := point.toNat
    if cs.length ≤ point then cs ++ List.replicate (point - cs.length) '0' ++ ['.', '0']
    else cs.take point ++ '.' :: cs.drop point

/-- How the exponent form is written: the sign always shown or not, and the least number of digits
of the exponent. -/
structure ExponentStyle where
  showsPlus : Bool
  width : Nat

/-- Which leading powers of ten are written positionally, and how the others are. -/
structure ShortestStyle where
  leastPower : Int
  greatestPower : Int
  exponent : ExponentStyle
  nan : String
  infinity : String

/-- Numbers as they stand in answers and markup: positional between a ten-thousandth and ten to the
sixteenth, exponents with a sign and two digits. -/
def plainStyle : ShortestStyle :=
  ⟨-4, 15, ⟨true, 2⟩, "nan", "inf"⟩

/-- The exponent form of digits whose first one has the given power of ten. -/
def exponentForm (style : ExponentStyle) (cs : List Char) (power : Int) : List Char :=
  let mantissa := match cs with
    | [] => []
    | [c] => [c]
    | c :: rest => c :: '.' :: rest
  let sign := if power < 0 then ['-'] else if style.showsPlus then ['+'] else []
  let digits := digitChars power.natAbs
  mantissa ++ 'e' :: sign ++ List.replicate (style.width - digits.length) '0' ++ digits

/-- The shortest text of a number in a style. -/
def shortestText (style : ShortestStyle) : Binary64 → String
  | .nan => style.nan
  | .infinite negative => (if negative then "-" else "") ++ style.infinity
  | .finite negative 0 _ => if negative then "-0.0" else "0.0"
  | .finite negative mantissa exponent =>
    let found := shortest mantissa exponent
    let (cs, dropped) := dropTrailingZeros (digitChars found.digits)
    let power : Int := found.scale + dropped + cs.length - 1
    let body :=
      if style.leastPower ≤ power && power ≤ style.greatestPower then placePoint cs (power + 1)
      else exponentForm style.exponent cs power
    (if negative then "-" else "") ++ String.ofList body

/-- The text of a number as answers and markup show it. -/
def text (x : Binary64) : String := shortestText plainStyle x

/-- The text of a number with six places after the point. -/
def sixPlaces : Binary64 → String
  | .nan => "nan"
  | .infinite negative => if negative then "-inf" else "inf"
  | .finite negative mantissa exponent =>
    let (n, d) := Binary64.magnitude mantissa exponent
    let millionths := Binary64.roundQuotient (n * 1000000) d
    let fraction := digitChars (millionths % 1000000)
    (if negative then "-" else "") ++ String.ofList (digitChars (millionths / 1000000))
      ++ "." ++ String.ofList (List.replicate (6 - fraction.length) '0' ++ fraction)

end Intake.Number
