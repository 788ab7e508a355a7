/-!
Double-precision numbers in exact arithmetic. A finite number is a signed integer mantissa below
`2 ^ 53` times a power of two that is at least `2 ^ (-1074)`; every operation rounds the exact result
once, to the nearest number, and a result halfway between two goes to the even mantissa.
-/

namespace Intake

/-- A double-precision number. The sign of a zero is kept. -/
inductive Binary64 where
  | nan
  | infinite (negative : Bool)
  | finite (negative : Bool) (mantissa : Nat) (exponent : Int)
deriving DecidableEq, Repr, Inhabited

namespace Binary64

/-- The exponent below which no number is written. -/
def minExponent : Int := -1074

/-- The exponent above which a full mantissa overflows. -/
def maxExponent : Int := 971

/-- The zero of a sign. -/
def zeroOf (negative : Bool) : Binary64 := .finite negative 0 minExponent

/-- The positive zero. -/
def zero : Binary64 := zeroOf false

/-- The quotient rounded to the nearest integer, a half to the even one. -/
def roundQuotient (numerator denominator : Nat) : Nat :=
  let floor := numerator / denominator
  let twice := 2 * (numerator % denominator)
  if twice < denominator then floor
  else if denominator < twice then floor + 1
  else if floor % 2 = 0 then floor else floor + 1

/-- A fraction over a power of two, as numerator and denominator without negative exponents. -/
def scaleBy (numerator denominator : Nat) (exponent : Int) : Nat × Nat :=
  match exponent with
  | .ofNat e => (numerator, denominator * Nat.pow 2 e)
  | .negSucc e => (numerator * Nat.pow 2 (e + 1), denominator)

/-- The exponent at which the quotient has a mantissa of 53 bits, or the least exponent. -/
def exponentOf (numerator denominator : Nat) : Int :=
  let guess : Int := max ((Nat.log2 numerator : Int) - Nat.log2 denominator - 53) minExponent
  let (n, d) := scaleBy numerator denominator guess
  if n < d * Nat.pow 2 53 then guess else guess + 1

/-- The number nearest to a quotient of natural numbers; the denominator is not zero. -/
def ofRatio (negative : Bool) (numerator denominator : Nat) : Binary64 :=
  if numerator = 0 then zeroOf negative
  else
    let exponent := exponentOf numerator denominator
    let (n, d) := scaleBy numerator denominator exponent
    let mantissa := roundQuotient n d
    let (mantissa, exponent) :=
      if mantissa = Nat.pow 2 53 then (Nat.pow 2 52, exponent + 1) else (mantissa, exponent)
    if maxExponent < exponent then .infinite negative
    else .finite negative mantissa exponent

/-- The number nearest to `digits * 10 ^ scale`. Far outside the range the power of ten is not
computed. -/
def ofDecimal (negative : Bool) (digits : Nat) (scale : Int) : Binary64 :=
  if digits = 0 then zeroOf negative
  else
    let magnitude : Int := (Nat.log2 digits : Int) * 3 / 10 + scale
    if 400 < magnitude then .infinite negative
    else if magnitude < -400 then zeroOf negative
    else match scale with
      | .ofNat e => ofRatio negative (digits * Nat.pow 10 e) 1
      | .negSucc e => ofRatio negative digits (Nat.pow 10 (e + 1))

/-- The number nearest to an integer; none where only infinity is near. -/
def ofInt? (i : Int) : Option Binary64 :=
  match ofRatio (i < 0) i.natAbs 1 with
  | .infinite _ => none
  | x => some x

/-- The exact value of a finite number, as numerator and denominator of its magnitude. -/
def magnitude (mantissa : Nat) (exponent : Int) : Nat × Nat :=
  match exponent with
  | .ofNat e => (mantissa * Nat.pow 2 e, 1)
  | .negSucc e => (mantissa, Nat.pow 2 (e + 1))

/-- Whether the number is not finite. -/
def isSpecial : Binary64 → Bool
  | .finite .. => false
  | _ => true

/-- Whether the number is a zero of either sign. -/
def isZero : Binary64 → Bool
  | .finite _ 0 _ => true
  | _ => false

/-- The integer part of a finite number, cut toward zero. -/
def truncate? : Binary64 → Option Int
  | .finite negative mantissa exponent =>
    let (n, d) := magnitude mantissa exponent
    let whole : Int := (n / d : Nat)
    some (if negative then -whole else whole)
  | _ => none

/-- Whether a finite number has no fractional part. -/
def isWhole : Binary64 → Bool
  | .finite _ mantissa exponent =>
    let (n, d) := magnitude mantissa exponent
    n % d == 0
  | _ => false

/-- The product with an integer factor, rounded once. -/
def scaleNat (x : Binary64) (factor : Nat) : Binary64 :=
  match x with
  | .finite negative mantissa exponent =>
    let (n, d) := magnitude mantissa exponent
    ofRatio negative (n * factor) d
  | _ => x

/-- The value as a signed fraction, for numbers that are finite. -/
def fraction? : Binary64 → Option (Int × Nat)
  | .finite negative mantissa exponent =>
    let (n, d) := magnitude mantissa exponent
    some (if negative then -(n : Int) else n, d)
  | _ => none

/-- Numeric order; nothing is less than, or greater than, what is not a number. -/
def lt : Binary64 → Binary64 → Bool
  | .nan, _ => false
  | _, .nan => false
  | .infinite false, _ => false
  | .infinite true, y => y != .infinite true
  | _, .infinite negative => !negative
  | x, y =>
    match x.fraction?, y.fraction? with
    | some (a, b), some (c, d) => a * d < c * b
    | _, _ => false

/-- Numeric equality: the two zeros are equal, and what is not a number equals nothing. -/
def eq : Binary64 → Binary64 → Bool
  | .nan, _ => false
  | _, .nan => false
  | .finite _ 0 _, .finite _ 0 _ => true
  | x, y => x == y

/-- Whether the number is exactly the integer. -/
def eqInt (x : Binary64) (i : Int) : Bool :=
  match x.fraction? with
  | some (n, d) => n == i * d
  | none => false

end Binary64
end Intake
