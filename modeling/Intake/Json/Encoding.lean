import Intake.Text.Utf8

/-!
The encoding of a document in bytes. A mark at the beginning tells it; without one, the zero bytes
among the first four do, since a document begins with characters below 128.
-/

namespace Intake.Json

open Intake.Text (ByteFault isSurrogate utf8Codes)

/-- The order of the bytes of a unit. -/
inductive ByteOrder where
  | big
  | little
deriving DecidableEq, Repr

/-- An encoding; `marked` tells whether a mark stands before the document. -/
inductive Encoding where
  | utf8 (marked : Bool)
  | utf16 (order : ByteOrder) (marked : Bool)
  | utf32 (order : ByteOrder) (marked : Bool)
deriving DecidableEq, Repr

/-- The encoding of a document. -/
def Encoding.detect : List UInt8 → Encoding
  | 0 :: 0 :: 0xFE :: 0xFF :: _ => .utf32 .big true
  | 0xFF :: 0xFE :: 0 :: 0 :: _ => .utf32 .little true
  | 0xFE :: 0xFF :: _ => .utf16 .big true
  | 0xFF :: 0xFE :: _ => .utf16 .little true
  | 0xEF :: 0xBB :: 0xBF :: _ => .utf8 true
  | 0 :: b :: _ :: _ :: _ => if b == 0 then .utf32 .big false else .utf16 .big false
  | _ :: 0 :: c :: d :: _ => if c == 0 && d == 0 then .utf32 .little false else .utf16 .little false
  | [0, _] => .utf16 .big false
  | [_, 0] => .utf16 .little false
  | _ => .utf8 false

/-- The number of two bytes. -/
def unit16 (order : ByteOrder) (a b : UInt8) : Nat :=
  match order with
  | .big => a.toNat * 256 + b.toNat
  | .little => b.toNat * 256 + a.toNat

/-- The number of four bytes. -/
def unit32 (order : ByteOrder) (a b c d : UInt8) : Nat :=
  match order with
  | .big => unit16 .big a b * 65536 + unit16 .big c d
  | .little => unit16 .little c d * 65536 + unit16 .little a b

def ByteOrder.suffix : ByteOrder → String
  | .big => "-be"
  | .little => "-le"

/-- The units of two bytes. -/
def units16 (order : ByteOrder) : (position : Nat) → List UInt8 → Except ByteFault (List Nat)
  | _, [] => .ok []
  | position, [a] => .error ⟨"utf-16" ++ order.suffix, position, [a], "truncated data"⟩
  | position, a :: b :: rest => do
    return unit16 order a b :: (← units16 order (position + 2) rest)

/-- The codes of units in which two surrogates may form a pair; others are let through. -/
def joinPairs : List Nat → List Nat
  | high :: low :: rest =>
    if 0xD800 ≤ high && high < 0xDC00 && 0xDC00 ≤ low && low < 0xE000 then
      (0x10000 + (high - 0xD800) * 1024 + (low - 0xDC00)) :: joinPairs rest
    else high :: joinPairs (low :: rest)
  | units => units

/-- The codes of units of two bytes. -/
def codes16 (order : ByteOrder) (position : Nat) (bytes : List UInt8) : Except ByteFault (List Nat) :=
  (units16 order position bytes).map joinPairs

/-- The codes of units of four bytes. -/
def codes32 (order : ByteOrder) : (position : Nat) → List UInt8 → Except ByteFault (List Nat)
  | _, [] => .ok []
  | position, a :: b :: c :: d :: rest =>
    let code := unit32 order a b c d
    if code < 0x110000 then do return code :: (← codes32 order (position + 4) rest)
    else .error ⟨"utf-32" ++ order.suffix, position, [a, b, c, d], "code point not in range(0x110000)"⟩
  | position, bytes => .error ⟨"utf-32" ++ order.suffix, position, bytes, "truncated data"⟩

/-- The codes of a document. -/
def decode (bytes : List UInt8) : Except ByteFault (List Nat) :=
  match Encoding.detect bytes with
  | .utf8 marked =>
    let bytes := if marked then bytes.drop 3 else bytes
    utf8Codes true bytes.length 0 bytes
  | .utf16 order marked => if marked then codes16 order 2 (bytes.drop 2) else codes16 order 0 bytes
  | .utf32 order marked => if marked then codes32 order 4 (bytes.drop 4) else codes32 order 0 bytes

end Intake.Json
