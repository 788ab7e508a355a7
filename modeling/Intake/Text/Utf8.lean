/-!
Bytes as texts. A byte sequence that is no character of the eight-bit encoding is a fault of its first
bytes: those that could begin a character, or the one that could not. A lenient reading puts one
replacement character for each such fault and goes on after it.
-/

namespace Intake.Text

/-- Why bytes are no character. -/
inductive ByteProblem where
  | badStart
  | badContinuation
  | cutOff
deriving DecidableEq, Repr

/-- The words for a problem. -/
def ByteProblem.message : ByteProblem → String
  | .badStart => "invalid start byte"
  | .badContinuation => "invalid continuation byte"
  | .cutOff => "unexpected end of data"

/-- Whether a byte continues a character. -/
def isContinuation (b : UInt8) : Bool := 0x80 ≤ b && b < 0xC0

/-- Whether the second byte of a character can follow the first: no shorter form, no surrogate, and
nothing past the last code. -/
def isSecond (first second : UInt8) : Bool :=
  isContinuation second && (first != 0xE0 || 0xA0 ≤ second) && (first != 0xED || second < 0xA0)
    && (first != 0xF0 || 0x90 ≤ second) && (first != 0xF4 || second < 0x90)

/-- The low six bits of a continuation byte. -/
def sixBits (b : UInt8) : Nat := b.toNat % 64

/-- The code of the first character and the number of its bytes, or the problem and the number of bytes
that it takes. -/
def firstCode : List UInt8 → Except (ByteProblem × Nat) (Nat × Nat)
  | [] => .error (.cutOff, 0)
  | a :: rest =>
    if a < 0x80 then .ok (a.toNat, 1)
    else if a < 0xC2 || 0xF4 < a then .error (.badStart, 1)
    else match rest with
      | [] => .error (.cutOff, 1)
      | b :: rest =>
        if !isSecond a b then .error (.badContinuation, 1)
        else if a < 0xE0 then .ok (a.toNat % 32 * 64 + sixBits b, 2)
        else match rest with
          | [] => .error (.cutOff, 2)
          | c :: rest =>
            if !isContinuation c then .error (.badContinuation, 2)
            else if a < 0xF0 then .ok ((a.toNat % 16 * 64 + sixBits b) * 64 + sixBits c, 3)
            else match rest with
              | [] => .error (.cutOff, 3)
              | d :: _ =>
                if !isContinuation d then .error (.badContinuation, 3)
                else .ok (((a.toNat % 8 * 64 + sixBits b) * 64 + sixBits c) * 64 + sixBits d, 4)

/-- A surrogate code in three bytes, which only a permissive reading takes. -/
def surrogate? : List UInt8 → Option Nat
  | a :: b :: c :: _ =>
    if a == 0xED && 0xA0 ≤ b && b < 0xC0 && isContinuation c then
      some ((13 * 64 + sixBits b) * 64 + sixBits c)
    else none
  | _ => none

/-- Where bytes are no text in an encoding, how many they are, and why. -/
structure ByteFault where
  encoding : String
  position : Nat
  bytes : List UInt8
  reason : String
deriving DecidableEq, Repr

/-- The digits of a byte in hexadecimal. -/
def byteText (b : UInt8) : String :=
  String.ofList [Nat.digitChar (b.toNat / 16), Nat.digitChar (b.toNat % 16)]

/-- The words for a fault: the byte if there is one, else where the bytes stand. -/
def ByteFault.message (f : ByteFault) : String :=
  let quote := String.singleton (Char.ofNat 39)
  quote ++ f.encoding ++ quote ++ " codec can" ++ quote ++ "t decode "
    ++ (match f.bytes with
      | [b] => "byte 0x" ++ byteText b ++ " in position " ++ toString f.position
      | bs => "bytes in position " ++ toString f.position ++ "-" ++ toString (f.position + bs.length - 1))
    ++ ": " ++ f.reason

/-- The codes that bytes denote. `surrogates` tells whether surrogate codes are let through. -/
def utf8Codes (surrogates : Bool) : (fuel position : Nat) → List UInt8 → Except ByteFault (List Nat)
  | 0, _, _ | _, _, [] => .ok []
  | fuel + 1, position, bytes =>
    match firstCode bytes with
    | .ok (code, count) => do
      return code :: (← utf8Codes surrogates fuel (position + count) (bytes.drop count))
    | .error (problem, count) =>
      match if surrogates then surrogate? bytes else none with
      | some code => do
        return code :: (← utf8Codes surrogates fuel (position + 3) (bytes.drop 3))
      | none => .error ⟨"utf-8", position, bytes.take count, problem.message⟩

/-- The characters that bytes denote, with a replacement character for each fault. -/
def lossyChars : (fuel : Nat) → List UInt8 → List Char
  | 0, _ | _, [] => []
  | fuel + 1, bytes =>
    match firstCode bytes with
    | .ok (code, count) => Char.ofNat code :: lossyChars fuel (bytes.drop count)
    | .error (_, count) => Char.ofNat 0xFFFD :: lossyChars fuel (bytes.drop count)

/-- The text that bytes denote, with a replacement character for each fault. -/
def lossyUtf8 (bytes : List UInt8) : String := String.ofList (lossyChars bytes.length bytes)

/-- Whether a code is a surrogate, so no character. -/
def isSurrogate (code : Nat) : Bool := 0xD800 ≤ code && code ≤ 0xDFFF

/-- The text that bytes denote, if they denote one. -/
def utf8? (bytes : List UInt8) : Option String :=
  match utf8Codes false bytes.length 0 bytes with
  | .ok codes => some (String.ofList (codes.map Char.ofNat))
  | .error _ => none

/-- The text of bytes that each stand for the character of their code. -/
def latin1 (bytes : List UInt8) : String := String.ofList (bytes.map fun b => Char.ofNat b.toNat)

/-- The bytes of a text in the eight-bit encoding. -/
def utf8Bytes (s : String) : List UInt8 := s.toUTF8.toList

end Intake.Text
