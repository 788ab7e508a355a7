import Intake.Markup.Flaw
import Intake.Text.Utf8

/-!
Encodings of documents. The first bytes tell whether characters have one byte or two at least; among
encodings of the same width the declaration decides. Bytes that stand for no character are kept as a
character that no document may hold.
-/

namespace Intake.Markup

/-- How a document is written. -/
inductive Encoding where
  | utf8
  | latin1
  | ascii
  | utf16 (bigEndian : Bool)
deriving DecidableEq, Repr, Inhabited

namespace Encoding

/-- What bytes without a character are read as. -/
def replacement : Char := Char.ofNat 0xFFFF

/-- The characters of bytes of which each sequence may be short or long. -/
def utf8Chars : (fuel : Nat) → List UInt8 → List Char
  | 0, _ | _, [] => []
  | fuel + 1, bytes =>
    match Text.firstCode bytes with
    | .ok (code, count) => Char.ofNat code :: utf8Chars fuel (bytes.drop count)
    | .error (_, count) => replacement :: utf8Chars fuel (bytes.drop count)

/-- The characters of pairs of bytes. -/
def utf16Chars (bigEndian : Bool) : List UInt8 → List Char
  | a :: b :: rest =>
    let unit (x y : UInt8) : Nat := if bigEndian then x.toNat * 256 + y.toNat else y.toNat * 256 + x.toNat
    let first := unit a b
    if 0xD800 ≤ first && first < 0xDC00 then
      match rest with
      | c :: d :: rest =>
        let second := unit c d
        (if 0xDC00 ≤ second && second < 0xE000 then
          Char.ofNat (0x10000 + (first - 0xD800) * 1024 + (second - 0xDC00))
        else replacement) :: utf16Chars bigEndian rest
      | _ => [replacement]
    else (if Text.isSurrogate first then replacement else Char.ofNat first) :: utf16Chars bigEndian rest
  | [_] => [replacement]
  | [] => []

/-- The characters of a document. -/
def decode (e : Encoding) (bytes : List UInt8) : List Char :=
  match e with
  | .utf8 => utf8Chars bytes.length bytes
  | .latin1 => bytes.map fun b => Char.ofNat b.toNat
  | .ascii => bytes.map fun b => if b < 128 then Char.ofNat b.toNat else replacement
  | .utf16 bigEndian => utf16Chars bigEndian bytes

/-- The encoding that the first bytes show. -/
def detect : List UInt8 → Encoding
  | a :: b :: _ =>
    if a == 0xFE && b == 0xFF then .utf16 true
    else if a == 0xFF && b == 0xFE then .utf16 false
    else if a == 0 then .utf16 true
    else if b == 0 then .utf16 false
    else .utf8
  | _ => .utf8

/-- The encodings of one byte for a character, by their names. -/
def latin1Names : List String :=
  ["iso-8859-1", "latin-1", "latin_1", "latin1", "latin", "iso8859-1", "iso8859_1", "iso_8859_1",
    "iso_8859-1", "iso8859", "8859", "cp819", "l1"]

/-- The names by which only the simple characters are read. -/
def asciiNames : List String :=
  ["us-ascii", "ascii", "646", "iso646-us", "utf8", "utf_8", "u8", "utf", "cp65001", "utf-8-sig"]

/-- The encoding to go on with when a declaration names one: none inside if it contradicts the bytes,
and none at all if it is not known. -/
def agree (found : Encoding) (name : String) : Option (Option Encoding) :=
  let name := name.map Char.toLower
  let isWide : Bool := match found with
    | .utf16 _ => true
    | _ => false
  let given : Option (Bool × Encoding) :=
    if name == "utf-8" then some (false, .utf8)
    else if latin1Names.contains name then some (false, .latin1)
    else if asciiNames.contains name then some (false, .ascii)
    else if name == "utf-16" then some (true, if isWide then found else .utf16 true)
    else if name == "utf-16be" then some (true, .utf16 true)
    else if name == "utf-16le" then some (true, .utf16 false)
    else none
  given.map fun (wide, encoding) =>
    if wide != isWide || (wide && encoding != found) then none else some encoding

end Encoding
end Intake.Markup
