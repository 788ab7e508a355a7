import Intake.Request.Basic
import Intake.Text.Digits
import Intake.Text.Pieces

/-!
Pairs of names and values in one text: `&` stands between pairs and the first `=` of a pair between
its name and its value. Blanks are written as `+` and any byte as `%` with two digits. Empty pairs do
not count, and a pair without `=` has an empty value.
-/

namespace Intake.Request

/-- The bytes of a run of simple characters; a sign without two digits behind it stands for itself. -/
def escapedBytes : List Char → List UInt8
  | '%' :: a :: b :: rest =>
    match Text.hexValue? a, Text.hexValue? b with
    | some high, some low => UInt8.ofNat (high * 16 + low) :: escapedBytes rest
    | _, _ => UInt8.ofNat '%'.toNat :: escapedBytes (a :: b :: rest)
  | c :: rest => UInt8.ofNat c.toNat :: escapedBytes rest
  | [] => []

/-- The characters of a run that was read backwards. -/
def runChars (run : List Char) : List Char := (Text.lossyUtf8 (escapedBytes run.reverse)).toList

/-- Resolves the escapes in each run of simple characters on its own; `run` is the run so far,
backwards. -/
def unescapeFrom (run : List Char) : List Char → List Char
  | [] => runChars run
  | c :: rest =>
    if c.toNat < 128 then unescapeFrom (c :: run) rest
    else runChars run ++ c :: unescapeFrom [] rest

/-- A name or a value as it was meant. -/
def unescape (cs : List Char) : String :=
  String.ofList (unescapeFrom [] (cs.map fun c => if c == '+' then ' ' else c))

/-- One pair. -/
def pairOf (cs : List Char) : String × String :=
  let (name, value) := Text.cutChars '=' cs
  (unescape name, unescape (value.getD []))

/-- The pairs of a text. -/
def pairsOf (s : String) : List (String × String) :=
  ((Text.splitChars '&' s.toList).filter fun piece => !piece.isEmpty).map pairOf

/-- The pairs of the query; its bytes stand for the characters of their codes. -/
def queryPairs (r : Request) : List (String × String) :=
  pairsOf (Text.latin1 (Text.utf8Bytes r.query))

/-- The values of a name, in order. -/
def valuesOf (pairs : List (String × String)) (name : String) : List String :=
  (pairs.filter fun p => p.1 == name).map (·.2)

/-- The names, each once, in order. -/
def namesOf (pairs : List (String × String)) : List String :=
  (pairs.map (·.1)).foldl (fun names n => if names.contains n then names else names ++ [n]) []

end Intake.Request
