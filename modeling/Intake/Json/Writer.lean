import Intake.Number.Decimal
import Intake.Value.Display

/-!
Writing values as documents in ASCII. Entries are sorted by their keys; a value that has no form of its
own is written as its text.
-/

namespace Intake.Json

/-- Why a value cannot be written: two keys have no order, or a key has no text. -/
inductive WriteFault where
  | unordered (left right : String)
  | keyType (found : String)
deriving DecidableEq, Repr

/-- A character in a quoted text. -/
def escapedUnit (n : Nat) : String := "\\u" ++ Text.hexText 4 n

/-- A code in a quoted text; codes beyond sixteen bits are two units. -/
def escapedCode (code : Nat) : String :=
  if code == 34 then "\\\""
  else if code == 92 then "\\\\"
  else if code == 10 then "\\n"
  else if code == 13 then "\\r"
  else if code == 9 then "\\t"
  else if code == 12 then "\\f"
  else if code == 8 then "\\b"
  else if 32 ≤ code && code < 127 then String.singleton (Char.ofNat code)
  else if code < 0x10000 then escapedUnit code
  else
    let n := code - 0x10000
    escapedUnit (0xD800 + n / 1024) ++ escapedUnit (0xDC00 + n % 1024)

/-- Codes in quotes. -/
def quotedCodes (codes : List Nat) : String :=
  let quote := String.singleton (Char.ofNat 34)
  quote ++ String.join (codes.map escapedCode) ++ quote

/-- The codes of a text. -/
def codesOf (s : String) : List Nat := s.toList.map Char.toNat

/-- A text in quotes. -/
def quotedText (s : String) : String := quotedCodes (codesOf s)

/-- Numbers that are not finite are written as words. -/
def numberStyle : Number.ShortestStyle := { Number.plainStyle with nan := "NaN", infinity := "Infinity" }

/-- The codes of the text of a key. -/
def keyCodes : Value → Except WriteFault (List Nat)
  | .text s => .ok (codesOf s)
  | .brokenText codes => .ok codes
  | .int i => .ok (codesOf (toString i))
  | .bool b => .ok (codesOf (if b then "true" else "false"))
  | .float x => .ok (codesOf (Number.shortestText numberStyle x))
  | .null => .ok (codesOf "null")
  | .member _ _ .text (.text s) => .ok (codesOf s)
  | .member _ _ .integer (.int i) => .ok (codesOf (toString i))
  | v => .error (.keyType v.typeName)

/-- Whether a number is less than another. -/
def sizeLt (a b : Value.Size) : Bool :=
  match a, b with
  | .whole i, .whole j => i < j
  | .real x, .real y => x.lt y
  | .whole i, .real y => ((Binary64.ofInt? i).map fun x => x.lt y).getD false
  | .real x, .whole j => ((Binary64.ofInt? j).map x.lt).getD false

/-- The codes of a key that is a text. -/
def textCodes? : Value → Option (List Nat)
  | .brokenText codes => some codes
  | v => v.text?.map codesOf

/-- Whether a key comes before another; none where keys of their types have no order. Texts are in the
order of their codes. -/
def keyLt? (a b : Value) : Option Bool :=
  match a.size?, b.size?, textCodes? a, textCodes? b with
  | some m, some n, _, _ => some (sizeLt m n)
  | _, _, some s, some t => some (s < t)
  | _, _, _, _ => none

/-- Two neighbours whose keys have no order. -/
def unordered? : List (Value × String) → Option WriteFault
  | (a, _) :: (b, t) :: rest =>
    if (keyLt? b a).isNone then some (.unordered b.typeName a.typeName) else unordered? ((b, t) :: rest)
  | _ => none

/-- The entries in the order of their keys. -/
def sortEntries (entries : List (Value × String)) : Except WriteFault (List (Value × String)) :=
  match unordered? entries with
  | some fault => .error fault
  | none => .ok (entries.mergeSort fun a b => (keyLt? b.1 a.1) != some true)

mutual

/-- A value as a document. -/
def dump : Value → Except WriteFault String
  | .null => .ok "null"
  | .bool b => .ok (if b then "true" else "false")
  | .int i => .ok (toString i)
  | .float x => .ok (Number.shortestText numberStyle x)
  | .text s => .ok (quotedText s)
  | .brokenText codes => .ok (quotedCodes codes)
  | .member _ _ .text (.text s) => .ok (quotedText s)
  | .member _ _ .integer (.int i) => .ok (toString i)
  | .list items | .tuple items => do
    return "[" ++ ", ".intercalate (← dumpItems items) ++ "]"
  | .dict entries => do
    let sorted ← sortEntries (← dumpEntries entries)
    let texts ← sorted.mapM fun (k, t) => do return quotedCodes (← keyCodes k) ++ ": " ++ t
    return "\x7b" ++ ", ".intercalate texts ++ "\x7d"
  | v => .ok (quotedText v.display)

def dumpItems : List Value → Except WriteFault (List String)
  | [] => .ok []
  | v :: rest => do return (← dump v) :: (← dumpItems rest)

def dumpEntries : List (Value × Value) → Except WriteFault (List (Value × String))
  | [] => .ok []
  | (k, v) :: rest => do return (k, ← dump v) :: (← dumpEntries rest)

end

/-- A code in a quoted text that keeps all characters with a shape. -/
def plainCode (code : Nat) : String :=
  if code < 128 then
    if code == 127 then String.singleton (Char.ofNat 127) else escapedCode code
  else String.singleton (Char.ofNat code)

/-- A text in quotes that keeps characters beyond ASCII. -/
def plainText (s : String) : String :=
  let quote := String.singleton (Char.ofNat 34)
  quote ++ String.join (s.toList.map fun c => plainCode c.toNat) ++ quote

mutual

/-- A record's compact document: entries in their order, numbers that are not finite left out. -/
def compact : Value → String
  | .null => "null"
  | .bool b => if b then "true" else "false"
  | .int i => toString i
  | .float x => if x.isSpecial then "null" else Number.text x
  | .text s => plainText s
  | .brokenText codes => quotedCodes codes
  | .bytes bs => plainText ((Text.utf8? bs).getD (Text.latin1 bs))
  | .moment m => plainText m.zuluText
  | .day d => plainText d.text
  | .uuid u => plainText u.text
  | .member _ _ _ value => compact value
  | .list items | .tuple items | .set _ items => "[" ++ ",".intercalate (compactItems items) ++ "]"
  | .dict entries => "\x7b" ++ ",".intercalate (compactEntries entries) ++ "\x7d"
  | .record _ attributes => "\x7b" ++ ",".intercalate (compactAttributes attributes) ++ "\x7d"

def compactItems : List Value → List String
  | [] => []
  | v :: rest => compact v :: compactItems rest

def compactEntries : List (Value × Value) → List String
  | [] => []
  | (k, v) :: rest => (plainText k.display ++ ":" ++ compact v) :: compactEntries rest

def compactAttributes : List (String × Value) → List String
  | [] => []
  | (name, v) :: rest => (plainText name ++ ":" ++ compact v) :: compactAttributes rest

end

mutual

/-- A value as documents in another notation can hold it: texts for what they have no form for. -/
def plain : Value → Value
  | .float x => if x.isSpecial then .null else .float x
  | .bytes bs => .text ((Text.utf8? bs).getD (Text.latin1 bs))
  | .moment m => .text m.zuluText
  | .day d => .text d.text
  | .uuid u => .text u.text
  | .member _ _ _ value => plain value
  | .list items | .tuple items | .set _ items => .list (plainItems items)
  | .dict entries => .dict (plainEntries entries)
  | .record _ attributes => .dict (plainAttributes attributes)
  | v => v

def plainItems : List Value → List Value
  | [] => []
  | v :: rest => plain v :: plainItems rest

def plainEntries : List (Value × Value) → List (Value × Value)
  | [] => []
  | (k, v) :: rest => (.text (plain k).display, plain v) :: plainEntries rest

def plainAttributes : List (String × Value) → List (Value × Value)
  | [] => []
  | (name, v) :: rest => (.text name, plain v) :: plainAttributes rest

end

end Intake.Json
