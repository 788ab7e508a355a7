import Intake.Text.Blank
import Intake.Text.Digits
import Intake.Text.Pieces
import Intake.Text.Quoted

/-!
Universally unique identifiers: numbers of 128 bits, written as 32 hexadecimal digits in five groups.
Texts are read in two ways. The lenient way removes marks and hyphens wherever they stand; the plain
way knows four written forms and names the fault of any other.
-/

namespace Intake

/-- An identifier, as its number. -/
structure Uuid where
  value : Nat
deriving DecidableEq, Repr, Inhabited

namespace Uuid

/-- The identifier that stands for none. -/
def nil : Uuid := ⟨0⟩

/-- The digits of the groups of an identifier. -/
def text (u : Uuid) : String :=
  let cs := (Text.hexText 32 u.value).toList
  let group (start count : Nat) : String := String.ofList ((cs.drop start).take count)
  "-".intercalate [group 0 8, group 8 4, group 12 4, group 16 4, group 20 12]

/-- The value of a hexadecimal digit, where decimal digits may be of any script. -/
def digit? (c : Char) : Option Nat :=
  (Text.digitValue? c).orElse fun _ => Text.hexValue? c

/-- The number of hexadecimal digits with single low lines between them. -/
def digits? : (value : Nat) → List Char → Option Nat
  | _, [] => none
  | value, [c] => (digit? c).map (16 * value + ·)
  | value, c :: '_' :: rest => do digits? (16 * value + (← digit? c)) rest
  | value, c :: rest => do digits? (16 * value + (← digit? c)) rest

/-- The digits after a mark of the base, if the mark is there. -/
def dropBase : List Char → List Char
  | '0' :: x :: rest =>
    if x == 'x' || x == 'X' then
      match rest with
      | '_' :: rest => rest
      | rest => rest
    else '0' :: x :: rest
  | cs => cs

/-- The number that a hexadecimal text denotes; blanks at its ends, a plus sign and a mark of the
base are read over. -/
def hexadecimal? (cs : List Char) : Option Nat :=
  match Text.trimBoth Text.isWhiteSpace cs with
  | '-' :: rest => (digits? 0 (dropBase rest)).bind fun n => if n = 0 then some 0 else none
  | '+' :: rest => digits? 0 (dropBase rest)
  | rest => digits? 0 (dropBase rest)

/-- Whether a character is a brace. -/
def isBrace (c : Char) : Bool := c == '\x7b' || c == '\x7d'

/-- The identifier that a text denotes when marks, braces at the ends and hyphens are removed. -/
def ofLenient? (s : String) : Option Uuid := do
  let bare := Text.remove "uuid:" (Text.remove "urn:" s)
  let cs := (Text.trimBoth isBrace bare.toList).filter (· != '-')
  if cs.length ≠ 32 then none
  return ⟨← hexadecimal? cs⟩

/-- Why a text is none of the written forms. -/
inductive Fault where
  | character (c : Char) (index : Nat)
  | length (found : Nat)
  | byteLength (found : Nat)
  | groupCount (found : Nat)
  | groupLength (group expected found : Nat)
deriving DecidableEq, Repr

/-- The words for a fault. -/
def Fault.message : Fault → String
  | .character c index =>
    "invalid character: found " ++ String.ofList [Char.ofNat 96, c, Char.ofNat 96] ++ " at " ++ toString index
  | .length found => "invalid length: found " ++ toString found
  | .byteLength found => "invalid length: expected 16 bytes, found " ++ toString found
  | .groupCount found => "invalid group count: expected 5, found " ++ toString found
  | .groupLength group expected found =>
    "invalid group length in group " ++ toString group ++ ": expected " ++ toString expected
      ++ ", found " ++ toString found

/-- The number of plain hexadecimal digits. -/
def plainHex? (cs : List Char) : Option Nat :=
  cs.foldlM (fun n c => (Text.hexValue? c).map (16 * n + ·)) 0

/-- The places of the hyphens. -/
def hyphenPlaces : List Nat := [8, 13, 18, 23]

/-- The number of a hyphenated form of 36 characters. -/
def hyphenated? (cs : List Char) : Option Nat :=
  if cs.length = 36 && hyphenPlaces.all fun i => cs[i]? == some '-' then
    plainHex? (cs.take 8 ++ (cs.drop 9).take 4 ++ (cs.drop 14).take 4 ++ (cs.drop 19).take 4 ++ cs.drop 24)
  else none

/-- The characters between the marks of a written form, how many stand before them, and whether
there are no marks. -/
def unwrap (cs : List Char) : List Char × Nat × Bool :=
  match Text.afterStart? "urn:uuid:".toList cs with
  | some rest => (rest, 9, false)
  | none =>
    match cs with
    | '\x7b' :: rest =>
      if rest.getLast? == some '\x7d' then (rest.dropLast, 1, false) else (cs, 0, true)
    | _ => (cs, 0, true)

/-- The first character that is neither a hyphen nor a hexadecimal digit, and its place in bytes. -/
def strayFrom? : (place : Nat) → List Char → Option (Char × Nat)
  | _, [] => none
  | place, c :: rest =>
    if c == '-' || (Text.hexValue? c).isSome then strayFrom? (place + c.utf8Size) rest
    else some (c, place)

/-- The fault of a text that is none of the written forms. -/
def faultOf (cs : List Char) : Fault :=
  let (body, offset, bare) := unwrap cs
  match strayFrom? offset body with
  | some (c, place) => .character c place
  | none =>
    let groups := Text.splitChars '-' body
    if groups.length = 1 && bare then .length cs.length
    else if groups.length ≠ 5 then .groupCount groups.length
    else
      let wrong := ((groups.map List.length).zip [8, 4, 4, 4, 12]).findIdx? fun (n, m) => n ≠ m
      match wrong with
      | some i => .groupLength i ([8, 4, 4, 4, 12].getD i 0) ((groups.map List.length).getD i 0)
      | none => .length cs.length

/-- The identifier that one of the written forms denotes: 32 digits, or 36 characters with hyphens,
the latter perhaps in braces or after their full name. -/
def ofText? (s : String) : Except Fault Uuid :=
  let cs := s.toList
  let (body, _, bare) := unwrap cs
  let found := if bare && cs.length = 32 then plainHex? cs else hyphenated? body
  match found with
  | some n => .ok ⟨n⟩
  | none => .error (faultOf cs)

end Uuid
end Intake
