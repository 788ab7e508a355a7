import Intake.Request.HeaderValue
import Intake.Text.Utf8

/-!
Bodies of several parts. A line of two hyphens and the boundary stands before each part, and one with
two more hyphens after the last; a part has headers, an empty line and data. A part that does not end
does not count. Parts name the field that they are for; those with a file name are uploads.
-/

namespace Intake.Request

/-- Why a body of several parts cannot be read. -/
inductive MultipartFault where
  | missingBoundary
  | malformed
  | missingName
deriving DecidableEq, Repr, Inhabited

/-- The words for a fault. -/
def MultipartFault.message : MultipartFault → String
  | .missingBoundary => "Missing boundary in multipart."
  | .malformed => "Invalid multipart data."
  | .missingName =>
    let quote := String.singleton Text.doubleQuote
    "The Content-Disposition header field " ++ quote ++ "name" ++ quote ++ " must be provided."

/-- What a form holds under a name: a text, or an upload. -/
inductive FormEntry where
  | text (s : String)
  | upload
deriving DecidableEq, Repr, Inhabited

def carriageReturn : UInt8 := 13

def lineFeed : UInt8 := 10

def hyphen : UInt8 := 45

def colon : UInt8 := 58

def space : UInt8 := 32

/-- Whether a byte may stand in the name of a header. -/
def isTokenByte (b : UInt8) : Bool :=
  let c := Char.ofNat b.toNat
  c.isAlphanum || ("!#$%&*+-.^_|~".toList ++ [Text.singleQuote, Char.ofNat 96]).contains c

/-- What follows given bytes: nothing because the input ends too early, or the rest, or a fault. -/
def afterBytes : List UInt8 → List UInt8 → Except MultipartFault (Option (List UInt8))
  | [], rest => .ok (some rest)
  | _ :: _, [] => .ok none
  | b :: bs, c :: cs => if b == c then afterBytes bs cs else .error .malformed

/-- What stands after the first boundary: a part, or nothing because the input ends. -/
def firstPart? (boundary body : List UInt8) : Except MultipartFault (Option (List UInt8)) := do
  let body := body.dropWhile fun b => b == carriageReturn || b == lineFeed
  match ← afterBytes (hyphen :: hyphen :: boundary) body with
  | some (b :: rest) =>
    if b == hyphen then return (← afterBytes [hyphen] rest).bind fun _ => none
    else afterBytes [carriageReturn, lineFeed] (b :: rest)
  | _ => return none

/-- The name of a header and what stands after the colon. -/
def headerName : List UInt8 → Except MultipartFault (Option (List UInt8 × List UInt8))
  | [] => .ok none
  | b :: rest =>
    if b == colon then .ok (some ([], rest))
    else if isTokenByte b then do
      return (← headerName rest).map fun (name, rest) => (b :: name, rest)
    else .error .malformed

/-- The disposition of a part, the last one if there are several, and what stands after its headers.
Every header takes at least one byte, so the bytes bound the headers. -/
def partHeaders : (fuel : Nat) → Option String → List UInt8 →
    Except MultipartFault (Option (Option String × List UInt8))
  | 0, _, _ | _, _, [] => .ok none
  | fuel + 1, disposition, b :: rest => do
    if b == carriageReturn then
      return (← afterBytes [lineFeed] rest).map fun rest => (disposition, rest)
    let some (name, rest) ← headerName (b :: rest) | return none
    if name.isEmpty then throw .malformed
    let rest := rest.dropWhile (· == space)
    let value := rest.takeWhile (· != carriageReturn)
    let some rest ← afterBytes [carriageReturn, lineFeed] (rest.drop value.length) | return none
    let disposition :=
      if Text.lower (Text.latin1 name) == "content-disposition" then some (Text.latin1 value)
      else disposition
    partHeaders fuel disposition rest

/-- What stands after the data of a part: another part, or the end of all parts. -/
inductive After where
  | part (rest : List UInt8)
  | done
deriving Repr

/-- How much of the bytes is a given beginning, if they begin so. -/
def afterStart? : List UInt8 → List UInt8 → Option (List UInt8)
  | [], rest => some rest
  | _ :: _, [] => none
  | b :: bs, c :: cs => if b == c then afterStart? bs cs else none

/-- The data of a part, and what stands after it. A boundary counts only at the beginning of a line and
with a line end or two hyphens behind it; `skip` bytes of a boundary that did not count are passed
over. -/
def partData (delimiter : List UInt8) (skip : Nat) : List UInt8 → Option (List UInt8 × After)
  | [] => none
  | b :: rest =>
    let pass (skip : Nat) := (partData delimiter skip rest).map fun (data, after) => (b :: data, after)
    match skip with
    | k + 1 => pass k
    | 0 =>
      match afterStart? delimiter (b :: rest) with
      | none => pass 0
      | some (c :: d :: rest) =>
        if c == carriageReturn && d == lineFeed then some ([], .part rest)
        else if c == hyphen && d == hyphen then some ([], .done)
        else if c == carriageReturn || c == hyphen then pass delimiter.length
        else pass (delimiter.length - 1)
      | some _ => none

/-- How the texts of a form are written. -/
def decodeText (charset : String) (bytes : List UInt8) : String :=
  let name := (Text.lower charset).map fun c => if c == '_' then '-' else c
  if ["utf-8", "utf8", "u8", "utf", "cp65001"].contains name then
    (Text.utf8? bytes).getD (Text.latin1 bytes)
  else Text.latin1 bytes

/-- The bytes of a text whose characters stand for the bytes of their codes. -/
def latin1Bytes (s : String) : List UInt8 := s.toList.map fun c => UInt8.ofNat c.toNat

/-- Reads parts until they end. Every part takes at least one byte, so the bytes bound the parts. -/
def partsFrom (charset : String) (delimiter : List UInt8) : (fuel : Nat) → List UInt8 →
    Except MultipartFault (List (String × FormEntry))
  | 0, _ => .ok []
  | fuel + 1, bytes => do
    let some (disposition, rest) ← partHeaders (bytes.length + 1) none bytes | return []
    let value := HeaderValue.ofText (disposition.getD "")
    let some name := value.option? "name" | throw .missingName
    let some (data, after) := partData delimiter 0 rest | return []
    let entry := if (value.option? "filename").isSome then .upload
      else .text (decodeText charset data)
    let others ← match after with
      | .part rest => partsFrom charset delimiter fuel rest
      | .done => pure []
    return (decodeText charset (latin1Bytes name), entry) :: others

/-- The entries of a body of several parts; its header says what the boundary is. -/
def readMultipart (header : HeaderValue) (body : List UInt8) :
    Except MultipartFault (List (String × FormEntry)) := do
  let some boundary := header.option? "boundary" | throw .missingBoundary
  let boundary := latin1Bytes boundary
  let charset := (header.option? "charset").getD "utf-8"
  match ← firstPart? boundary body with
  | none => return []
  | some rest =>
    let delimiter := carriageReturn :: lineFeed :: hyphen :: hyphen :: boundary
    partsFrom charset delimiter (body.length + 1) rest

end Intake.Request
