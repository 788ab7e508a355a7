import Intake.Calendar.Moment
import Intake.Number.Binary64
import Intake.Uuid

/-!
The values that fields hold. Numbers compare by what they denote, so a truth value equals the integer
and the double-precision number of the same size; texts compare with members of textual enumerations.
-/

namespace Intake

/-- What the members of an enumeration are besides members. -/
inductive EnumBase where
  | text
  | integer
  | plain
deriving DecidableEq, Repr, Inhabited

/-- A value. Texts with codes that belong to no character are kept as their codes. A record holds the
attributes that are set, in the order of the fields of its model. -/
inductive Value where
  | null
  | bool (b : Bool)
  | int (i : Int)
  | float (x : Binary64)
  | text (s : String)
  | brokenText (codes : List Nat)
  | bytes (bs : List UInt8)
  | moment (m : Calendar.Moment)
  | day (d : Calendar.Day)
  | uuid (u : Uuid)
  | member (enumeration name : String) (base : EnumBase) (value : Value)
  | list (items : List Value)
  | tuple (items : List Value)
  | set (frozen : Bool) (items : List Value)
  | dict (entries : List (Value × Value))
  | record (model : String) (attributes : List (String × Value))
deriving BEq, Repr, Inhabited

namespace Value

/-- A number as an integer or a double-precision number. -/
inductive Size where
  | whole (i : Int)
  | real (x : Binary64)
deriving DecidableEq, Repr

/-- The number that a value is. -/
def size? : Value → Option Size
  | .bool b => some (.whole (if b then 1 else 0))
  | .int i => some (.whole i)
  | .float x => some (.real x)
  | .member _ _ .integer value => value.size?
  | _ => none

/-- The text that a value is. -/
def text? : Value → Option String
  | .text s => some s
  | .member _ _ .text (.text s) => some s
  | _ => none

/-- Whether two numbers are equal. -/
def Size.same : Size → Size → Bool
  | .whole i, .whole j => i == j
  | .whole i, .real x => x.eqInt i
  | .real x, .whole i => x.eqInt i
  | .real x, .real y => x.eq y

/-- Whether two values that hold no others are equal. -/
def sameScalar (a b : Value) : Bool :=
  match a.size?, b.size? with
  | some m, some n => m.same n
  | some _, none | none, some _ => false
  | none, none =>
    match a.text?, b.text? with
    | some s, some t => s == t
    | some _, none | none, some _ => false
    | none, none =>
      match a, b with
      | .null, .null => true
      | .brokenText cs, .brokenText ds => cs == ds
      | .bytes bs, .bytes cs => bs == cs
      | .moment m, .moment n => m.same n
      | .day d, .day e => d == e
      | .uuid u, .uuid v => u == v
      | .member e m _ _, .member f n _ _ => e == f && m == n
      | _, _ => false

mutual

/-- Whether two values are equal. Sets and dictionaries compare without order; records compare only
within one model. -/
def same : Value → Value → Bool
  | .list xs, .list ys => sameList xs ys
  | .tuple xs, .tuple ys => sameList xs ys
  | .set _ xs, .set _ ys => xs.length == ys.length && eachIn xs ys
  | .dict xs, .dict ys => xs.length == ys.length && eachEntryIn xs ys
  | .record m xs, .record n ys => m == n && xs.length == ys.length && eachAttributeIn xs ys
  | .list _, _ | .tuple _, _ | .set _ _, _ | .dict _, _ | .record _ _, _ => false
  | a, b => sameScalar a b

def sameList : List Value → List Value → Bool
  | [], [] => true
  | x :: xs, y :: ys => same x y && sameList xs ys
  | _, _ => false

def eachIn : List Value → List Value → Bool
  | [], _ => true
  | x :: xs, ys => ys.any (same x) && eachIn xs ys

def eachEntryIn : List (Value × Value) → List (Value × Value) → Bool
  | [], _ => true
  | (k, v) :: xs, ys => ys.any (fun e => same k e.1 && same v e.2) && eachEntryIn xs ys

def eachAttributeIn : List (String × Value) → List (String × Value) → Bool
  | [], _ => true
  | (k, v) :: xs, ys => ys.any (fun e => k == e.1 && same v e.2) && eachAttributeIn xs ys

end

/-- The entry of a dictionary under a key. -/
def lookupKey (key : Value) (entries : List (Value × Value)) : Option Value :=
  (entries.find? fun e => same e.1 key).map (·.2)

/-- The entry of a dictionary under a textual key. -/
def lookupText (key : String) (entries : List (Value × Value)) : Option Value :=
  lookupKey (.text key) entries

/-- Puts an entry into a dictionary; one with an equal key keeps its key and its place. -/
def putEntry (key value : Value) : List (Value × Value) → List (Value × Value)
  | [] => [(key, value)]
  | (k, v) :: rest =>
    if same k key then (k, value) :: rest else (k, v) :: putEntry key value rest

/-- A dictionary of entries of which the last with a key counts, in the place of the first. -/
def dictOf (entries : List (Value × Value)) : List (Value × Value) :=
  entries.foldl (fun all e => putEntry e.1 e.2 all) []

/-- The values that equal none before them. -/
def distinct (items : List Value) : List Value :=
  items.foldl (fun kept x => if kept.any (same x) then kept else kept ++ [x]) []

/-- The attribute of a record; none where it is not set. -/
def attribute? (attributes : List (String × Value)) (name : String) : Option Value :=
  attributes.lookup name

/-- Whether a value is nothing. -/
def isNull : Value → Bool
  | .null => true
  | _ => false

/-- The items of a value that has items in a row. -/
def items? : Value → Option (List Value)
  | .list xs | .tuple xs | .set _ xs => some xs
  | _ => none

/-- What one meets when going through a value: items, characters, bytes as numbers, keys, or attributes
with their names. -/
def traverse? : Value → Option (List Value)
  | .dict entries => some (entries.map (·.1))
  | .bytes bs => some (bs.map fun b => .int b.toNat)
  | .brokenText codes => some (codes.map fun code =>
      if code.isValidChar then .text (String.singleton (Char.ofNat code))
      else .brokenText [code])
  | .record _ attributes => some (attributes.map fun (name, v) => .tuple [.text name, v])
  | v =>
    match v.items?, v.text? with
    | some xs, _ => some xs
    | none, some s => some (s.toList.map fun c => .text (String.singleton c))
    | none, none => none

mutual

/-- Whether a value can stand in a set: lists, sets that can grow, dictionaries and records cannot,
nor what holds them. -/
def isHashable : Value → Bool
  | .list _ | .set false _ | .dict _ | .record _ _ => false
  | .tuple xs => areHashable xs
  | _ => true

def areHashable : List Value → Bool
  | [] => true
  | x :: xs => isHashable x && areHashable xs

end

/-- The name of the type of a value, as diagnostics give it. -/
def typeName : Value → String
  | .null => "NoneType"
  | .bool _ => "bool"
  | .int _ => "int"
  | .float _ => "float"
  | .text _ | .brokenText _ => "str"
  | .bytes _ => "bytes"
  | .moment _ => "datetime"
  | .day _ => "date"
  | .uuid _ => "UUID"
  | .member enumeration _ _ _ => enumeration
  | .list _ => "list"
  | .tuple _ => "tuple"
  | .set false _ => "set"
  | .set true _ => "frozenset"
  | .dict _ => "dict"
  | .record model _ => model

end Value
end Intake
