import Intake.Model.Zero
import Intake.Shape.Scalar

/-!
Building values of a type from documents. Every fault is reported, each with the way to it: those of
the fields in their order, then the keys that no field has. Of several choices the one that fits best
is taken, and of those that fit equally well the first.
-/

namespace Intake.Shape

/-- A value that fits, how well it fits, and how many fields the document named if it holds records. -/
structure Fit where
  value : Value
  fitness : Fitness
  fieldsSet : Option Nat
deriving Repr, Inhabited

/-- The outcome of fitting a value. -/
abbrev Fitted := Except (List Rejection) Fit

/-- The outcome of a scalar as an outcome of any type. -/
def ofScalar (outcome : Outcome) : Fitted :=
  match outcome with
  | .ok (value, fitness) => .ok ⟨value, fitness, none⟩
  | .error problem => .error [.here problem]

/-- A value that is refused as a whole. -/
def refuse (problem : Problem) : Fitted := .error [.here problem]

/-- The numbers of named fields together. -/
def addFieldsSet : Option Nat → Option Nat → Option Nat
  | some m, some n => some (m + n)
  | some m, none => some m
  | none, n => n

/-- Values that fit, how well the worst does, and how many fields they name. -/
structure Fits where
  values : List Value
  fitness : Fitness
  fieldsSet : Option Nat
deriving Repr, Inhabited

/-- Puts one outcome before others; of faults all are kept. -/
def consFit (step : Step) (first : Fitted) (others : Except (List Rejection) Fits) :
    Except (List Rejection) Fits :=
  match first, others with
  | .ok f, .ok fs =>
    .ok ⟨f.value :: fs.values, f.fitness.worse fs.fitness, addFieldsSet f.fieldsSet fs.fieldsSet⟩
  | .ok _, .error rs => .error rs
  | .error rs, .ok _ => .error (rs.map (·.under step))
  | .error rs, .error ss => .error (rs.map (·.under step) ++ ss)

/-- Fits items in a row to one type. -/
def fitItems (fitItem : Value → Fitted) : (index : Nat) → List Value → Except (List Rejection) Fits
  | _, [] => .ok ⟨[], .exact, none⟩
  | index, v :: rest => consFit (.index index) (fitItem v) (fitItems fitItem (index + 1) rest)

/-- The step to an entry of a dictionary. -/
def stepOf : Value → Step
  | .int i => .index i
  | v => .key v.display

/-- Fits the entries of a dictionary. Keys come before their values, and a fault of a key is placed at
the key. -/
def fitEntries (fitKey fitValue : Value → Fitted) :
    List (Value × Value) → Except (List Rejection) (List (Value × Value) × Fitness × Option Nat)
  | [] => .ok ([], .exact, none)
  | (k, v) :: rest =>
    let step := stepOf k
    let key := fitKey k
    let value := fitValue v
    let others := fitEntries fitKey fitValue rest
    match key, value, others with
    | .ok k, .ok v, .ok (entries, fitness, fieldsSet) =>
      .ok ((k.value, v.value) :: entries, (k.fitness.worse v.fitness).worse fitness,
        addFieldsSet (addFieldsSet k.fieldsSet v.fieldsSet) fieldsSet)
    | key, value, others =>
      let keyFaults := match key with
        | .error rs => rs.map fun r => (r.under (.key "[key]")).under step
        | .ok _ => []
      let valueFaults := match value with
        | .error rs => rs.map (·.under step)
        | .ok _ => []
      let otherFaults := match others with
        | .error rs => rs
        | .ok _ => []
      .error (keyFaults ++ valueFaults ++ otherFaults)

/-- Whether one fit is better than another: by the fields named, or else by how well the values fit. -/
def Fit.betterThan (a b : Fit) : Bool :=
  match b.fieldsSet, a.fieldsSet with
  | some m, some n => if m ≠ n then m < n else b.fitness.rank < a.fitness.rank
  | _, _ => b.fitness.rank < a.fitness.rank

/-- What the choices before have come to: the best fit so far, or their faults. -/
structure Choosing where
  best : Option Fit
  faults : List Rejection

/-- The result of choosing. -/
def Choosing.result (s : Choosing) : Fitted :=
  match s.best with
  | some fit => .ok fit
  | none => .error s.faults

/-- Takes one more choice into account. -/
def Choosing.add (s : Choosing) (label : String) (outcome : Fitted) : Choosing :=
  match outcome with
  | .ok fit =>
    match s.best with
    | some best => if fit.betterThan best then { s with best := some fit } else s
    | none => { s with best := some fit }
  | .error rs =>
    if s.best.isSome then s else { s with faults := s.faults ++ rs.map (·.under (.key label)) }

/-- Whether a fit ends the search: nothing can fit better. -/
def Fit.isPerfect (f : Fit) : Bool := f.fitness == .exact && f.fieldsSet.isNone

mutual

/-- The name of a type in the paths to its faults. -/
def label (c : Catalogue) : Ty → String
  | .str => "str"
  | .int => "int"
  | .float => "float"
  | .bool => "bool"
  | .moment => "datetime"
  | .day => "date"
  | .uuid => "uuid"
  | .any => "any"
  | .bytes => "bytes"
  | .null => "none"
  | .bareList => "list[any]"
  | .bareTuple => "tuple[any, ...]"
  | .bareSet false => "set[any]"
  | .bareSet true => "frozenset[any]"
  | .bareDict => "dict[any,any]"
  | .enumeration _ => "enum"
  | .record name =>
    match (c.model? name).map (·.strictness) with
    | some Strictness.strict => "function-before[fill_zero_values(), " ++ name ++ "]"
    | _ => name
  | .list item => "list[" ++ label c item ++ "]"
  | .set false item => "set[" ++ label c item ++ "]"
  | .set true item => "frozenset[" ++ label c item ++ "]"
  | .tuple items => "tuple[" ++ ", ".intercalate (labels c items) ++ "]"
  | .sequence item => "tuple[" ++ label c item ++ ", ...]"
  | .dict key value => "dict[" ++ label c key ++ "," ++ label c value ++ "]"
  | .union choices => "union[" ++ ",".intercalate (labels c choices) ++ "]"
  | .annotated inner => label c inner
  | .literal values => "literal[" ++ ",".intercalate (values.map Value.innerText) ++ "]"

def labels (c : Catalogue) : List Ty → List String
  | [] => []
  | t :: rest => label c t :: labels c rest

end

/-- A row of values as a list, kept exactly if it was one. -/
def listFit (v : Value) (fits : Fits) : Fit :=
  let fitness := match v with
    | .list _ => fits.fitness
    | _ => .loose
  ⟨.list fits.values, fitness, fits.fieldsSet⟩

/-- A row of values as a set. -/
def setFit (frozen : Bool) (v : Value) (fits : Fits) : Fitted :=
  let bad := (fits.values.zipIdx.filter fun (x, _) => !x.isHashable).map (·.2)
  if !bad.isEmpty then .error (bad.map fun i => ⟨[.index i], .unhashable⟩)
  else
    let fitness := match v with
      | .set _ _ => fits.fitness
      | _ => .loose
    .ok ⟨.set frozen (Value.distinct fits.values), fitness, fits.fieldsSet⟩

/-- A row of values as a tuple. -/
def tupleFit (v : Value) (fits : Fits) : Fit :=
  let fitness := match v with
    | .tuple _ => fits.fitness
    | _ => .loose
  ⟨.tuple fits.values, fitness, fits.fieldsSet⟩

/-- A value without conditions. -/
def fitAny (v : Value) : Fitted := .ok ⟨v, .close, none⟩

mutual

/-- Fits a value to a type, where records are fitted by their names. -/
def fit (c : Catalogue) (record : String → Value → Fitted) : Ty → Value → Fitted
  | .str, v => ofScalar (fitText v)
  | .int, v => ofScalar (fitInt v)
  | .float, v => ofScalar (fitFloat v)
  | .bool, v => ofScalar (fitBool v)
  | .moment, v => ofScalar (fitMoment v)
  | .day, v => ofScalar (fitDay v)
  | .uuid, v => ofScalar (fitUuid v)
  | .bytes, v => ofScalar (fitBytes v)
  | .any, v => fitAny v
  | .null, v => if v.isNull then .ok ⟨.null, .exact, none⟩ else refuse .nullRequired
  | .literal values, v => ofScalar (fitLiteral values v)
  | .enumeration name, v =>
    match c.enumeration? name with
    | some e => ofScalar (fitMember e v)
    | none => fitAny v
  | .record name, v => record name v
  | .annotated inner, v => fit c record inner v
  | .bareList, v =>
    match v.items? with
    | some xs => (fitItems fitAny 0 xs).map (listFit v)
    | none => refuse .listType
  | .list item, v =>
    match v.items? with
    | some xs => (fitItems (fit c record item) 0 xs).map (listFit v)
    | none => refuse .listType
  | .bareSet frozen, v =>
    match v.items? with
    | some xs => (fitItems fitAny 0 xs).bind (setFit frozen v)
    | none => refuse (.setType frozen)
  | .set frozen item, v =>
    match v.items? with
    | some xs => (fitItems (fit c record item) 0 xs).bind (setFit frozen v)
    | none => refuse (.setType frozen)
  | .bareTuple, v =>
    match v.items? with
    | some xs => (fitItems fitAny 0 xs).map (tupleFit v)
    | none => refuse .tupleType
  | .sequence item, v =>
    match v.items? with
    | some xs => (fitItems (fit c record item) 0 xs).map (tupleFit v)
    | none => refuse .tupleType
  | .tuple items, v =>
    match v.items? with
    | some xs => (fitEach c record items.length xs.length 0 items xs).map (tupleFit v)
    | none => refuse .tupleType
  | .bareDict, v =>
    match v with
    | .dict entries => .ok ⟨.dict entries, .exact, none⟩
    | _ => refuse .dictType
  | .dict key value, v =>
    match v with
    | .dict entries =>
      (fitEntries (fit c record key) (fit c record value) entries).map fun (entries, fitness, fieldsSet) =>
        ⟨.dict (Value.dictOf entries), fitness, fieldsSet⟩
    | _ => refuse .dictType
  | .union choices, v =>
    if choices.any Ty.isNull && v.isNull then .ok ⟨.null, .exact, none⟩
    else if (choices.filter fun t => !t.isNull).length ≤ 1 then fitOnly c record choices v
    else choose c record choices v ⟨none, []⟩

/-- Fits a value to the only choice that is not absence. -/
def fitOnly (c : Catalogue) (record : String → Value → Fitted) : List Ty → Value → Fitted
  | [], _ => refuse .nullRequired
  | t :: rest, v => if t.isNull then fitOnly c record rest v else fit c record t v

/-- Fits a value to the best of the choices. -/
def choose (c : Catalogue) (record : String → Value → Fitted) : List Ty → Value → Choosing → Fitted
  | [], _, s => s.result
  | t :: rest, v, s =>
    if t.isNull then choose c record rest v s
    else match fit c record t v with
      | .ok found => if found.isPerfect then .ok found else choose c record rest v (s.add "" (.ok found))
      | .error rs => choose c record rest v (s.add (label c t) (.error rs))

/-- Fits items to the types of their positions. Missing and surplus items are faults. -/
def fitEach (c : Catalogue) (record : String → Value → Fitted) (most found : Nat) :
    (index : Nat) → List Ty → List Value → Except (List Rejection) Fits
  | _, [], [] => .ok ⟨[], .exact, none⟩
  | _, [], _ :: _ => .error [.here (.tooLong "Tuple" most found)]
  | index, t :: rest, [] =>
    match t, fitEach c record most found (index + 1) rest [] with
    | _, .error rs => .error (⟨[.index index], .missing⟩ :: rs)
    | _, .ok _ => .error [⟨[.index index], .missing⟩]
  | index, t :: rest, v :: vs =>
    consFit (.index index) (fit c record t v) (fitEach c record most found (index + 1) rest vs)

end

/-- Checks the bounds that a field sets by itself. -/
def checkBounds (b : Constraints) (f : Fit) : Fitted :=
  let tooSmall (n : Int) : Bool :=
    match f.value with
    | .int i => i < n
    | .float x => ((Binary64.ofInt? n).map x.lt).getD false
    | _ => false
  let tooGreat (n : Int) : Bool :=
    match f.value with
    | .int i => n < i
    | .float x => ((Binary64.ofInt? n).map fun y => y.lt x).getD false
    | _ => false
  match f.value, b.maxLength with
  | .text s, some most =>
    if most < s.length then refuse (.stringTooLong most) else .ok f
  | _, _ =>
    if b.greatest.any tooGreat then refuse (.tooGreat (b.greatest.getD 0))
    else if b.least.any tooSmall then refuse (.tooSmall (b.least.getD 0))
    else .ok f

/-- Fits a value to a field. A row of too many items is refused before its items are looked at. -/
def fitField (c : Catalogue) (record : String → Value → Fitted) (f : Field) (v : Value) : Fitted :=
  let noun? : Option String := match f.type with
    | .list _ | .bareList => some "List"
    | .set false _ | .bareSet false => some "Set"
    | .set true _ | .bareSet true => some "Frozenset"
    | .sequence _ | .tuple _ | .bareTuple => some "Tuple"
    | _ => none
  match noun?, f.constraints.maxLength, v.items? with
  | some noun, some most, some xs =>
    if most < xs.length then refuse (.tooLong noun most xs.length)
    else fit c record f.type v
  | _, _, _ => (fit c record f.type v).bind (checkBounds f.constraints)

/-- The keys under which a model looks for a field, in order. -/
def keysOf (strictness : Strictness) (f : Field) : List String :=
  match strictness with
  | .strict => if f.wireName == f.name then [f.name] else [f.wireName, f.name]
  | .plain => [f.wireName]

/-- The key under which a document holds a field, and the value. -/
def findField? (strictness : Strictness) (f : Field) (entries : List (Value × Value)) :
    Option (String × Value) :=
  (keysOf strictness f).findSome? fun key => (Value.lookupText key entries).map (key, ·)

/-- What the fields of a record have come to: the attributes, the faults, and the keys that were
used. -/
structure Filling where
  attributes : List (String × Value)
  faults : List Rejection
  used : List String

/-- Fits one field of a record. -/
def Filling.add (c : Catalogue) (record : String → Value → Fitted) (strictness : Strictness)
    (entries : List (Value × Value)) (s : Filling) (f : Field) : Filling :=
  match findField? strictness f entries with
  | some (key, v) =>
    match fitField c record f v with
    | .ok fit => { s with attributes := s.attributes ++ [(f.name, fit.value)], used := s.used ++ [key] }
    | .error rs => { s with faults := s.faults ++ rs.map (·.under (.key key)), used := s.used ++ [key] }
  | none =>
    match f.default with
    | some d => { s with attributes := s.attributes ++ [(f.name, d.get)] }
    | none => { s with faults := s.faults ++ [⟨[.key f.wireName], .missing⟩] }

/-- The faults of the keys that no field used, in the order of the document. -/
def strayKeys (used : List String) (entries : List (Value × Value)) : List Rejection :=
  entries.filterMap fun (k, _) =>
    match k.text? with
    | some key => if used.contains key then none else some ⟨[.key key], .extra⟩
    | none => some ⟨[stepOf k], .keyType⟩

/-- Whether a key is a text with codes that belong to no character. -/
def isBrokenKey : Value → Bool
  | .brokenText _ => true
  | _ => false

/-- The faults of a record of which every key must be known: those of its fields, then those of the keys that no
field used. A key that is no proper text cannot be looked up, and nothing else is told of such a record. -/
def strictFaults (s : Filling) (entries : List (Value × Value)) : List Rejection :=
  if entries.any fun e => isBrokenKey e.1 then [⟨[], .stringUnicode⟩] else s.faults ++ strayKeys s.used entries

/-- Builds a record from the entries of a document. -/
def fillRecord (c : Catalogue) (record : String → Value → Fitted) (m : Model)
    (entries : List (Value × Value)) : Fitted :=
  let s := m.fields.foldl (Filling.add c record m.strictness entries) ⟨[], [], []⟩
  let faults := match m.strictness with
    | .strict => strictFaults s entries
    | .plain => s.faults
  if faults.isEmpty then .ok ⟨.record m.name s.attributes, .loose, some s.used.length⟩
  else .error faults

/-- The entries of a document with the zero values of missing keys, where the model asks for them. -/
def completed (c : Catalogue) (m : Model) (entries : List (Value × Value)) :
    Except Problem (List (Value × Value)) :=
  match m.strictness with
  | .plain => .ok entries
  | .strict =>
    match c.describe m with
    | .ok fields => .ok (withZeroValues fields entries)
    | .error e => .error (.valueError e.message)

/-- Fits a value to a record: a record of the model or of one made from it is kept, a document is
built. -/
def fitRecord (c : Catalogue) : (fuel : Nat) → String → Value → Fitted
  | 0, _, _ => refuse .cycle
  | fuel + 1, name, v =>
    match c.model? name, v with
    | some m, .dict entries =>
      match completed c m entries with
      | .ok entries => fillRecord c (fitRecord c fuel) m entries
      | .error problem => refuse problem
    | _, .record other attributes =>
      if c.isA other name then .ok ⟨.record other attributes, if other == name then .exact else .close, none⟩
      else refuse (.modelType name)
    | _, _ => refuse (.modelType name)

/-- The greatest depth of records inside records. -/
def maxDepth : Nat := 255

/-- Builds a record of a model from a document. -/
def build (c : Catalogue) (model : String) (v : Value) : Except (List Rejection) Value :=
  (fitRecord c maxDepth model v).map (·.value)

/-- A record with the given attributes as they are and the defaults of the others; attributes without
either stay unset. -/
def construct (c : Catalogue) (model : String) (given : List (String × Value)) : Value :=
  match c.model? model with
  | none => .record model given
  | some m =>
    .record m.name (m.fields.filterMap fun f =>
      match given.lookup f.name with
      | some v => some (f.name, v)
      | none => f.default.map fun d => (f.name, d.get))

end Intake.Shape
