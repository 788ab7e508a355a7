import Intake.Binding.Offer
import Intake.Validation.Record

/-!
Reading fields from the texts that parts of a request offer. The first offer with a text under the name
of a field counts; a field that is bound to one part is read from that part alone. Texts that cannot
be read are told as errors and leave their fields out.
-/

namespace Intake.Binding

/-- The entries of a document, and the errors on the way. -/
structure Decoded where
  entries : List (Value × Value)
  errors : List FieldError
deriving Repr, Inhabited

/-- What was read for one field, if anything, and the errors on the way. -/
structure Reading where
  value : Option Value
  errors : List FieldError
deriving Repr, Inhabited

/-- Nothing. -/
def Reading.nothing : Reading := ⟨none, []⟩

/-- The layout by which the texts of a field are read. -/
def layoutOf (d : Descriptor) : Option String :=
  match Rule.find? d.rules "format" with
  | some r => if r.arg == some "email" then none else r.arg
  | none => none

/-- Reads a text as a value of a kind. -/
def readText (kind : Kind) (raw : String) (layout : Option String) :
    Except Fault (Except Unreadable Value) :=
  (kind.read raw layout).mapError .pattern

/-- The word for a text of a kind among others. -/
def itemWord : Kind → String
  | .moment => "time"
  | .uuid => "UUID"
  | kind => kind.label

/-- Reads the items of an array. -/
def readItems (d : Descriptor) (path : String) (raws : List String) :
    Except Fault (List Value × List FieldError) := do
  let kind := d.elementKind.getD .string
  if kind == .record then return ([], [])
  let outcomes ← raws.mapM fun raw => readText kind raw (layoutOf d)
  return (outcomes.filterMap Except.toOption,
    (outcomes.filter fun o => o.toOption.isNone).map fun _ =>
      ⟨path, "invalid " ++ itemWord kind ++ " in slice"⟩)

/-- The kind of the keys of a map. -/
def mapKeyKind (c : Catalogue) (d : Descriptor) : Kind :=
  match d.type.unwrap.1 with
  | .dict key _ => c.kindOf key.unwrap.1
  | _ => .string

/-- A name behind the names of the records around it. -/
def keyUnder (base name : String) : String :=
  if base.isEmpty then name else base ++ "." ++ name

/-- What stands in the brackets of a key behind a name. -/
def bracketed? (name key : String) : Option String :=
  match Text.afterStart? (name ++ "[").toList key.toList with
  | some rest => if rest.getLast? == some ']' then some (String.ofList rest.dropLast) else none
  | none => none

/-- Reads one entry of a map. -/
def readMember (c : Catalogue) (d : Descriptor) (path : String) (entry : String) (raws : List String) :
    Except Fault (Option (Value × Value) × List FieldError) := do
  let problem (what why : String) : FieldError :=
    ⟨path, "invalid map " ++ what ++ " " ++ Text.enclosed entry ++ ": " ++ why⟩
  match ← readText (mapKeyKind c d) entry none with
  | .error why => return (none, [problem "key" why.message])
  | .ok key =>
    let kind := d.elementKind.getD .string
    match raws with
    | [] => return (none, [])
    | raw :: _ =>
      if kind == .record then return (none, [])
      match ← readText kind raw (layoutOf d) with
      | .ok value => return (some (key, value), [])
      | .error why => return (none, [problem "value for key" why.message])

/-- Reads the entries of a map from one offer. -/
def readMap (c : Catalogue) (d : Descriptor) (name path : String) (o : Offer) :
    Except Fault (List (Value × Value) × List FieldError) := do
  let members ← o.keys.filterMapM fun key =>
    match bracketed? name key with
    | none => pure none
    | some entry => do return some (← readMember c d path entry (← o.read key))
  return (Value.dictOf (members.filterMap (·.1)), members.flatMap (·.2))

/-- Reads a map from the first offer that has entries; the errors of those before it are told, too. -/
def readMaps (c : Catalogue) (d : Descriptor) (base path : String) :
    List Offer → Except Fault Reading
  | [] => .ok .nothing
  | o :: rest => do
    let (entries, errors) ← readMap c d (keyUnder base (d.nameIn o.source)) path o
    if entries.isEmpty then
      let later ← readMaps c d base path rest
      return { later with errors := errors ++ later.errors }
    else return ⟨some (.dict entries), errors⟩

/-- The texts of the first offer that has any. -/
def firstTexts (d : Descriptor) (base : String) : List Offer → Except Fault (List String)
  | [] => .ok []
  | o :: rest => do
    let raws ← o.read (keyUnder base (d.nameIn o.source))
    if raws.isEmpty then firstTexts d base rest else return raws

/-- Reads an array or a single value. -/
def readLeaf (d : Descriptor) (base path : String) (offers : List Offer) : Except Fault Reading := do
  let raws ← firstTexts d base offers
  match raws with
  | [] => return .nothing
  | raw :: _ =>
    if d.kind == .array then
      let (items, errors) ← readItems d path raws
      return ⟨some (.list items), errors⟩
    else if raw.isEmpty then return .nothing
    else match ← readText d.kind raw (layoutOf d) with
      | .ok value => return ⟨some value, []⟩
      | .error why => return ⟨none, [⟨path, why.message⟩]⟩

/-- The offers that a field may be read from. -/
def admitted (d : Descriptor) (offers : List Offer) : List Offer :=
  offers.filter fun o => d.source == .auto || d.source == o.source

/-- Reads one field, where records are read by their models. -/
def readField (c : Catalogue) (record : String → List Offer → String → String → Except Fault Decoded)
    (offers : List Offer) (base path : String) (d : Descriptor) : Except Fault Reading := do
  let path := Validation.join path d.wireName
  let offers := admitted d offers
  let nested := offers.filter fun o => o.source.isNested
  match d.kind, d.model with
  | .record, none => return .nothing
  | .record, some model =>
    if nested.isEmpty then return .nothing
    let inner ← record model nested (keyUnder base d.formName) path
    return ⟨if inner.entries.isEmpty then none else some (.dict inner.entries), inner.errors⟩
  | .map, _ => readMaps c d base path nested
  | _, _ => readLeaf d base path offers

/-- Reads fields in their order. -/
def readFields (read : Descriptor → Except Fault Reading) : List Descriptor → Except Fault Decoded
  | [] => .ok ⟨[], []⟩
  | d :: rest => do
    if d.formSkip then readFields read rest
    else
      let found ← read d
      let others ← readFields read rest
      let entries := match found.value with
        | some v => (.text d.wireName, v) :: others.entries
        | none => others.entries
      return ⟨entries, found.errors ++ others.errors⟩

/-- Reads a record. Records are read whether anything is offered for them or not, so a model that
contains itself is read for ever, which the depth ends. -/
def readRecord (c : Catalogue) : (depth : Nat) → String → List Offer → String → String →
    Except Fault Decoded
  | 0, _, _, _, _ => .error .tooDeep
  | depth + 1, model, offers, base, path =>
    match c.model? model with
    | none => .ok ⟨[], []⟩
    | some m => do
      let fields ← Action.describe c m
      let found ← readFields (readField c (readRecord c depth) offers base path) fields
      return { found with entries := Value.dictOf found.entries }

/-- The depth at which a model must contain itself, with the same offers left. -/
def Catalogue.depthBound (c : Catalogue) (offers : List Offer) : Nat :=
  (c.models.length + 1) * (offers.length + 1)

/-- Reads a record of a model from what is offered. -/
def decodeStrings (c : Catalogue) (model : String) (offers : List Offer) : Except Fault Decoded :=
  readRecord c (Catalogue.depthBound c offers) model offers "" ""

end Intake.Binding
