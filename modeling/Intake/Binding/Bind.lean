import Intake.Binding.Recovery
import Intake.Json.Reader
import Intake.Markup.Document
import Intake.Settings

/-!
Binding a model to a request: to its whole body, to one part of it, or each field to the first part
that has it. A body that cannot be read is a failure; errors of single fields are told beside the
record that could be made.
-/

namespace Intake.Binding

/-- What binding a request leads to. -/
abbrev Outcome := Except Failure Bound

/-- Whether keys that are not known are refused in the body, unless it is said otherwise. -/
def strictByDefault (p : Settings.Provision) : Except Fault Bool :=
  ((Settings.ofProvision p).map Settings.strictJson).mapError .rejected

/-- Binds the body as a document with types. -/
def bindJson (c : Catalogue) (m : Model) (r : Request) (validate : Bool)
    (strict : Except Fault Bool) : Action Outcome := do
  let origin := "bind.json"
  match Json.ofBytes r.body with
  | .error fault =>
    if fault.isTooDeep then throw (.deepDocument fault.message)
    noteUndecoded m origin ("reason", .text fault.message)
    return .error (.invalidJson fault.message origin)
  | .ok document =>
    let strict ← (strict : Except Fault Bool)
    bindDocument c m ⟨origin, validate, strict, true⟩ document

/-- Binds the body as a document of elements. -/
def bindXml (c : Catalogue) (m : Model) (r : Request) (validate : Bool) : Action Outcome := do
  let origin := "bind.xml"
  let document := Markup.ofBytes r.body
  match document with
  | .error flaw =>
    if flaw.isUnknownEncoding then throw (.markup flaw)
    noteUndecoded m origin ("reason", .text flaw.message)
    return .error (.invalidXml flaw.message origin)
  | .ok element =>
    let entries ← (element.entries c m.name : Except Fault (List (Value × Value)))
    bindDocument c m ⟨origin, validate, true, false⟩ (.dict entries)

/-- Binds the body as a form, and behind it the query. -/
def bindForm (c : Catalogue) (m : Model) (r : Request) : Action Outcome := do
  let origin := "bind.form"
  match r.form with
  | .error fault =>
    noteUndecoded m origin ("reason", .text fault.message)
    return .error (.invalidForm fault.message origin)
  | .ok form => return .ok (← bindStrings c m [.ofForm r form])

/-- The types of bodies that are forms. -/
def formTypes : List String := ["application/x-www-form-urlencoded", "multipart/form-data"]

/-- What the parts of a request offer, the first that counts first. -/
def offersOf (r : Request) : Except Request.MultipartFault (List Offer) := do
  let parts : List Offer := [.ofPath r, .ofQuery r, .ofHeaders r, .ofCookies r]
  if formTypes.any fun type => r.contentType.startsWith type then
    return parts ++ [.ofForm r (← r.form)]
  else return parts

/-- The document in the body for fields that are bound to it, if the body is said to be one. A body
that was read as a form cannot be read once more. -/
def bodyDocument (r : Request) : Except Fault (Except Failure (Option Value)) := do
  if !Text.occursIn "json".toList r.contentType.toList then return .ok none
  if (formTypes.any fun type => r.contentType.startsWith type) && r.isForm then throw .consumed
  if r.body.isEmpty then return .ok none
  match Json.ofBytes r.body with
  | .error fault =>
    if fault.isTooDeep then throw (.deepDocument fault.message)
    return .error (.invalidJson fault.message "bind")
  | .ok document => return .ok (some document)

/-- Puts the values that fields have in the body among those that were read elsewhere. -/
def addBodyFields (c : Catalogue) (m : Model) (document : List (Value × Value)) :
    List Descriptor → List (Value × Value) → Except Fault (Except Failure (List (Value × Value)))
  | [], entries => .ok (.ok entries)
  | d :: rest, entries =>
    match Value.lookupText (keyOf d document) document with
    | none => addBodyFields c m document rest entries
    | some v => do
      match ← (jsonValueMismatch c d v d.wireName : Finding) with
      | some reason => return .error (.invalidType reason m.name "bind")
      | none => addBodyFields c m document rest (Value.putEntry (.text d.wireName) v entries)

/-- Binds each field from the first part of the request that has it, or from the part that it is bound
to. -/
def bindAll (c : Catalogue) (m : Model) (r : Request) (validate : Bool) : Action Outcome := do
  let offers ← match offersOf r with
    | .error fault => return .error (.invalidForm fault.message "bind")
    | .ok offers => pure offers
  let found ← (decodeStrings c m.name offers : Except Fault Decoded)
  let fields := (← (Action.describe c m : Except Fault (List Descriptor))).filter fun d =>
    d.source == .body
  let document ← if fields.isEmpty then pure none
    else match ← (bodyDocument r : Except Fault (Except Failure (Option Value))) with
      | .error failure => return .error failure
      | .ok document => pure document
  let entries ← match document with
    | some (.dict document) =>
      match ← (addBodyFields c m document fields found.entries :
          Except Fault (Except Failure (List (Value × Value)))) with
      | .error failure => return .error failure
      | .ok entries => pure entries
    | _ => pure found.entries
  return .ok (← bindDecoded c m validate { found with entries := entries })

/-- A way to bind a request. -/
inductive Way where
  | all
  | json
  | xml
  | form
  | query
  | path
  | header
  | cookie
deriving DecidableEq, Repr, Inhabited

/-- The way with a label. -/
def Way.ofLabel? (label : String) : Option Way :=
  [("auto", .all), ("json", .json), ("xml", .xml), ("form", .form), ("query", .query),
    ("path", .path), ("header", .header), ("cookie", .cookie)].lookup label

/-- How a request is bound: whether the rules count where that can be chosen, and whether keys that are
not known are refused. -/
structure Options where
  validate : Bool
  strict : Except Fault Bool

/-- Binds a request. -/
def bind (c : Catalogue) (m : Model) (r : Request) (o : Options) : Way → Action Outcome
  | .all => bindAll c m r o.validate
  | .json => bindJson c m r o.validate o.strict
  | .xml => bindXml c m r o.validate
  | .form => bindForm c m r
  | .query => return .ok (← bindStrings c m [.ofQuery r])
  | .path => return .ok (← bindStrings c m [.ofPath r])
  | .header => return .ok (← bindStrings c m [.ofHeaders r])
  | .cookie => return .ok (← bindStrings c m [.ofCookies r])

end Intake.Binding
