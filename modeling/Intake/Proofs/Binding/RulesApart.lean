import Intake.Binding.Demand
import Intake.Proofs.Binding.OneSource
import Intake.Proofs.Model.Instance

/-!
Decoding apart from rules. Whatever a request is bound from, binding is decoding, with the errors of texts that cannot
be read and of fields that are rejected, and then the rules of the record that was made. A demand that does not want the
rules gets what was decoded where it is met from a whole document or field by field; the ways that read one part of a
request have no choice, and tell the errors of the rules all the same.
-/

namespace Intake.Binding

variable {c : Catalogue} {m : Model} {r : Request} {strict : Except Fault Bool} {validate : Bool} {j j' : Journal}

/-- What was read, as a record: the errors are those of texts that cannot be read and of fields that are rejected. -/
def Decoded.bound (c : Catalogue) (m : Model) (found : Decoded) : Bound :=
  let (value, errors) := buildValue c m.name found.entries
  ⟨value, found.errors ++ errors⟩

/-- Decodes a document: there is a record without errors, or a failure. -/
def decodeDocument (c : Catalogue) (m : Model) (origin : String) (strict jsonTypes : Bool) (document : Value) :
    Action Outcome := do
  let .dict entries := document
    | return .error (.invalidType ("expected an object for " ++ m.name) m.name origin)
  let mismatch ← (if jsonTypes then jsonTypeMismatch c m.name entries "" else .ok none : Finding)
  if let some reason := mismatch then
    noteUndecoded m origin ("reason", .text reason)
    return .error (.invalidType reason m.name origin)
  let known ← (if strict then .ok entries else knownKeys c m.name entries : Except Fault (List (Value × Value)))
  match Shape.build c m.name (.dict known) with
  | .error rejections =>
    noteUndecoded m origin ("error_count", .int rejections.length)
    return .error (shapeFailure m origin rejections)
  | .ok value => return .ok ⟨value, []⟩

/-- Decodes the body as a document with types. -/
def decodeJson (c : Catalogue) (m : Model) (r : Request) (strict : Except Fault Bool) : Action Outcome := do
  match Json.ofBytes r.body with
  | .error fault =>
    if fault.isTooDeep then throw (.deepDocument fault.message)
    noteUndecoded m "bind.json" ("reason", .text fault.message)
    return .error (.invalidJson fault.message "bind.json")
  | .ok document => decodeDocument c m "bind.json" (← (strict : Except Fault Bool)) true document

/-- Decodes the body as a document of elements. -/
def decodeXml (c : Catalogue) (m : Model) (r : Request) : Action Outcome := do
  match Markup.ofBytes r.body with
  | .error flaw =>
    if flaw.isUnknownEncoding then throw (.markup flaw)
    noteUndecoded m "bind.xml" ("reason", .text flaw.message)
    return .error (.invalidXml flaw.message "bind.xml")
  | .ok element =>
    let entries ← (element.entries c m.name : Except Fault (List (Value × Value)))
    decodeDocument c m "bind.xml" true false (.dict entries)

/-- Decodes what is offered. -/
def decodeOffers (c : Catalogue) (m : Model) (offers : List Offer) : Action Outcome := do
  return .ok ((← (decodeStrings c m.name offers : Except Fault Decoded)).bound c m)

/-- Decodes the body as a form, and behind it the query. -/
def decodeForm (c : Catalogue) (m : Model) (r : Request) : Action Outcome := do
  match r.form with
  | .error fault =>
    noteUndecoded m "bind.form" ("reason", .text fault.message)
    return .error (.invalidForm fault.message "bind.form")
  | .ok form => decodeOffers c m [.ofForm r form]

/-- Decodes each field from the first part of the request that has it, or from the part that it is bound to. -/
def decodeAll (c : Catalogue) (m : Model) (r : Request) : Action Outcome := do
  match offersOf r with
  | .error fault => return .error (.invalidForm fault.message "bind")
  | .ok offers =>
    let found ← (decodeStrings c m.name offers : Except Fault Decoded)
    let fields := (← (Action.describe c m : Except Fault (List Descriptor))).filter fun d => d.source == .body
    let document ← (if fields.isEmpty then .ok (.ok none) else bodyDocument r :
      Except Fault (Except Failure (Option Value)))
    match document with
    | .ok (some (.dict document)) =>
      match ← (addBodyFields c m document fields found.entries :
          Except Fault (Except Failure (List (Value × Value)))) with
      | .error failure => return .error failure
      | .ok entries => return .ok ({ found with entries := entries }.bound c m)
    | .error failure => return .error failure
    | .ok _ => return .ok (found.bound c m)

/-- Decodes a request. -/
def decode (c : Catalogue) (m : Model) (r : Request) (strict : Except Fault Bool) : Way → Action Outcome
  | .all => decodeAll c m r
  | .json => decodeJson c m r strict
  | .xml => decodeXml c m r
  | .form => decodeForm c m r
  | .query => decodeOffers c m [.ofQuery r]
  | .path => decodeOffers c m [.ofPath r]
  | .header => decodeOffers c m [.ofHeaders r]
  | .cookie => decodeOffers c m [.ofCookies r]

/-- Adds the errors of the rules to what was decoded, if they are asked for. -/
def withRules (c : Catalogue) (validate : Bool) : Outcome → Action Outcome
  | .error failure => return .error failure
  | .ok bound => return .ok { bound with errors := bound.errors ++ (← ruleErrors c validate bound.value) }

/-- Whether a way to bind a request reads one part of it, as texts. -/
def Way.readsPart (way : Way) : Bool := way.source?.isSome

/-! ### Binding is decoding, and then the rules -/

theorem bindDocument_eq (o : BodyOptions) (document : Value) :
    bindDocument c m o document =
      decodeDocument c m o.origin o.strict o.jsonTypes document >>= withRules c o.validate := by
  unfold bindDocument decodeDocument
  split
  · rename_i entries
    simp only [bind_assoc]
    congr 1
    funext mismatch
    cases mismatch with
    | some reason => simp [withRules]
    | none =>
        simp only [bind_assoc]
        congr 1
        funext known
        cases Shape.build c m.name (.dict known) with
        | error rejections => simp [withRules]
        | ok value => simp [withRules]
  · simp [withRules]

theorem bindDecoded_eq (found : Decoded) :
    Except.ok <$> bindDecoded c m validate found = (pure (.ok (found.bound c m)) >>= withRules c validate) := by
  simp [bindDecoded, withRules, Decoded.bound]

theorem bindStrings_eq (offers : List Offer) :
    (do return .ok (← bindStrings c m offers) : Action Outcome) = decodeOffers c m offers >>= withRules c true := by
  unfold bindStrings decodeOffers
  simp only [bind_assoc]
  congr 1
  funext found
  rw [bind_pure_comp]
  exact bindDecoded_eq found

theorem bindForm_eq : bindForm c m r = decodeForm c m r >>= withRules c true := by
  unfold bindForm decodeForm
  cases r.form with
  | error fault => simp [withRules]
  | ok form => exact bindStrings_eq _

theorem bindJson_eq : bindJson c m r validate strict = decodeJson c m r strict >>= withRules c validate := by
  unfold bindJson decodeJson
  cases Json.ofBytes r.body with
  | error fault => cases hdeep : fault.isTooDeep <;> simp [hdeep, withRules]
  | ok document =>
      simp only [bind_assoc]
      congr 1
      funext strict
      exact bindDocument_eq _ _

theorem bindXml_eq : bindXml c m r validate = decodeXml c m r >>= withRules c validate := by
  unfold bindXml decodeXml
  dsimp only
  cases Markup.ofBytes r.body with
  | error flaw => cases hunknown : flaw.isUnknownEncoding <;> simp [hunknown, withRules]
  | ok element =>
      simp only [bind_assoc]
      congr 1
      funext entries
      exact bindDocument_eq _ _

theorem bindAll_eq : bindAll c m r validate = decodeAll c m r >>= withRules c validate := by
  unfold bindAll decodeAll
  cases offersOf r with
  | error fault => simp [withRules]
  | ok offers =>
      simp only [pure_bind, bind_assoc, bind_pure_comp]
      congr 1
      funext found
      congr 1
      funext fields
      cases (fields.filter fun d => d.source == .body).isEmpty with
      | true => exact bindDecoded_eq found
      | false =>
          simp only [Bool.false_eq_true, if_false]
          congr 1
          funext document
          rcases document with failure | _ | document
          · simp [withRules]
          · exact bindDecoded_eq found
          · cases document with
            | dict document =>
                simp only [bind_assoc]
                congr 1
                funext entries
                cases entries with
                | error failure => simp [withRules]
                | ok entries => exact bindDecoded_eq _
            | _ => exact bindDecoded_eq found

/-- Binding is decoding, and then the rules: where they are asked for, and always where one part is read. -/
theorem bind_eq (way : Way) :
    bind c m r ⟨validate, strict⟩ way = decode c m r strict way >>= withRules c (validate || way.readsPart) := by
  have hwhole (hreads : way.readsPart = false) : (validate || way.readsPart) = validate := by simp [hreads]
  have hpart (hreads : way.readsPart = true) : (validate || way.readsPart) = true := by simp [hreads]
  cases way with
  | all => rw [hwhole rfl]; exact bindAll_eq
  | json => rw [hwhole rfl]; exact bindJson_eq
  | xml => rw [hwhole rfl]; exact bindXml_eq
  | form => rw [hpart rfl]; exact bindForm_eq
  | query | path | header | cookie => rw [hpart rfl]; exact bindStrings_eq _

/-- Where no rules are asked for, nothing is added. -/
theorem withRules_false : withRules c false = pure := by
  funext outcome
  cases outcome with
  | error failure => rfl
  | ok bound => simp [withRules, ruleErrors]

/-- A demand that wants to see errors passes on what binding comes to. -/
theorem meet_eq (source : String) :
    Demand.meet ⟨source, validate, false⟩ c m r strict =
      match wayOf source r with
      | .error failure => pure (.error failure)
      | .ok way => bind c m r ⟨validate, strict⟩ way := by
  unfold Demand.meet
  cases wayOf source r with
  | error failure => rfl
  | ok way =>
      refine (bind_congr fun outcome => ?_).trans (bind_pure _)
      cases outcome <;> rfl

/-- Rules that are added to what was decoded change nothing exactly if they find nothing and note nothing. -/
theorem outcome_withRules_eq_iff (bound : Bound) :
    (withRules c true (.ok bound)).outcome j = (.ok (.ok bound), j) ↔
      (Validation.validate c bound.value).outcome j = (.ok [], j) := by
  obtain ⟨value, errors⟩ := bound
  simp only [withRules, ruleErrors, if_true, Action.outcome_bind, Action.outcome_pure]
  rcases (Validation.validate c value).outcome j with ⟨fault | found, later⟩
  · simp
  · simp

/-- A demand that wants neither the rules nor an end on errors is met by decoding alone where it is met from a whole
document or field by field. Where it is met from one part of the request it is met by decoding and the rules, which is
decoding alone exactly as long as the rules find nothing in what was decoded and note nothing. A demand for a body that
is of no kind fails without decoding. -/
theorem meet_without_rules (source : String) (c : Catalogue) (m : Model) (r : Request) (strict : Except Fault Bool) :
    (∀ failure, wayOf source r = .error failure →
      Demand.meet ⟨source, false, false⟩ c m r strict = pure (.error failure)) ∧
    ∀ way, wayOf source r = .ok way →
      (way.readsPart = false → Demand.meet ⟨source, false, false⟩ c m r strict = decode c m r strict way) ∧
      (way.readsPart = true →
        Demand.meet ⟨source, false, false⟩ c m r strict = decode c m r strict way >>= withRules c true ∧
        ∀ j, (Demand.meet ⟨source, false, false⟩ c m r strict).outcome j = (decode c m r strict way).outcome j ↔
          ∀ bound later, (decode c m r strict way).outcome j = (.ok (.ok bound), later) →
            (Validation.validate c bound.value).outcome later = (.ok [], later)) := by
  refine ⟨fun failure hfailure => by rw [meet_eq, hfailure], fun way hway => ?_⟩
  have hmeet : Demand.meet ⟨source, false, false⟩ c m r strict =
      decode c m r strict way >>= withRules c way.readsPart := by
    rw [meet_eq, hway]
    exact bind_eq way
  refine ⟨fun hwhole => ?_, fun hpart => ?_⟩
  · rw [hmeet, hwhole, withRules_false, bind_pure]
  · rw [hpart] at hmeet
    refine ⟨hmeet, fun j => ?_⟩
    rw [hmeet, Action.outcome_bind]
    rcases (decode c m r strict way).outcome j with ⟨fault | failure | bound, later⟩
    · simp
    · simp [withRules]
    · rw [outcome_withRules_eq_iff]
      refine ⟨fun hnone bound' later' hsame => ?_, fun hall => hall bound later rfl⟩
      cases hsame
      exact hnone

/-- Pages are counted from one. -/
def pageModel : Model := plainModel "Page" [ruledField "page" .int "min=1"]

def pageCatalogue : Catalogue := ⟨[pageModel], []⟩

/-- A page before the first. -/
def turning : Request := asking "page=0"

/-- The page is decoded alone where it is demanded field by field, and decoded and judged where it is demanded from
the query. -/
theorem meet_without_rules_turning :
    Demand.meet ⟨"auto", false, false⟩ pageCatalogue pageModel turning (.ok true) =
        decode pageCatalogue pageModel turning (.ok true) .all ∧
      Demand.meet ⟨"query", false, false⟩ pageCatalogue pageModel turning (.ok true) =
        decode pageCatalogue pageModel turning (.ok true) .query >>= withRules pageCatalogue true :=
  ⟨((meet_without_rules "auto" pageCatalogue pageModel turning (.ok true)).2 .all rfl).1 rfl,
    (((meet_without_rules "query" pageCatalogue pageModel turning (.ok true)).2 .query rfl).2 rfl).1⟩

theorem queryPairs_turning : turning.queryPairs = [("page", "0")] := by decide +kernel

/-- What is read for the page, from the query alone and from all parts. -/
theorem decodeStrings_turning :
    decodeStrings pageCatalogue "Page" [.ofQuery turning] = .ok ⟨[(.text "page", .int 0)], []⟩ ∧
      decodeStrings pageCatalogue "Page" [.ofPath turning, .ofQuery turning, .ofHeaders turning, .ofCookies turning] =
        .ok ⟨[(.text "page", .int 0)], []⟩ := by
  unfold Offer.ofQuery
  rw [queryPairs_turning]
  constructor <;> with_unfolding_all rfl

theorem outcome_decode_turning :
    (decode pageCatalogue pageModel turning (.ok true) .query).outcome .empty =
        (.ok (.ok ⟨.record "Page" [("page", .int 0)], []⟩), .empty) ∧
      (decode pageCatalogue pageModel turning (.ok true) .all).outcome .empty =
        (.ok (.ok ⟨.record "Page" [("page", .int 0)], []⟩), .empty) := by
  obtain ⟨hquery, hall⟩ := decodeStrings_turning
  constructor
  · unfold decode decodeOffers
    rw [show pageModel.name = "Page" from rfl, hquery]
    cbv
  · have hoffers := offersOf_of_not_saysForm (r := turning) (saysForm_asking "page=0")
    unfold decode decodeAll
    rw [hoffers, show pageModel.name = "Page" from rfl]
    dsimp only
    rw [hall]
    cbv

/-- A page before the first is refused by a rule where it is demanded from the query without rules, and passed on where
it is demanded field by field. -/
theorem meet_tells_rules_of_query :
    (Demand.meet ⟨"query", false, false⟩ pageCatalogue pageModel turning (.ok true)).outcome .empty =
        (.ok (.ok ⟨.record "Page" [("page", .int 0)], [⟨"page", "must be ≥ 1"⟩]⟩), .empty) ∧
      (decode pageCatalogue pageModel turning (.ok true) .query).outcome .empty =
        (.ok (.ok ⟨.record "Page" [("page", .int 0)], []⟩), .empty) ∧
      (Demand.meet ⟨"auto", false, false⟩ pageCatalogue pageModel turning (.ok true)).outcome .empty =
        (.ok (.ok ⟨.record "Page" [("page", .int 0)], []⟩), .empty) := by
  obtain ⟨hquery, hall⟩ := outcome_decode_turning
  refine ⟨?_, hquery, ?_⟩
  · rw [meet_eq, show wayOf "query" turning = .ok .query from rfl]
    dsimp only
    rw [bind_eq, Action.outcome_bind, hquery]
    cbv
  · rw [meet_eq, show wayOf "auto" turning = .ok .all from rfl]
    dsimp only
    rw [bind_eq, Action.outcome_bind, hall]
    rfl

end Intake.Binding
