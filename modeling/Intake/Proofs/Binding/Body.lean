import Intake.Binding.Bind
import Intake.Proofs.Outcome

/-!
What binding a document leads to. A document with types is first looked at as it is, then cleared of keys if that
is asked for, and then built; what comes of it depends on nothing else.
-/

namespace Intake.Binding

variable {c : Catalogue} {m : Model} {o : BodyOptions} {document : Value} {es known : List (Value × Value)}
  {r : Request} {validate strict : Bool} {j j' : Journal}

/-- A refusal is one for an unknown key exactly if a rejection is. -/
theorem code_shapeFailure_eq_unknownField_iff {origin : String} {rejections : List Rejection} :
    (shapeFailure m origin rejections).code = .unknownField ↔ ∃ r ∈ rejections, r.problem = .extra := by
  unfold shapeFailure
  split
  · rename_i r hr
    have hextra : (r.problem == .extra) = true := List.find?_some (p := fun r : Rejection => r.problem == .extra) hr
    exact ⟨fun _ => ⟨r, List.mem_of_find?_eq_some hr, eq_of_beq hextra⟩, fun _ => rfl⟩
  · rename_i hnone
    constructor
    · intro h
      split at h <;> cases h
    · rintro ⟨r, hr, hextra⟩
      exact absurd (beq_iff_eq.mpr hextra) (List.find?_eq_none.mp hnone r hr)

/-- What is done with a document that was built or refused. -/
def concluded (c : Catalogue) (m : Model) (o : BodyOptions) : Except (List Rejection) Value → Action Outcome
  | .error rejections => do
    noteUndecoded m o.origin ("error_count", .int rejections.length)
    return .error (shapeFailure m o.origin rejections)
  | .ok value => return .ok ⟨value, ← ruleErrors c o.validate value⟩

/-- The entries that are built: all of them, or those that are known. -/
def builtFrom (c : Catalogue) (m : Model) (o : BodyOptions) (es : List (Value × Value)) :
    Except Fault (List (Value × Value)) :=
  if o.strict then .ok es else knownKeys c m.name es

theorem outcome_bindDocument (hjson : o.jsonTypes = true) (hmismatch : jsonTypeMismatch c m.name es "" = .ok none)
    (hknown : builtFrom c m o es = .ok known) :
    (bindDocument c m o (.dict es)).outcome j = (concluded c m o (Shape.build c m.name (.dict known))).outcome j := by
  rw [builtFrom] at hknown
  simp only [bindDocument, hjson, ↓reduceIte, hmismatch, hknown]
  rw [Action.outcome_bind, Action.outcome_liftM]
  dsimp only
  rw [Action.outcome_bind, Action.outcome_liftM]
  dsimp only
  cases Shape.build c m.name (.dict known) <;> rfl

/-- A document that cannot be built is refused for its rejections. -/
theorem outcome_bindDocument_of_refused {rejections : List Rejection} (hjson : o.jsonTypes = true)
    (hmismatch : jsonTypeMismatch c m.name es "" = .ok none) (hknown : builtFrom c m o es = .ok known)
    (hbuild : Shape.build c m.name (.dict known) = .error rejections) :
    ∃ j', (bindDocument c m o (.dict es)).outcome j = (.ok (.error (shapeFailure m o.origin rejections)), j') := by
  rw [outcome_bindDocument hjson hmismatch hknown, hbuild]
  exact ⟨_, rfl⟩

/-- A document is bound or refused for what is built of it, or it has a value of a wrong type. -/
theorem exists_builtFrom_or_invalidType (hjson : o.jsonTypes = true) {result : Outcome}
    (h : (bindDocument c m o document).outcome j = (.ok result, j')) :
    (∃ failure, result = .error failure ∧ failure.code = .invalidType) ∨
      ∃ es known, document = .dict es ∧ jsonTypeMismatch c m.name es "" = .ok none ∧
        builtFrom c m o es = .ok known := by
  unfold bindDocument at h
  split at h
  · rename_i es
    simp only [hjson, ↓reduceIte] at h
    obtain ⟨mismatch, j₁, hmismatch, h⟩ := Action.of_outcome_bind h
    obtain ⟨hmismatch, -⟩ := Prod.mk.inj hmismatch
    cases mismatch with
    | some reason =>
        obtain ⟨-, j₂, -, h⟩ := Action.of_outcome_bind h
        exact .inl ⟨_, (Except.ok.inj (Prod.mk.inj h).1).symm, rfl⟩
    | none =>
        obtain ⟨known, j₂, hknown, -⟩ := Action.of_outcome_bind h
        exact .inr ⟨es, known, rfl, hmismatch, (Prod.mk.inj hknown).1⟩
  · exact .inl ⟨_, (Except.ok.inj (Prod.mk.inj h).1).symm, rfl⟩

theorem outcome_bindJson (h : Json.ofBytes r.body = .ok document) (strict : Bool) :
    (bindJson c m r validate (.ok strict)).outcome j =
      (bindDocument c m ⟨"bind.json", validate, strict, true⟩ document).outcome j := by
  simp only [bindJson, h]
  rfl

/-- A body that is bound, or refused other than for not being a document, is a document. -/
theorem exists_document_or_invalidJson {result : Outcome}
    (h : (bindJson c m r validate (.ok strict)).outcome j = (.ok result, j')) :
    (∃ failure, result = .error failure ∧ failure.code = .invalidJson) ∨
      ∃ document, Json.ofBytes r.body = .ok document := by
  cases hbody : Json.ofBytes r.body with
  | ok document => exact .inr ⟨document, rfl⟩
  | error fault =>
      simp only [bindJson, hbody] at h
      split at h
      · cases h
      · obtain ⟨-, j₁, -, h⟩ := Action.of_outcome_bind h
        exact .inl ⟨_, (Except.ok.inj (Prod.mk.inj h).1).symm, rfl⟩

theorem outcome_bindXml {e : Markup.Element} (hbody : Markup.ofBytes r.body = .ok e)
    (hentries : e.entries c m.name = .ok es) :
    (bindXml c m r validate).outcome j =
      (concluded c m ⟨"bind.xml", validate, true, false⟩ (Shape.build c m.name (.dict es))).outcome j := by
  simp only [bindXml, bindDocument, hbody, hentries, Bool.false_eq_true, ↓reduceIte]
  rw [Action.outcome_bind, Action.outcome_liftM]
  dsimp only
  rw [Action.outcome_bind, Action.outcome_liftM]
  dsimp only
  rw [Action.outcome_bind, Action.outcome_liftM]
  dsimp only
  cases Shape.build c m.name (.dict es) <;> rfl

/-- A body that is bound, or refused other than for not being markup, is an element that says something about the
fields of its model. -/
theorem exists_entries_or_invalidXml {result : Outcome}
    (h : (bindXml c m r validate).outcome j = (.ok result, j')) :
    (∃ failure, result = .error failure ∧ failure.code = .invalidXml) ∨
      ∃ e es, Markup.ofBytes r.body = .ok e ∧ e.entries c m.name = .ok es := by
  cases hbody : Markup.ofBytes r.body with
  | ok e =>
      simp only [bindXml, hbody] at h
      obtain ⟨es, j₁, hentries, -⟩ := Action.of_outcome_bind h
      exact .inr ⟨e, es, rfl, (Prod.mk.inj hentries).1⟩
  | error flaw =>
      simp only [bindXml, hbody] at h
      split at h
      · cases h
      · obtain ⟨-, j₁, -, h⟩ := Action.of_outcome_bind h
        exact .inl ⟨_, (Except.ok.inj (Prod.mk.inj h).1).symm, rfl⟩

/-- A request with a document in its body. -/
def posting (body : String) : Request :=
  ⟨"POST", "/", "", [("content-type", "application/json")], Text.utf8Bytes body, []⟩

/-- A text is read as the document that its characters are. -/
theorem ofBytes_posting {body : String} (hcodes : Json.decode (Text.utf8Bytes body) = .ok (body.toList.map Char.toNat))
    (hread : Json.ofCodes (body.toList.map Char.toNat) = .ok document) :
    Json.ofBytes (posting body).body = .ok document := by
  have hbody : (posting body).body = Text.utf8Bytes body := rfl
  rw [hbody, Json.ofBytes, hcodes]
  change (Json.ofCodes (body.toList.map Char.toNat)).mapError _ = .ok document
  rw [hread]
  rfl

end Intake.Binding
