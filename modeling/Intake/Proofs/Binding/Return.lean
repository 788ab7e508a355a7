import Intake.Binding.Demand
import Intake.Proofs.Binding.Body
import Intake.Proofs.Binding.Data
import Intake.Proofs.Binding.Termination
import Intake.Proofs.Validation.Reliable

/-!
Binding that comes to an end. In a reliable catalogue a request is bound, or refused with a failure that its client
can mend, unless its body is a document that is left in the middle: one that is nested too deep, or one in an
encoding that no one knows.
-/

namespace Intake

variable {α : Type} {c : Catalogue} {m : Model} {r : Request}

open Intake.Action (Ends ends_pure ends_liftM ends_note)
open Validation

theorem ends_of_returns {a : Action α} (ha : Returns a) : Ends (fun _ => True) a := by
  intro j
  obtain ⟨v, later, hv⟩ := ha j
  exact ⟨v, later, hv, trivial⟩

theorem Catalogue.IsSound.isDescribed (hc : c.IsSound) : c.IsDescribed :=
  fun m hm => ⟨_, Catalogue.describe_of_forall fun f hf => (hc.fields m hm f hf).described⟩

namespace Binding

/-- The record that is built of data, if need be without what was rejected, is typed. -/
theorem isTyped_buildValue (hc : c.IsSound) {name : String} (hm : c.model? name = some m)
    {es : List (Value × Value)} (hes : AreData es) : IsTyped c (buildValue c name es).1 := by
  unfold buildValue
  split
  · rename_i hbuild
    exact isTyped_of_build hc (.dict hes) hbuild
  · dsimp only
    split
    · rename_i hbuild
      exact isTyped_of_build hc (.dict fun e he => hes e (List.mem_filter.mp he).1) hbuild
    · exact isTyped_construct hc hm

/-! ### Failures that a client can mend -/

/-- A request that is bound, or refused with a failure that its client can mend. -/
def IsMendable : Outcome → Prop
  | .ok _ => True
  | .error failure => failure.code.httpStatus < 500

theorem isMendable_shapeFailure (m : Model) (origin : String) (rejections : List Rejection) :
    IsMendable (.error (shapeFailure m origin rejections)) := by
  unfold shapeFailure
  split
  · exact show 400 < 500 by decide
  · split <;> exact show 400 < 500 by decide

theorem ends_ruleErrors (hc : c.IsReliable) {x : Value} (hx : IsTyped c x) (validate : Bool) :
    Ends (fun _ => True) (ruleErrors c validate x) := by
  unfold ruleErrors
  split
  · exact ends_of_returns (returns_validate_of_isTyped hc hx)
  · exact ends_pure trivial

theorem ends_noteUndecoded (m : Model) (origin : String) (particular : String × Value) :
    Ends (fun _ => True) (noteUndecoded m origin particular) := ends_note _ _ _

/-! ### Documents -/

/-- A document of which every key has to be known is bound or refused. -/
theorem ends_bindDocument (hc : c.IsReliable) {o : BodyOptions} (hstrict : o.strict = true) {document : Value}
    (hdocument : document.IsData) : Ends IsMendable (bindDocument c m o document) := by
  unfold bindDocument
  split
  · rename_i es
    obtain ⟨mismatch, hmismatch⟩ : ∃ found, (if o.jsonTypes then jsonTypeMismatch c m.name es "" else .ok none) =
        (.ok found : Finding) := by
      split
      · exact exists_jsonTypeMismatch hc.sound.isDescribed m.name es ""
      · exact ⟨none, rfl⟩
    refine (ends_liftM hmismatch).bind fun found _ => ?_
    cases found with
    | some reason =>
        exact (ends_noteUndecoded _ _ _).bind fun _ _ => ends_pure (show 400 < 500 by decide)
    | none =>
        refine (ends_liftM (if_pos hstrict)).bind fun known hknown => ?_
        subst hknown
        split
        · exact (ends_noteUndecoded _ _ _).bind fun _ _ => ends_pure (isMendable_shapeFailure _ _ _)
        · rename_i hbuild
          have hx := isTyped_of_build hc.sound hdocument hbuild
          exact (ends_ruleErrors hc hx o.validate).bind fun _ _ => ends_pure trivial
  · exact ends_pure (show 400 < 500 by decide)

/-- A document with types is bound or refused, unless it is too deep. -/
theorem ends_bindJson (hc : c.IsReliable) (hbody : ∀ fault, Json.ofBytes r.body = .error fault → ¬ fault.isTooDeep)
    (validate : Bool) : Ends IsMendable (bindJson c m r validate (.ok true)) := by
  unfold bindJson
  dsimp only
  split
  · rename_i fault hfault
    rw [if_neg (hbody fault hfault)]
    exact (ends_noteUndecoded _ _ _).bind fun _ _ => ends_pure (show 400 < 500 by decide)
  · rename_i document hdocument
    exact ends_bindDocument hc rfl (Json.isData_of_ofBytes hdocument)

/-- A document of elements is bound or refused, unless no one knows its encoding. -/
theorem ends_bindXml (hc : c.IsReliable)
    (hbody : ∀ flaw, Markup.ofBytes r.body = .error flaw → ¬ flaw.isUnknownEncoding) (validate : Bool) :
    Ends IsMendable (bindXml c m r validate) := by
  unfold bindXml
  dsimp only
  split
  · rename_i flaw hflaw
    rw [if_neg (hbody flaw hflaw)]
    exact (ends_noteUndecoded _ _ _).bind fun _ _ => ends_pure (show 400 < 500 by decide)
  · rename_i element _
    obtain ⟨es, hes, hdata⟩ := Markup.exists_entries hc.sound.isDescribed m.name element
    refine (ends_liftM hes).bind fun found hfound => ?_
    subst hfound
    exact ends_bindDocument hc rfl (.dict hdata)

/-! ### Texts -/

section Texts

variable {name : String}

theorem ends_bindDecoded (hc : c.IsReliable) (hm : c.model? m.name = some m) {found : Decoded}
    (hfound : AreData found.entries) (validate : Bool) : Ends (fun _ => True) (bindDecoded c m validate found) := by
  have hx := isTyped_buildValue hc.sound hm hfound
  exact (ends_ruleErrors hc hx validate).bind fun _ _ => ends_pure trivial

/-- What is read from parts of a request is bound. -/
theorem ends_bindStrings (hc : c.IsReliable) (hm : c.model? m.name = some m) {offers : List Offer}
    (hread : ∃ found, decodeStrings c m.name offers = .ok found) :
    Ends (fun _ => True) (bindStrings c m offers) := by
  obtain ⟨found, hfound⟩ := hread
  refine (ends_liftM hfound).bind fun decoded hdecoded => ?_
  subst hdecoded
  exact ends_bindDecoded hc hm (areData_of_decodeStrings hfound) true

/-- A form is bound or refused. -/
theorem ends_bindForm (hc : c.IsReliable) (hm : c.model? m.name = some m)
    (hread : ∀ form, ∃ found, decodeStrings c m.name [.ofForm r form] = .ok found) :
    Ends IsMendable (bindForm c m r) := by
  unfold bindForm
  dsimp only
  split
  · exact (ends_noteUndecoded _ _ _).bind fun _ _ => ends_pure (show 400 < 500 by decide)
  · rename_i form _
    exact (ends_bindStrings hc hm (hread form)).bind fun _ _ => ends_pure trivial

/-- Fields that are read from texts, none of them from the body, are bound or refused. -/
theorem ends_bindAll (hc : c.IsReliable) (hm : c.model? m.name = some m) {fields : List Descriptor}
    (hfields : c.describe m = .ok fields) (hbody : ∀ d ∈ fields, d.source ≠ .body)
    (hread : ∀ offers, ∃ found, decodeStrings c m.name offers = .ok found) (validate : Bool) :
    Ends IsMendable (bindAll c m r validate) := by
  have hnone : (fields.filter fun d => d.source == .body) = [] :=
    List.filter_eq_nil_iff.mpr fun d hd => by simpa using hbody d hd
  unfold bindAll
  split
  · exact ends_pure (show 400 < 500 by decide)
  · rename_i offers _
    obtain ⟨found, hfound⟩ := hread offers
    refine (ends_liftM hfound).bind fun decoded hdecoded => ?_
    subst hdecoded
    refine (ends_liftM (Action.describe_eq_ok hfields)).bind fun described hdescribed => ?_
    subst hdescribed
    simp only [hnone, List.isEmpty_nil, ↓reduceIte, pure_bind]
    have hdata : AreData decoded.entries := areData_of_decodeStrings hfound
    exact (ends_bindDecoded hc hm hdata validate).bind fun _ _ => ends_pure trivial

/-- A field whose name a header can have is offered texts by every part of a request. -/
theorem gives_firstTexts_of_header {bad : Fault → Prop} {d : Descriptor}
    (hheader : Offer.notInHeader? d.headerName = none) (offers : List Offer) :
    Gives bad (fun _ => True) (firstTexts d "" offers) := by
  induction offers with
  | nil => trivial
  | cons o rest ih =>
      have hread : o.read (keyUnder "" (d.nameIn o.source)) = .ok (o.values (d.nameIn o.source)) := by
        cases hsource : o.source <;> simp [Offer.read, keyUnder, hsource, Descriptor.nameIn, hheader]
      rw [firstTexts, hread, ok_bind]
      split
      · exact ih
      · trivial

/-- A model without records and maps inside is read from whatever parts of a request. -/
theorem exists_decodeStrings_of_leaves (hm : c.model? name = some m) {fields : List Descriptor}
    (hfields : c.describe m = .ok fields) (hlegible : IsLegible c name)
    (hleaves : ∀ d ∈ fields, d.kind ≠ .record ∧ d.kind ≠ .map ∧ Offer.notInHeader? d.headerName = none)
    (offers : List Offer) : ∃ found, decodeStrings c name offers = .ok found := by
  obtain ⟨depth, hdepth⟩ : ∃ depth, Catalogue.depthBound c offers = depth + 1 :=
    Nat.exists_eq_succ_of_ne_zero (Nat.mul_ne_zero (Nat.succ_ne_zero _) (Nat.succ_ne_zero _))
  have hread : ∀ d ∈ fields, d.formSkip = false → Gives (fun _ => False) (fun found => ∀ e ∈ found.errors, True)
      (readField c (readRecord c depth) offers "" "" d) := by
    intro d hd _
    obtain ⟨hrecord, hmap, hheader⟩ := hleaves d hd
    have hleaf := gives_readLeaf_of_firstTexts (hlegible.readsBy hm hfields hd fun _ => False)
      (gives_firstTexts_of_header hheader (admitted d offers)) (Validation.join "" d.wireName)
    unfold readField
    dsimp only
    split
    · exact absurd ‹_› hrecord
    · exact absurd ‹_› hrecord
    · exact absurd ‹_› hmap
    · exact hleaf.mono (fun _ h => h) fun _ _ _ _ => trivial
  obtain ⟨found, hfound, -⟩ := (gives_readFields hread).exists_eq_ok
  rw [decodeStrings, hdepth, readRecord]
  simp only [hm, Action.describe_eq_ok hfields, ok_bind, hfound]
  exact ⟨_, rfl⟩

/-- A model that is in no record of its own is read from the query or from a form. -/
theorem exists_decodeStrings_of_isNested (hunfolded : IsUnfolded c name) (hlegible : ∀ name, IsLegible c name)
    {o : Offer} (ho : o.source.isNested = true) : ∃ found, decodeStrings c name [o] = .ok found := by
  have hread : Gives (fun _ => False) (fun _ => True) (decodeStrings c name [o]) := by
    refine gives_decodeStrings_of_calls (hunfolded.not_recurs [o]) fun call hcall => ?_
    obtain ⟨-, hoffers⟩ := contains_of_calls ho hcall
    obtain ⟨inner, offers⟩ := call
    obtain rfl : offers = [o] := hoffers
    exact (hlegible inner).isReadBy ho _
  obtain ⟨found, hfound, -⟩ := hread.exists_eq_ok
  exact ⟨found, hfound⟩

end Texts

/-! ### Demands -/

/-- A body is bound by what the header says it is. -/
theorem of_wayOf_body {way : Way} (hway : wayOf "body" r = .ok way) :
    (contentKind r = "json" ∧ way = .json) ∨ (contentKind r = "xml" ∧ way = .xml) ∨
      (contentKind r = "form" ∧ way = .form) := by
  simp only [wayOf, beq_self_eq_true, ↓reduceIte] at hway
  split at hway
  · rename_i hknown
    simp only [List.contains_cons, List.contains_nil, Bool.or_false, Bool.or_eq_true, beq_iff_eq] at hknown
    rcases hknown with hkind | hkind | hkind <;> rw [hkind] at hway
    · exact .inl ⟨hkind, (Except.ok.inj hway).symm⟩
    · exact .inr (.inl ⟨hkind, (Except.ok.inj hway).symm⟩)
    · exact .inr (.inr ⟨hkind, (Except.ok.inj hway).symm⟩)
  · cases hway

/-- A demand is met or refused, if the request is bound or refused in each way that it may be bound. -/
theorem ends_meet {d : Demand} {strict : Except Fault Bool}
    (hbind : ∀ way, wayOf d.source r = .ok way → Ends IsMendable (bind c m r ⟨d.validate, strict⟩ way)) :
    Ends IsMendable (d.meet c m r strict) := by
  unfold Demand.meet
  split
  · rename_i failure hfailure
    refine ends_pure ?_
    unfold wayOf at hfailure
    split at hfailure
    · dsimp only at hfailure
      split at hfailure
      · cases hfailure
      · cases hfailure
        exact show 415 < 500 by decide
    · cases hfailure
  · rename_i way hway
    refine (hbind way hway).bind fun outcome houtcome => ?_
    split
    · exact ends_pure houtcome
    · split
      · exact ends_pure (show 400 < 500 by decide)
      · exact ends_pure trivial

end Binding
end Intake
