import Mathlib
import Intake.Proofs.Binding.Body
import Intake.Proofs.Binding.Clearing
import Intake.Proofs.Model.Instance
import Intake.Proofs.Shape.Built

/-!
Binding with and without unknown keys. A document that is bound as it stands is bound to the same record when its
unknown keys are dropped first, as far as each record is cleared by its own model: a row is cleared by the model of
its first item, and where two fields stand under one key the value is cleared for one of them alone.
-/

namespace Intake

/-- Whether all items of a row are records of one model, if the first is a record. -/
def Ty.isUniform (t : Ty) : Bool :=
  match t.element?.bind Ty.recordName? with
  | some name => t.parts.all fun u => u.unwrap.1.recordName? == some name
  | none => true

namespace Binding

open Shape

variable {c : Catalogue} {root name : String} {m : Model} {f : Field} {t : Ty} {v w : Value}
  {record : String → Value → Fitted}

/-- The models by which a document of a model is cleared. -/
inductive Clears (c : Catalogue) (root : String) : Model → Prop where
  | root {m : Model} (hm : c.model? root = some m) : Clears c root m
  | field {m next : Model} {f : Field} {name : String} (hm : Clears c root m) (hf : f ∈ m.fields)
      (hname : ClearsAs c f.type.unwrap.1 name) (hnext : c.model? name = some next) : Clears c root next

/-- In the models by which a document is cleared no two fields are called by the same name, and the items of a row
whose first item is a record are all records of its model. -/
def ClearsApart (c : Catalogue) (root : String) : Prop :=
  ∀ m, Clears c root m → m.fields.Pairwise Field.Apart ∧ ∀ f ∈ m.fields, f.type.unwrap.1.isUniform = true

/-- A record that is built of documents is built of cleared documents, too. -/
def KeepsCleared (c : Catalogue) (record : String → Value → Fitted) (name : String) : Prop :=
  ∀ es kept r, record name (.dict es) = .ok r → clearEntries c es (clearEach c es) name = .ok kept →
    record name (.dict kept) = .ok r

theorem recordName?_of_isUniform {u : Ty} (huniform : t.isUniform = true) (ht : t.element? = some (.record name))
    (hu : u ∈ t.parts) : u.unwrap.1 = .record name := by
  rw [Ty.isUniform, ht] at huniform
  have hall := List.all_eq_true.mp huniform u hu
  exact Ty.eq_record_of_recordName? (eq_of_beq hall)

/-- A cleared record fits as the record did. -/
theorem fit_of_whole (ht : t.unwrap.1 = .record name) (hkeeps : KeepsCleared c record name)
    (hw : (clear c v).whole name = .ok w) {r : Fit} (hfit : fit c record t v = .ok r) :
    fit c record t w = .ok r := by
  by_cases hdict : ∃ es, v = .dict es
  · obtain ⟨es, rfl⟩ := hdict
    rw [whole_clear_dict] at hw
    obtain ⟨kept, hkept, rfl⟩ := exists_of_map_eq_ok hw
    rw [← fit_unwrap c record t (.inl rfl), ht, fit] at hfit ⊢
    exact hkeeps es kept r hfit hkept
  · rw [whole_clear_of_not_dict fun es hes => hdict ⟨es, hes⟩] at hw
    rwa [← Except.ok.inj hw]

theorem forall₂_of_clearItems {xs ws : List Value} (h : clearItems c name xs = .ok ws) :
    List.Forall₂ (fun x w => (clear c x).whole name = .ok w) xs ws := by
  induction xs generalizing ws with
  | nil =>
      obtain rfl := Except.ok.inj h
      exact .nil
  | cons x rest ih =>
      rw [clearItems] at h
      obtain ⟨w, hw, h⟩ := exists_of_bind_eq_ok h
      obtain ⟨others, hothers, h⟩ := exists_of_bind_eq_ok h
      obtain rfl := Except.ok.inj h
      exact .cons hw (ih hothers)

/-- A cleared row fits as the row did. -/
theorem fit_of_items (hkind : c.kindOf t.unwrap.1 = .array) (ht : t.unwrap.1.element? = some (.record name))
    (huniform : t.unwrap.1.isUniform = true) (hkeeps : KeepsCleared c record name)
    (hw : (clear c v).items name = .ok w) {r : Fit} (hfit : fit c record t v = .ok r) :
    fit c record t w = .ok r := by
  by_cases hlist : ∃ xs, v = .list xs
  · obtain ⟨xs, rfl⟩ := hlist
    rw [items_clear_list] at hw
    obtain ⟨ws, hws, rfl⟩ := exists_of_map_eq_ok hw
    have hitems := forall₂_of_clearItems hws
    have hone : List.Forall₂ (fun x w => ∀ u ∈ t.unwrap.1.parts, ∀ r, fit c record u x = .ok r →
        fit c record u w = .ok r) xs ws :=
      hitems.imp fun x w hxw u hu r hr => fit_of_whole (recordName?_of_isUniform huniform ht hu) hkeeps hxw hr
    rw [← fit_unwrap c record t (.inl rfl)] at hfit ⊢
    generalize t.unwrap.1 = t at hkind ht hone hfit
    cases t with
    | list item | sequence item =>
        simp only [fit, Value.items?] at hfit ⊢
        obtain ⟨fits, hfits, rfl⟩ := exists_of_map_eq_ok hfit
        rw [fitItems_congr (hone.imp fun x w h => h item (List.mem_singleton.mpr rfl)) hfits]
        rfl
    | set frozen item =>
        simp only [fit, Value.items?] at hfit ⊢
        obtain ⟨fits, hfits, hset⟩ := exists_of_bind_eq_ok hfit
        rw [fitItems_congr (hone.imp fun x w h => h item (List.mem_singleton.mpr rfl)) hfits]
        exact hset
    | tuple items =>
        simp only [fit, Value.items?] at hfit ⊢
        obtain ⟨fits, hfits, rfl⟩ := exists_of_map_eq_ok hfit
        have hall : fitEach c record items.length xs.length 0 items ws = .ok fits := fitEach_congr hone hfits
        rw [← hitems.length_eq, hall]
        rfl
    | dict key value => cases hkind
    | _ => cases ht
  · rw [items_clear_of_not_list fun xs hxs => hlist ⟨xs, hxs⟩] at hw
    rwa [← Except.ok.inj hw]

theorem length_items_of_clear (hw : (clear c v).items name = .ok w) :
    w.items?.map List.length = v.items?.map List.length := by
  by_cases hlist : ∃ xs, v = .list xs
  · obtain ⟨xs, rfl⟩ := hlist
    rw [items_clear_list] at hw
    obtain ⟨ws, hws, rfl⟩ := exists_of_map_eq_ok hw
    simp only [Value.items?, Option.map_some, (forall₂_of_clearItems hws).length_eq]
  · rw [items_clear_of_not_list fun xs hxs => hlist ⟨xs, hxs⟩] at hw
    rw [Except.ok.inj hw]

theorem items_of_whole (hw : (clear c v).whole name = .ok w) :
    w.items?.map List.length = v.items?.map List.length := by
  by_cases hdict : ∃ es, v = .dict es
  · obtain ⟨es, rfl⟩ := hdict
    rw [whole_clear_dict] at hw
    obtain ⟨kept, -, rfl⟩ := exists_of_map_eq_ok hw
    rfl
  · rw [whole_clear_of_not_dict fun es hes => hdict ⟨es, hes⟩] at hw
    rw [Except.ok.inj hw]

theorem exists_fit_of_fitField {r : Fit} (h : fitField c record f v = .ok r) : ∃ r, fit c record f.type v = .ok r := by
  obtain ⟨r, hr, -⟩ := Takes.fitsAs (v := r.value) ⟨r, h, rfl⟩
  exact ⟨r, hr⟩

/-- A cleared value fits its field as the value did. -/
theorem fitField_of_cleared (hd : c.describeField f = .ok (c.descriptorOf f))
    (huniform : f.type.unwrap.1.isUniform = true)
    (hkeeps : ∀ name, ClearsAs c f.type.unwrap.1 name → KeepsCleared c record name)
    (hw : clearField (c.descriptorOf f) (clear c v) = .ok w) {r : Fit} (hfit : fitField c record f v = .ok r) :
    fitField c record f w = fitField c record f v := by
  obtain ⟨r, hr⟩ := exists_fit_of_fitField hfit
  rcases clearingOf hd with ⟨name, ht, -, -, hclear⟩ | ⟨name, hkind, ht, -, -, -, hclear⟩ | ⟨-, hclear⟩
  · rw [hclear] at hw
    exact fitField_congr (items_of_whole hw) ((fit_of_whole ht (hkeeps name (.inl ht)) hw hr).trans hr.symm)
  · rw [hclear] at hw
    exact fitField_congr (length_items_of_clear hw)
      ((fit_of_items hkind ht huniform (hkeeps name (.inr ⟨hkind, ht⟩)) hw hr).trans hr.symm)
  · rw [hclear, value_clear] at hw
    rw [Except.ok.inj hw]

/-- A record that is built of a document is built of the cleared document. -/
theorem keepsCleared_fitRecord (hclears : ClearsApart c root) (fuel : Nat)
    (hname : ∀ m, c.model? name = some m → Clears c root m) : KeepsCleared c (fitRecord c fuel) name := by
  induction fuel generalizing name with
  | zero =>
      intro es kept r hr
      cases hr
  | succ fuel ih =>
      intro es kept r hr hkept
      cases hm : c.model? name with
      | none =>
          simp only [fitRecord, hm] at hr
          cases hr
      | some m =>
          obtain ⟨hapart, huniform⟩ := hclears m (hname m hm)
          obtain ⟨-, hdescribed, -⟩ := clearEntries_eq_ok hm hapart hkept
          obtain ⟨whole, cleared, hwhole, hcleared, hmatches, hused⟩ := exists_completed hm hapart hkept
          simp only [fitRecord, hm, hwhole, hcleared] at hr ⊢
          refine fillRecord_congr (fun f hf => ?_) hused hr
          have hmatch := hmatches f hf
          have hfaults := (contributions_of_fillRecord hr).2 f hf
          generalize hfound : findField? m.strictness f whole = found at hmatch
          generalize findField? m.strictness f cleared = other at hmatch
          cases hmatch with
          | none => rfl
          | zero key => rfl
          | @cleared key v w hw =>
              obtain ⟨-, r, hr, -⟩ := (faults_eq_nil_iff_of_found (saysWhy_fitRecord fuel) hfound).mp hfaults
              have hkeeps : ∀ name, ClearsAs c f.type.unwrap.1 name → KeepsCleared c (fitRecord c fuel) name :=
                fun name hname' => ih fun next hnext => .field (hname m hm) hf hname' hnext
              rw [Option.map_some, Option.map_some,
                fitField_of_cleared (hdescribed f hf) (huniform f hf) hkeeps hw hr]

variable {r : Request} {validate : Bool} {j j' : Journal} {bound : Bound}

/-- A body that is bound as it stands is bound to the same record, with the same errors, where its unknown keys are
dropped, if each record is cleared by its own model. -/
theorem bindJson_of_strict (hclears : ClearsApart c m.name)
    (h : (bindJson c m r validate (.ok true)).outcome j = (.ok (.ok bound), j')) :
    (bindJson c m r validate (.ok false)).outcome j = (.ok (.ok bound), j') := by
  rcases exists_document_or_invalidJson h with ⟨failure, hfailure, -⟩ | ⟨document, hbody⟩
  · cases hfailure
  rw [outcome_bindJson hbody] at h ⊢
  rcases exists_builtFrom_or_invalidType rfl h with ⟨failure, hfailure, -⟩ | ⟨es, known, rfl, hmismatch, hknown⟩
  · cases hfailure
  obtain rfl := Except.ok.inj hknown
  obtain ⟨kept, hkept⟩ := exists_knownKeys hmismatch
  have hdropped : builtFrom c m ⟨"bind.json", validate, false, true⟩ es = .ok kept := hkept
  rw [outcome_bindDocument rfl hmismatch hknown] at h
  rw [outcome_bindDocument rfl hmismatch hdropped]
  cases hbuild : Shape.build c m.name (.dict es) with
  | error rejections =>
      rw [hbuild] at h
      obtain ⟨-, j₁, -, h⟩ := Action.of_outcome_bind h
      cases h
  | ok value =>
      obtain ⟨fit, hfit, rfl⟩ := exists_of_map_eq_ok hbuild
      have hcleared := keepsCleared_fitRecord hclears maxDepth (fun _ hm => .root hm) es kept fit hfit hkept
      have hsame : Shape.build c m.name (.dict kept) = .ok fit.value := by rw [Shape.build, hcleared]; rfl
      rw [hbuild] at h
      rw [hsame]
      exact h

theorem Clears.mem_models (h : Clears c root m) : m ∈ c.models := by
  cases h with
  | root hm => exact List.mem_of_find?_eq_some hm
  | field _ _ _ hnext => exact List.mem_of_find?_eq_some hnext

/-- What is cleared by models of a catalogue without clashes is cleared apart. -/
theorem clearsApart_of_forall (hall : ∀ m ∈ c.models, m.fields.Pairwise Field.Apart ∧
    ∀ f ∈ m.fields, f.type.unwrap.1.isUniform = true) : ClearsApart c root :=
  fun m hm => hall m hm.mem_models

/-- Teams with members, who may have somebody who leads them. -/
def teamModel : Model := plainModel "Team" [plainField "members" (.list (.record "Member"))]

def memberModel : Model :=
  plainModel "Member" [plainField "id" .int, plainField "lead" (.union [.record "Member", .null])]

def teamCatalogue : Catalogue := ⟨[teamModel, memberModel], []⟩

/-- A team of one. -/
def team : Value :=
  .record "Team" [("members", .list [.record "Member" [("id", .int 1), ("lead", .null)]])]

theorem ofBytes_team : Json.ofBytes (posting r#"{"members":[{"id":1}]}"#).body =
    .ok (.dict (Value.textEntries [("members", .list [.dict (Value.textEntries [("id", .int 1)])])])) :=
  ofBytes_posting (by decide +kernel) (by cbv)

/-- A team is bound with and without unknown keys. -/
theorem bindJson_of_strict_team :
    ClearsApart teamCatalogue "Team" ∧
      (bindJson teamCatalogue teamModel (posting r#"{"members":[{"id":1}]}"#) true (.ok true)).outcome .empty =
        (.ok (.ok ⟨team, []⟩), .empty) ∧
      (bindJson teamCatalogue teamModel (posting r#"{"members":[{"id":1}]}"#) true (.ok false)).outcome .empty =
        (.ok (.ok ⟨team, []⟩), .empty) := by
  have hclears : ClearsApart teamCatalogue "Team" := clearsApart_of_forall (by decide)
  have hstrict : (bindJson teamCatalogue teamModel (posting r#"{"members":[{"id":1}]}"#) true (.ok true)).outcome
      .empty = (.ok (.ok ⟨team, []⟩), .empty) := by
    rw [outcome_bindJson ofBytes_team]
    cbv
  exact ⟨hclears, hstrict, bindJson_of_strict hclears hstrict⟩

/-- Pairs of records of two models, and two fields under one key, of which one knows no keys. -/
def pairModel : Model := plainModel "Pair" [plainField "both" (.tuple [.record "Left", .record "Right"])]

def sharedModel : Model :=
  plainModel "Shared" [{ plainField "left" (.record "Left") with documentKey := some "k" },
    { plainField "none" (.record "None") with documentKey := some "k" }]

def pairCatalogue : Catalogue :=
  ⟨[pairModel, sharedModel, plainModel "Left" [plainField "l" .int], plainModel "Right" [plainField "r" .int],
    { plainModel "None" [] with strictness := .plain }], []⟩

/-- A pair as it is bound with a number of its second record. -/
def pair (r : Int) : Value :=
  .record "Pair" [("both", .tuple [.record "Left" [("l", .int 1)], .record "Right" [("r", .int r)]])]

/-- What stands under a shared key, as it is bound. -/
def shared (l : Int) : Value := .record "Shared" [("left", .record "Left" [("l", .int l)]), ("none", .record "None" [])]

/-- The second record of a pair is cleared by the model of the first, and what stands under a key for two fields by
the model of the second; what they held is lost without a word. -/
theorem bindJson_differs_on_pair :
    ((bindJson pairCatalogue pairModel (posting r#"{"both":[{"l":1},{"r":2}]}"#) true (.ok true)).outcome .empty =
        (.ok (.ok ⟨pair 2, []⟩), .empty) ∧
      (bindJson pairCatalogue pairModel (posting r#"{"both":[{"l":1},{"r":2}]}"#) true (.ok false)).outcome .empty =
        (.ok (.ok ⟨pair 0, []⟩), .empty) ∧ pair 2 ≠ pair 0) ∧
      (bindJson pairCatalogue sharedModel (posting r#"{"k":{"l":1}}"#) true (.ok true)).outcome .empty =
        (.ok (.ok ⟨shared 1, []⟩), .empty) ∧
      (bindJson pairCatalogue sharedModel (posting r#"{"k":{"l":1}}"#) true (.ok false)).outcome .empty =
        (.ok (.ok ⟨shared 0, []⟩), .empty) ∧ shared 1 ≠ shared 0 := by
  have hpair : Json.ofBytes (posting r#"{"both":[{"l":1},{"r":2}]}"#).body = .ok (.dict (Value.textEntries [("both",
      .list [.dict (Value.textEntries [("l", .int 1)]), .dict (Value.textEntries [("r", .int 2)])])])) :=
    ofBytes_posting (by decide +kernel) (by cbv)
  have hshared : Json.ofBytes (posting r#"{"k":{"l":1}}"#).body =
      .ok (.dict (Value.textEntries [("k", .dict (Value.textEntries [("l", .int 1)]))])) :=
    ofBytes_posting (by decide +kernel) (by cbv)
  rw [outcome_bindJson hpair, outcome_bindJson hpair, outcome_bindJson hshared, outcome_bindJson hshared]
  refine ⟨⟨?_, ?_, by simp [pair]⟩, ?_, ?_, by simp [shared]⟩ <;> cbv

end Binding
end Intake
