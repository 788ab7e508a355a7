import Intake.Proofs.Binding.Leniency
import Intake.Proofs.Json.Document
import Intake.Proofs.Shape.Blame

/-!
Unknown keys that are dropped. Where unknown keys are not refused, a body is never refused for one, as far as the
records in it are cleared before they are built: those in fields and those in rows. What is in the values of maps,
in rows of rows and in alternatives is not cleared.
-/

namespace Intake.Binding

open Shape

variable {c : Catalogue} {root name : String} {m : Model} {f : Field} {t : Ty} {v w : Value}
  {record : String → Value → Fitted}

/-- Whether all records in what is of a type are cleared: there are none, or it is one, or it is a row of them. -/
def clearsAll (c : Catalogue) (t : Ty) : Bool :=
  t.recordNames.isEmpty || t.unwrap.1.recordName?.isSome ||
    (c.kindOf t.unwrap.1 == .array && (t.unwrap.1.element?.bind Ty.recordName?).isSome && t.unwrap.1.isUniform)

/-- In the models by which a document is cleared no two fields are called by the same name, and all records in what
a field holds are cleared. -/
def ClearsFully (c : Catalogue) (root : String) : Prop :=
  ∀ m, Clears c root m → m.fields.Pairwise Field.Apart ∧ ∀ f ∈ m.fields, clearsAll c f.type = true

theorem clearsAll_cases (h : clearsAll c t = true) :
    t.recordNames = [] ∨ (∃ name, t.unwrap.1 = .record name) ∨
      ∃ name, c.kindOf t.unwrap.1 = .array ∧ t.unwrap.1.element? = some (.record name) ∧
        ∀ u ∈ t.unwrap.1.parts, u.unwrap.1 = .record name := by
  rw [clearsAll, Bool.or_eq_true, Bool.or_eq_true, Bool.and_eq_true, Bool.and_eq_true, List.isEmpty_iff,
    beq_iff_eq] at h
  rcases h with (hnone | hrecord) | ⟨⟨hkind, hitems⟩, huniform⟩
  · exact .inl hnone
  · obtain ⟨name, hname⟩ := Option.isSome_iff_exists.mp hrecord
    exact .inr (.inl ⟨name, Ty.eq_record_of_recordName? hname⟩)
  · obtain ⟨name, hname⟩ := Option.isSome_iff_exists.mp hitems
    obtain ⟨inner, hinner, hrecord⟩ := Option.bind_eq_some_iff.mp hname
    obtain rfl := Ty.eq_record_of_recordName? hrecord
    exact .inr (.inr ⟨name, hkind, hinner, fun u hu => recordName?_of_isUniform huniform hinner hu⟩)

/-- A key that is blamed for a row is blamed for an item. -/
theorem exists_item_of_blames (hkind : c.kindOf t = .array) (h : Blames .extra (fit c record t v)) :
    ∃ xs, v.items? = some xs ∧ ∃ x ∈ xs, ∃ u ∈ t.parts, Blames .extra (fit c record u x) := by
  cases t with
  | bareList | bareTuple | bareSet =>
      obtain ⟨name, hname, -⟩ := exists_record_of_blames _ v h
      cases hname
  | list item | sequence item =>
      rw [fit] at h
      split at h
      · rename_i xs hxs
        obtain ⟨x, hx, hitem⟩ := blames_fitItems.mp (blames_map.mp h)
        exact ⟨xs, hxs, x, hx, item, List.mem_singleton.mpr rfl, hitem⟩
      · cases blames_refuse.mp h
  | set frozen item =>
      rw [fit] at h
      split at h
      · rename_i xs hxs
        rcases blames_bind.mp h with hitems | ⟨fits, -, hset⟩
        · obtain ⟨x, hx, hitem⟩ := blames_fitItems.mp hitems
          exact ⟨xs, hxs, x, hx, item, List.mem_singleton.mpr rfl, hitem⟩
        · cases problem_of_blames_setFit hset
      · cases blames_refuse.mp h
  | tuple items =>
      rw [fit] at h
      split at h
      · rename_i xs hxs
        obtain ⟨q, hq, hitem⟩ := exists_mem_of_blames_fitEach (blames_map.mp h)
        obtain ⟨hu, hx⟩ := List.of_mem_zip hq
        exact ⟨xs, hxs, q.2, hx, q.1, hu, hitem⟩
      · cases blames_refuse.mp h
  | enumeration name =>
      obtain ⟨other, hname, -⟩ := exists_record_of_blames _ v h
      cases hname
  | _ => cases hkind

/-- A value that was cleared as a record of a model, or the empty document that stands for a missing one. -/
def IsCleared (c : Catalogue) (name : String) (w : Value) : Prop :=
  w = .dict [] ∨ ∃ v : Value, v.IsData ∧ (clear c v).whole name = .ok w

/-- No key is blamed for a cleared value of a field. -/
theorem not_blames_cleared (hd : c.describeField f = .ok (c.descriptorOf f)) (hall : clearsAll c f.type = true)
    (hrecord : ∀ name, ClearsAs c f.type.unwrap.1 name → ∀ w, IsCleared c name w → ¬Blames .extra (record name w))
    (hv : v.IsData) (hw : clearField (c.descriptorOf f) (clear c v) = .ok w) :
    ¬Blames .extra (fit c record f.type w) := by
  intro h
  rcases clearsAll_cases hall with hnone | ⟨name, ht⟩ | ⟨name, hkind, ht, hparts⟩
  · obtain ⟨name, hname, -⟩ := exists_record_of_blames f.type w h
    rw [hnone] at hname
    cases hname
  · rcases clearingOf hd with ⟨other, hother, -, -, hclear⟩ | ⟨other, hkind, -⟩ | ⟨hno, -⟩
    · obtain rfl := Ty.record.inj (hother.symm.trans ht)
      rw [hclear] at hw
      have hfit := blames_fit_unwrap h
      rw [ht, fit] at hfit
      exact hrecord _ (.inl ht) w (.inr ⟨v, hv, hw⟩) hfit
    · rw [ht] at hkind
      cases hkind
    · exact hno name (.inl ht)
  · rcases clearingOf hd with ⟨other, hother, -⟩ | ⟨other, -, hother, -, -, -, hclear⟩ | ⟨hno, -⟩
    · rw [hother] at hkind
      cases hkind
    · obtain rfl := Ty.record.inj (Option.some.inj (hother.symm.trans ht))
      rw [hclear] at hw
      obtain ⟨ws, hws, x, hx, u, hu, hitem⟩ := exists_item_of_blames hkind (blames_fit_unwrap h)
      have hfit := blames_fit_unwrap hitem
      rw [hparts u hu, fit] at hfit
      refine hrecord _ (.inr ⟨hkind, ht⟩) x (.inr ?_) hfit
      cases hv with
      | list hxs =>
          obtain ⟨all, hitems, rfl⟩ := exists_of_map_eq_ok hw
          obtain rfl := Option.some.inj hws
          obtain ⟨y, hy, hyx⟩ := exists_mem_of_forall₂ (forall₂_of_clearItems hitems) x hx
          exact ⟨y, hxs y hy, hyx⟩
      | _ =>
          obtain rfl := Except.ok.inj hw
          cases hws
    · exact absurd (.inr ⟨hkind, ht⟩) (hno name)

/-- What is neither a document nor a row with items is as it was after it was cleared. -/
theorem clearField_of_leaf (hd : c.describeField f = .ok (c.descriptorOf f)) (hdict : ∀ es, v ≠ .dict es)
    (hlist : ∀ x xs, v ≠ .list (x :: xs)) : clearField (c.descriptorOf f) (clear c v) = .ok v := by
  have hitems : ∀ name, (clear c v).items name = .ok v := by
    intro name
    cases v with
    | list xs =>
        cases xs with
        | nil => rfl
        | cons x rest => exact absurd rfl (hlist x rest)
    | _ => rfl
  rcases clearingOf hd with ⟨name, -, -, -, hclear⟩ | ⟨name, -, -, -, -, -, hclear⟩ | ⟨-, hclear⟩
  · rw [hclear, whole_clear_of_not_dict hdict]
  · rw [hclear, hitems]
  · rw [hclear, value_clear]

/-- The zero value of a field is cleared already, unless it stands for a record. -/
theorem clearField_zero (hd : c.describeField f = .ok (c.descriptorOf f)) :
    clearField (c.descriptorOf f) (clear c (c.descriptorOf f).zero) = .ok (c.descriptorOf f).zero ∨
      (c.descriptorOf f).zero = .dict [] ∧ ∃ name, f.type.unwrap.1 = .record name := by
  have hkinds := (Catalogue.kinds_of_field hd).1
  unfold Descriptor.zero
  split
  · exact .inl (clearField_of_leaf hd nofun nofun)
  · cases hkind : (c.descriptorOf f).kind with
    | record =>
        rw [hkind] at hkinds
        exact .inr ⟨rfl, Catalogue.exists_record_of_kindOf hkinds.symm⟩
    | map =>
        refine .inl ?_
        rcases clearingOf hd with ⟨name, -, hrecord, -⟩ | ⟨name, -, -, hrow, -⟩ | ⟨-, hclear⟩
        · rw [hkind] at hrecord
          cases hrecord
        · rw [hkind] at hrow
          cases hrow
        · rw [hclear, value_clear]
    | _ => exact .inl (clearField_of_leaf hd nofun nofun)

/-- What a model finds for a field in a cleared document blames no key. -/
theorem not_blames_found (hd : c.describeField f = .ok (c.descriptorOf f)) (hall : clearsAll c f.type = true)
    (hrecord : ∀ name, ClearsAs c f.type.unwrap.1 name → ∀ w, IsCleared c name w → ¬Blames .extra (record name w))
    {key : String} {found : Option (String × Value)} (hmatches : Matches c f found (some (key, w)))
    (hfound : ∀ e ∈ found, e.2.IsData) : ¬Blames .extra (fitField c record f w) := by
  intro h
  have hfit := blames_fit_of_fitField h
  cases hmatches with
  | @cleared key v w hw => exact not_blames_cleared hd hall hrecord (hfound (key, v) rfl) hw hfit
  | zero key =>
      rcases clearField_zero hd with hw | ⟨hzero, name, ht⟩
      · exact not_blames_cleared hd hall hrecord (hfound (key, _) rfl) hw hfit
      · rw [hzero] at hfit
        have hdict := blames_fit_unwrap hfit
        rw [ht, fit] at hdict
        exact hrecord name (.inl ht) (.dict []) (.inl rfl) hdict

/-- The document that stands for a missing record is cleared, if the record is of a strict model whose fields are
described. -/
theorem clear_empty (hm : c.model? name = some m) {ds : List Descriptor} (hds : c.describe m = .ok ds) :
    clearEntries c [] (clearEach c []) name = .ok [] := by
  have hnone : ∀ ds : List Descriptor, clearFields [] [] ds = .ok [] := by
    intro ds
    induction ds with
    | nil => rfl
    | cons d rest ih =>
        rw [clearFields]
        exact ih
  rw [clearEntries, hm]
  simp only [Action.describe_eq_ok hds, ok_bind, clearEach, hnone]
  rfl

/-- What is cleared as a document that is built is what is kept of a document, or it is the empty document of a plain
model. -/
theorem IsCleared.document {kept whole : List (Value × Value)} (h : IsCleared c name (.dict kept))
    (hm : c.model? name = some m) (hwhole : completed c m kept = .ok whole) :
    (∃ es, (Value.dict es).IsData ∧ clearEntries c es (clearEach c es) name = .ok kept) ∨
      m.strictness = .plain ∧ kept = [] := by
  rcases h with hempty | ⟨v, hv, hclear⟩
  · obtain rfl := Value.dict.inj hempty
    cases hstrictness : m.strictness with
    | plain => exact .inr ⟨rfl, rfl⟩
    | strict =>
        unfold completed at hwhole
        rw [hstrictness] at hwhole
        dsimp only at hwhole
        split at hwhole
        · rename_i ds hds
          exact .inl ⟨[], .dict nofun, clear_empty hm hds⟩
        · cases hwhole
  · by_cases hdict : ∃ es, v = .dict es
    · obtain ⟨es, rfl⟩ := hdict
      rw [whole_clear_dict] at hclear
      obtain ⟨all, hkept, hsame⟩ := exists_of_map_eq_ok hclear
      obtain rfl := Value.dict.inj hsame
      exact .inl ⟨es, hv, hkept⟩
    · rw [whole_clear_of_not_dict fun es hes => hdict ⟨es, hes⟩] at hclear
      exact absurd ⟨kept, Except.ok.inj hclear⟩ hdict

/-- No key is blamed for a cleared document. -/
theorem not_blames_fitRecord (hclears : ClearsFully c root) (fuel : Nat)
    (hname : ∀ m, c.model? name = some m → Clears c root m) (hw : IsCleared c name w) :
    ¬Blames .extra (fitRecord c fuel name w) := by
  induction fuel generalizing name w with
  | zero =>
      intro h
      cases blames_refuse.mp h
  | succ fuel ih =>
      intro h
      obtain ⟨before, m, kept, whole, hfuel, hm, rfl, hwhole, hfill⟩ := exists_dict_of_blames_fitRecord h
      obtain rfl := Nat.succ.inj hfuel
      obtain ⟨hapart, hall⟩ := hclears m (hname m hm)
      -- A cleared document blames only what its fields do; an empty one of a plain model has nothing to be found.
      rcases hw.document hm hwhole with ⟨es, hes, hkept⟩ | ⟨hplain, rfl⟩
      · obtain ⟨-, hdescribed, -⟩ := clearEntries_eq_ok hm hapart hkept
        obtain ⟨original, cleared, horiginal, hcleared, hmatches, hused⟩ := exists_completed hm hapart hkept
        obtain rfl := Except.ok.inj (hcleared.symm.trans hwhole)
        have hdata := isData_completed hes.entries horiginal
        rcases (blames_fillRecord.mp hfill).2 with ⟨f, hf, key, x, hx, hblames⟩ | ⟨hstrict, e, he, key, hkey, hno⟩
        · have hmatch := hmatches f hf
          rw [hx] at hmatch
          refine not_blames_found (hdescribed f hf) (hall f hf) ?_ hmatch ?_ hblames
          · exact fun next hnext w hw => ih (fun n hn => .field (hname m hm) hf hnext hn) hw
          · rintro ⟨other, v⟩ hfound
            obtain ⟨e, he, rfl⟩ := exists_mem_of_findField? hfound
            exact hdata e he
        · obtain ⟨f, hf, other, x, hother, hfound⟩ := hused hstrict e he
          rw [hother] at hkey
          obtain rfl := Option.some.inj hkey
          exact hno f hf x hfound
      · rw [completed, hplain] at hwhole
        obtain rfl := Except.ok.inj hwhole
        rcases (blames_fillRecord.mp hfill).2 with ⟨f, hf, key, x, hx, -⟩ | ⟨hstrict, -⟩
        · rw [hplain, findField?_plain] at hx
          cases hx
        · rw [hplain] at hstrict
          cases hstrict

variable {r : Request} {validate : Bool} {j j' : Journal} {failure : Failure}

/-- Where unknown keys are dropped, no body is refused for one, if all records in it are cleared. -/
theorem bindJson_ne_unknownField (hclears : ClearsFully c m.name)
    (h : (bindJson c m r validate (.ok false)).outcome j = (.ok (.error failure), j')) :
    failure.code ≠ .unknownField := by
  rcases exists_document_or_invalidJson h with ⟨other, hother, hcode⟩ | ⟨document, hbody⟩
  · obtain rfl := Except.error.inj hother
    rw [hcode]
    decide
  rw [outcome_bindJson hbody] at h
  rcases exists_builtFrom_or_invalidType rfl h with ⟨other, hother, hcode⟩ | ⟨es, kept, rfl, hmismatch, hkept⟩
  · obtain rfl := Except.error.inj hother
    rw [hcode]
    decide
  rw [outcome_bindDocument rfl hmismatch hkept] at h
  cases hbuild : Shape.build c m.name (.dict kept) with
  | ok value =>
      rw [hbuild] at h
      obtain ⟨errors, j₁, -, h⟩ := Action.of_outcome_bind h
      cases h
  | error rejections =>
      rw [hbuild] at h
      obtain ⟨-, j₁, -, h⟩ := Action.of_outcome_bind h
      obtain rfl := Except.error.inj (Except.ok.inj (Prod.mk.inj h).1)
      have hdocument := Json.isData_of_ofBytes hbody
      have hcleared : IsCleared c m.name (.dict kept) := by
        refine .inr ⟨.dict es, hdocument, ?_⟩
        have hknown : knownKeys c m.name es = .ok kept := hkept
        rw [whole_clear_dict, ← knownKeys, hknown]
        rfl
      have hno := not_blames_fitRecord hclears Shape.maxDepth (fun _ hm => .root hm) hcleared
      rw [← blames_map, ← Shape.build, hbuild] at hno
      exact mt code_shapeFailure_eq_unknownField_iff.mp hno

/-- What is cleared by models of a catalogue of which every record is cleared is cleared fully. -/
theorem clearsFully_of_forall (hall : ∀ m ∈ c.models, m.fields.Pairwise Field.Apart ∧
    ∀ f ∈ m.fields, clearsAll c f.type = true) : ClearsFully c root :=
  fun m hm => hall m hm.mem_models

/-- What is noted of a document that is refused for some rejections. -/
def noteOfRefusal (model : String) (count : Int) : Journal :=
  Journal.empty.note ⟨.info, "bind_decode_failed",
    [("model", .text model), ("origin", .text "bind.json"), ("error_count", .int count)]⟩

/-- A member with unknown keys, and with nothing for the number of the leader. -/
def leaderless : List (Value × Value) :=
  Value.textEntries [("z", .int 1), ("lead", .dict (Value.textEntries [("y", .int 2), ("id", .null)]))]

def leaderlessRequest : Request := posting r#"{"z":1,"lead":{"y":2,"id":null}}"#

/-- The failure for the number of the leader. -/
def leaderlessFailure : Failure := shapeFailure memberModel "bind.json" [⟨[.key "lead", .key "id"], .intType⟩]

/-- A member with unknown keys, whose leader has no number, is refused for that and not for the keys. -/
theorem bindJson_ne_unknownField_member :
    ClearsFully teamCatalogue "Member" ∧
      (bindJson teamCatalogue memberModel leaderlessRequest true (.ok false)).outcome .empty =
        (.ok (.error leaderlessFailure), noteOfRefusal "Member" 1) ∧
      leaderlessFailure.code ≠ .unknownField := by
  have hclears : ClearsFully teamCatalogue "Member" := clearsFully_of_forall (by decide)
  have hbody : Json.ofBytes leaderlessRequest.body = .ok (.dict leaderless) :=
    ofBytes_posting (by decide +kernel) (by cbv)
  have hmismatch : jsonTypeMismatch teamCatalogue memberModel.name leaderless "" = .ok none := by decide +kernel
  have hkept : builtFrom teamCatalogue memberModel ⟨"bind.json", true, false, true⟩ leaderless =
      .ok (Value.textEntries [("lead", .dict (Value.textEntries [("id", .null)]))]) := by cbv
  have hbuild : Shape.build teamCatalogue memberModel.name
      (.dict (Value.textEntries [("lead", .dict (Value.textEntries [("id", .null)]))])) =
        .error [⟨[.key "lead", .key "id"], .intType⟩] := by cbv
  have hrefused : (bindJson teamCatalogue memberModel leaderlessRequest true (.ok false)).outcome .empty =
      (.ok (.error leaderlessFailure), noteOfRefusal "Member" 1) := by
    rw [outcome_bindJson hbody, outcome_bindDocument rfl hmismatch hkept, hbuild]
    rfl
  exact ⟨hclears, hrefused, bindJson_ne_unknownField hclears hrefused⟩

/-- Members by their names, and two fields of which one is called by the name of the other. -/
def rollModel : Model := plainModel "Roll" [plainField "named" (.dict .str (.record "Entry"))]

def crossedModel : Model := plainModel "Crossed" [{ plainField "a" .int with documentKey := some "x" }, plainField "x" .int]

def rollCatalogue : Catalogue := ⟨[rollModel, crossedModel, plainModel "Entry" [plainField "id" .int]], []⟩

/-- A body is refused for an unknown key in the value of a map, and for a field that is called by its attribute while
another is missing that has its key. -/
theorem bindJson_refuses_unknown_key :
    (bindJson rollCatalogue rollModel (posting r#"{"named":{"p":{"id":1,"z":2}}}"#) true (.ok false)).outcome
        .empty = (.ok (.error (.unknownField "named.p.z" "Roll" "bind.json")), noteOfRefusal "Roll" 1) ∧
      (bindJson rollCatalogue crossedModel (posting r#"{"a":1}"#) true (.ok false)).outcome .empty =
        (.ok (.error (.unknownField "a" "Crossed" "bind.json")), noteOfRefusal "Crossed" 1) := by
  have hroll : Json.ofBytes (posting r#"{"named":{"p":{"id":1,"z":2}}}"#).body = .ok (.dict (Value.textEntries
      [("named", .dict (Value.textEntries [("p", .dict (Value.textEntries [("id", .int 1), ("z", .int 2)]))]))])) :=
    ofBytes_posting (by decide +kernel) (by cbv)
  have hcrossed : Json.ofBytes (posting r#"{"a":1}"#).body = .ok (.dict (Value.textEntries [("a", .int 1)])) :=
    ofBytes_posting (by decide +kernel) (by cbv)
  rw [outcome_bindJson hroll, outcome_bindJson hcrossed]
  constructor <;> cbv

end Intake.Binding
