import Intake.Proofs.Binding.Data
import Intake.Proofs.Binding.UnknownKeys
import Intake.Proofs.Markup.Edits

/-!
What no field declares. An element is read field by field, so a document that is read from markup has no keys but
those of fields, and no record in it has: that a key is not known is never said of it. Two fields that are called by
the same name are the exception, since what was read for one of them may be built for the other.
-/

namespace Intake

open Shape
open Binding (Gives gives_mapM exists_item_of_blames recordName?_of_isUniform)

variable {c : Catalogue} {root name : String} {m : Model} {f : Field} {d : Descriptor} {v w : Value}
  {es : List (Value × Value)} {record : String → Value → Fitted}

/-- A value without anything inside. -/
structure Value.IsLeaf (v : Value) : Prop where
  items : v.items? = none
  entries : ∀ es, v ≠ .dict es

theorem Value.IsLeaf.text (s : String) : (Value.text s).IsLeaf := ⟨rfl, nofun⟩

namespace Markup

/-- A document that a record is built of: what an element says about its fields, or nothing where there is none. -/
def IsDocument (c : Catalogue) (name : String) (es : List (Value × Value)) : Prop :=
  es = [] ∨ ∃ e : Element, e.entries c name = .ok es

/-- What one element is read as for a field: a text, or the document of a record. -/
def IsPart (c : Catalogue) (d : Descriptor) (v : Value) : Prop :=
  v.IsLeaf ∨ ∃ name es, d.model = some name ∧ IsDocument c name es ∧ v = .dict es

/-- What is built for a field of a document that was read from markup: what was read for it, or its zero value. -/
inductive IsSeen (c : Catalogue) (f : Field) : Value → Prop where
  | leaf {v : Value} (hv : v.IsLeaf) : IsSeen c f v
  | record {name : String} {es : List (Value × Value)} (ht : f.type.unwrap.1 = .record name)
      (hes : IsDocument c name es) : IsSeen c f (.dict es)
  | row {xs : List Value} (hkind : c.kindOf f.type.unwrap.1 = .array) (hxs : ∀ x ∈ xs, IsPart c (c.descriptorOf f) x) :
      IsSeen c f (.list xs)
  | entries {es : List (Value × Value)} (hkind : c.kindOf f.type.unwrap.1 = .map)
      (hes : ∀ e ∈ es, e.1.IsLeaf ∧ IsPart c (c.descriptorOf f) e.2) : IsSeen c f (.dict es)

/-! ### What is read for a field -/

theorem isPart_value (e : Element) : Gives (fun _ => True) (IsPart c d) ((part c e).value d) := by
  cases hmodel : d.model with
  | none =>
      rw [value_part_of_no_model hmodel]
      exact .inl (.text e.text)
  | some name =>
      rw [value_part_of_model hmodel]
      cases hentries : e.entries c name with
      | error fault => trivial
      | ok es => exact .inr ⟨name, es, hmodel, .inr ⟨e, hentries⟩, rfl⟩

theorem isPart_entries (e : Element) :
    Gives (fun _ => True) (fun es => ∀ p ∈ es, p.1.IsLeaf ∧ IsPart c d p.2) ((part c e).entries d) := by
  rw [entries_part]
  refine gives_mapM fun p hp => ?_
  obtain ⟨inner, -, rfl⟩ := List.mem_map.mp hp
  exact (isPart_value inner).bind fun v hv => ⟨.text _, hv⟩

/-- What one element is read as is seen by a field that is neither a row nor a map. -/
theorem isSeen_of_isPart (hd : c.describeField f = .ok (c.descriptorOf f)) (harray : (c.descriptorOf f).kind ≠ .array)
    (hmap : (c.descriptorOf f).kind ≠ .map) (hv : IsPart c (c.descriptorOf f) v) : IsSeen c f v := by
  rcases hv with hv | ⟨name, es, hmodel, hes, rfl⟩
  · exact .leaf hv
  · refine .record ?_ hes
    rw [(Catalogue.kinds_of_field hd).1] at harray hmap
    rw [Catalogue.model_of_describeField hd] at hmodel
    generalize f.type.unwrap.1 = t at harray hmap hmodel
    cases t with
    | record other => exact congrArg Ty.record (Option.some.inj hmodel)
    | list | set | sequence | tuple => exact absurd rfl harray
    | dict => exact absurd rfl hmap
    | _ => cases hmodel

/-- Whatever is read for a field is seen by it. -/
theorem isSeen_readPlace (hd : c.describeField f = .ok (c.descriptorOf f)) (attributes : List (String × String))
    (children : List Element) :
    Gives (fun _ => True) (fun found => ∀ v ∈ found, IsSeen c f v)
      (readPlace attributes (partsOf c children) (c.descriptorOf f)) := by
  have hkind := (Catalogue.kinds_of_field hd).1
  unfold readPlace
  rw [filter_partsOf]
  split
  · rintro _ ⟨⟩
  · split
    · intro v hv
      obtain ⟨s, -, rfl⟩ := Option.map_eq_some_iff.mp hv
      exact .leaf (.text s)
    · generalize (children.filter fun e => e.name == (c.descriptorOf f).xmlName) = own
      cases own with
      | nil => rintro _ ⟨⟩
      | cons e rest =>
          rw [List.map_cons]
          dsimp only
          split
          · rename_i harray
            have hitems : ∀ p ∈ part c e :: rest.map (part c), Gives (fun _ => True) (IsPart c (c.descriptorOf f))
                (p.value (c.descriptorOf f)) := by
              rw [← List.map_cons]
              rintro p hp
              obtain ⟨item, -, rfl⟩ := List.mem_map.mp hp
              exact isPart_value item
            refine (gives_mapM hitems).bind fun xs hxs => ?_
            rintro _ ⟨⟩
            exact .row (hkind ▸ harray) hxs
          · rename_i hmap
            refine (isPart_entries e).bind fun es hes => ?_
            rintro _ ⟨⟩
            exact .entries (hkind ▸ hmap) (Value.forall_mem_dictOf hes)
          · rename_i harray hmap
            refine (isPart_value e).bind fun v hv => ?_
            rintro _ ⟨⟩
            exact isSeen_of_isPart hd harray hmap hv

/-- The zero value of a field is seen by it as if it were read. -/
theorem isSeen_zero (hd : c.describeField f = .ok (c.descriptorOf f)) : IsSeen c f (c.descriptorOf f).zero := by
  have hkind := (Catalogue.kinds_of_field hd).1
  unfold Descriptor.zero
  split
  · exact .leaf ⟨rfl, nofun⟩
  · cases hzero : (c.descriptorOf f).kind with
    | array => exact .row (hkind ▸ hzero) (List.forall_mem_nil _)
    | map => exact .entries (hkind ▸ hzero) (List.forall_mem_nil _)
    | record =>
        obtain ⟨name, ht⟩ := Catalogue.exists_record_of_kindOf (hkind ▸ hzero)
        exact .record ht (.inl rfl)
    | _ => exact .leaf ⟨rfl, nofun⟩

/-! ### What is read for a record -/

/-- The document of a record holds, under the keys of its fields, what is seen by them. -/
theorem IsDocument.exists_seen (hes : IsDocument c name es) (hm : c.model? name = some m)
    (hdescribed : ∀ f ∈ m.fields, c.describeField f = .ok (c.descriptorOf f))
    (hapart : m.fields.Pairwise Field.Apart) :
    ∃ found, es = Value.textEntries (entriesFor m.fields found) ∧ ∀ f ∈ m.fields, ∀ v ∈ found f, IsSeen c f v := by
  rcases hes with rfl | ⟨e, he⟩
  · exact ⟨fun _ => none, by simp [entriesFor, Value.textEntries], fun _ _ => nofun⟩
  · obtain ⟨found, hfound, hsame⟩ := exists_found hm hdescribed hapart he
    refine ⟨found, hsame, fun f hf v hv => ?_⟩
    have hseen := isSeen_readPlace (hdescribed f hf) e.attributes e.children
    rw [hfound f hf] at hseen
    exact hseen v hv

/-- What a record is completed with is seen by its fields, too. -/
theorem isSeen_given (hd : c.describeField f = .ok (c.descriptorOf f)) {found : Field → Option Value}
    (hfound : ∀ v ∈ found f, IsSeen c f v) : ∀ v ∈ given c found f, IsSeen c f v := by
  intro v hv
  unfold given zeroFound at hv
  cases hf : found f with
  | some w =>
      rw [hf, Option.some_or] at hv
      exact hfound v (hf.trans hv)
  | none =>
      rw [hf, Option.none_or] at hv
      split at hv
      · obtain rfl := Option.some.inj hv
        exact isSeen_zero hd
      · cases hv

/-! ### No key is blamed -/

/-- In the models that are read, unknown keys are refused, no two fields are called by the same name, and the items
of a row whose first is a record are all records of its model. -/
def ReadsApart (c : Catalogue) (root : String) : Prop :=
  ∀ name m, Within c root name → c.model? name = some m →
    m.strictness = .strict ∧ m.fields.Pairwise Field.Apart ∧ ∀ f ∈ m.fields, f.type.unwrap.1.isUniform = true

/-- What is read by models of a catalogue without clashes is read apart. -/
theorem readsApart_of_forall (hall : ∀ m ∈ c.models, m.strictness = .strict ∧ m.fields.Pairwise Field.Apart ∧
    ∀ f ∈ m.fields, f.type.unwrap.1.isUniform = true) : ReadsApart c root :=
  fun _ m _ hm => hall m (List.mem_of_find?_eq_some hm)

/-- No key is blamed for what holds no document. -/
theorem not_blames_leaf (hrecord : ∀ name v, Value.IsLeaf v → ¬Blames .extra (record name v)) (t : Ty)
    (hv : v.IsLeaf) : ¬Blames .extra (fit c record t v) := by
  have hinherited : IsInherited Value.IsLeaf := by
    refine ⟨fun v xs hv hxs => ?_, fun es hes => absurd rfl (hes.entries es)⟩
    rw [hv.items] at hxs
    cases hxs
  intro h
  obtain ⟨name, -, w, hw, hblames⟩ := exists_record_of_blames_inside hinherited t v hv h
  exact hrecord name w hw hblames

section field

variable (hleaf : ∀ name v, Value.IsLeaf v → ¬Blames .extra (record name v))
  (hrecord : ∀ name es, (c.descriptorOf f).model = some name → IsDocument c name es →
    ¬Blames .extra (record name (.dict es)))

include hleaf hrecord

/-- No key is blamed for what one element is read as, where it is built as the record that it was read as. -/
theorem not_blames_part {t : Ty} (ht : ∀ name, (c.descriptorOf f).model = some name → t.unwrap.1 = .record name)
    (hv : IsPart c (c.descriptorOf f) v) : ¬Blames .extra (fit c record t v) := by
  rcases hv with hv | ⟨name, es, hmodel, hes, rfl⟩
  · exact not_blames_leaf hleaf t hv
  · intro h
    have hfit := blames_fit_unwrap h
    rw [ht name hmodel, fit] at hfit
    exact hrecord name es hmodel hes hfit

/-- No key is blamed for what a field sees. -/
theorem not_blames_seen (hd : c.describeField f = .ok (c.descriptorOf f))
    (huniform : f.type.unwrap.1.isUniform = true) (hv : IsSeen c f v) : ¬Blames .extra (fit c record f.type v) := by
  have hmodel := Catalogue.model_of_describeField hd
  intro h
  have hfit := blames_fit_unwrap h
  cases hv with
  | leaf hv => exact not_blames_leaf hleaf f.type hv h
  | record ht hes =>
      rw [ht] at hmodel hfit
      rw [fit] at hfit
      exact hrecord _ _ hmodel hes hfit
  | @row xs hkind hxs =>
      obtain ⟨ys, hys, x, hx, u, hu, hitem⟩ := exists_item_of_blames hkind hfit
      obtain rfl := Option.some.inj hys
      refine not_blames_part hleaf hrecord (fun name hname => ?_) (hxs x hx) hitem
      have hnone : f.type.unwrap.1.recordName? = none := by
        cases ht : f.type.unwrap.1 with
        | record other =>
            rw [ht] at hkind
            cases hkind
        | _ => rfl
      rw [hname, hnone] at hmodel
      obtain ⟨inner, hinner, hrecord⟩ := Option.bind_eq_some_iff.mp hmodel.symm
      rw [Ty.eq_record_of_recordName? hrecord] at hinner
      exact recordName?_of_isUniform huniform hinner hu
  | @entries es hkind hes =>
      rcases Catalogue.eq_dict_of_kindOf hkind with ht | ⟨key, value, ht⟩
      · rw [ht, fit] at hfit
        cases hfit
      · rw [ht] at hmodel hfit
        simp only [fit] at hfit
        obtain ⟨e, he, hkey | hvalue⟩ := blames_fitEntries.mp (blames_map.mp hfit)
        · exact not_blames_leaf hleaf key (hes e he).1 hkey
        · refine not_blames_part hleaf hrecord (fun name hname => ?_) (hes e he).2 hvalue
          rw [hname] at hmodel
          exact Ty.eq_record_of_recordName? hmodel.symm

end field

/-- No key is blamed for a document that was read from markup. -/
theorem not_blames_document (hreads : ReadsApart c root) (fuel : Nat) (hname : Within c root name)
    (hes : IsDocument c name es) : ¬Blames .extra (fitRecord c fuel name (.dict es)) := by
  induction fuel generalizing name es with
  | zero =>
      intro h
      cases blames_refuse.mp h
  | succ fuel ih =>
      intro h
      obtain ⟨before, m, es, whole, hfuel, hm, hsame, hwhole, hfill⟩ := exists_dict_of_blames_fitRecord h
      obtain rfl := Nat.succ.inj hfuel
      obtain rfl := Value.dict.inj hsame
      obtain ⟨hstrict, hapart, huniform⟩ := hreads name m hname hm
      obtain ⟨ds, hds⟩ : ∃ ds, c.describe m = .ok ds := by
        rw [completed, hstrict] at hwhole
        cases hds : c.describe m with
        | ok ds => exact ⟨ds, rfl⟩
        | error fault =>
            rw [hds] at hwhole
            cases hwhole
      obtain ⟨-, hdescribed⟩ := Catalogue.describe_eq_map hds
      obtain ⟨found, rfl, hfound⟩ := hes.exists_seen hm hdescribed hapart
      rw [completed_eq hstrict hds hapart] at hwhole
      obtain rfl := Except.ok.inj hwhole
      have hleaf : ∀ name v, Value.IsLeaf v → ¬Blames .extra (fitRecord c fuel name v) := by
        intro name v hv hblames
        obtain ⟨-, -, es, -, -, -, hdict, -⟩ := exists_dict_of_blames_fitRecord hblames
        exact hv.entries es hdict
      rcases (blames_fillRecord.mp hfill).2 with ⟨f, hf, key, v, hv, hblames⟩ | ⟨-, e, he, key, hkey, hno⟩
      · rw [hstrict, findField?_completed hapart hf] at hv
        obtain ⟨w, hw, hpair⟩ := Option.map_eq_some_iff.mp hv
        obtain ⟨-, rfl⟩ := Prod.mk.inj hpair
        have hseen := isSeen_given (hdescribed f hf) (hfound f hf) w hw
        refine not_blames_seen hleaf (fun inner es hinner hes => ?_) (hdescribed f hf) (huniform f hf) hseen
          (blames_fit_of_fitField hblames)
        exact ih (.inside hname hm hf hinner) hes
      · obtain ⟨entry, hentry, rfl⟩ := List.mem_map.mp he
        obtain rfl := Option.some.inj hkey
        obtain ⟨f, hf, hwire, hgiven⟩ := exists_given_of_mem hentry
        obtain ⟨v, hv⟩ := Option.isSome_iff_exists.mp hgiven
        refine hno f hf v ?_
        rw [hstrict, findField?_completed hapart hf, hv, hwire]
        rfl

end Markup

namespace Binding

open Markup (HasOwnElements ReadsApart Edit Element IsDocument not_blames_document entries_eq_of_edits)

variable {o : BodyOptions} {r : Request} {validate : Bool} {j j' : Journal} {failure : Failure}

/-- A document for which no key is blamed is not refused for one. -/
theorem code_ne_unknownField_of_not_blames {document : Value}
    (hno : ¬Blames .extra (fitRecord c Shape.maxDepth m.name document))
    (h : (concluded c m o (Shape.build c m.name document)).outcome j = (.ok (.error failure), j')) :
    failure.code ≠ .unknownField := by
  cases hbuild : Shape.build c m.name document with
  | ok value =>
      rw [hbuild] at h
      obtain ⟨errors, j₁, -, h⟩ := Action.of_outcome_bind h
      cases h
  | error rejections =>
      rw [hbuild] at h
      obtain ⟨-, j₁, -, h⟩ := Action.of_outcome_bind h
      obtain rfl := Except.error.inj (Except.ok.inj (Prod.mk.inj h).1)
      rw [← blames_map, ← Shape.build, hbuild] at hno
      exact mt code_shapeFailure_eq_unknownField_iff.mp hno

/-- A body of markup is never refused for an unknown key. -/
theorem bindXml_ne_unknownField (hreads : ReadsApart c m.name)
    (h : (bindXml c m r validate).outcome j = (.ok (.error failure), j')) : failure.code ≠ .unknownField := by
  rcases exists_entries_or_invalidXml h with ⟨other, hother, hcode⟩ | ⟨e, es, hbody, hentries⟩
  · obtain rfl := Except.error.inj hother
    rw [hcode]
    decide
  · rw [outcome_bindXml hbody hentries] at h
    have hdocument : IsDocument c m.name es := .inr ⟨e, hentries⟩
    exact code_ne_unknownField_of_not_blames (not_blames_document hreads Shape.maxDepth .root hdocument) h

/-- The model of orders with lines. -/
def orderOfLines : Model := Markup.orderCatalogue.models.head (by decide)

/-- The order with a word to whoever reads it, and with the price of its line. -/
def annotatedOrder : Element :=
  .mk "Order" [("id", "7"), ("seen", "yes")] "please" [.mk "title" [] "" [] "",
    .mk "lines" [] "" [.mk "article" [] "a<b" [] "", .mk "price" [] "3" [] ""] "", .mk "notes" [] "" [] ""] ""

theorem edits_order : Relation.EqvGen (Edit Markup.orderCatalogue "Order") Markup.orderElement annotatedOrder := by
  have hseen : Edit Markup.orderCatalogue "Order" (.mk "Order" ([("id", "7")] ++ []) "" Markup.orderElement.children "")
      (.mk "Order" ([("id", "7")] ++ ("seen", "yes") :: []) "" Markup.orderElement.children "") :=
    .strayAttribute rfl rfl (by decide +kernel)
  have hprice : Edit Markup.orderCatalogue "Line" (.mk "lines" [] "" ([.mk "article" [] "a<b" [] ""] ++ []) "")
      (.mk "lines" [] "" ([.mk "article" [] "a<b" [] ""] ++ .mk "price" [] "3" [] "" :: []) "") :=
    .strayElement rfl rfl (by decide +kernel)
  have hfield : Markup.orderCatalogue.descriptorOf (plainField "lines" (.list (.record "Line"))) ∈
      orderOfLines.fields.map Markup.orderCatalogue.descriptorOf :=
    List.mem_map_of_mem (by simp [orderOfLines, Markup.orderCatalogue, plainModel])
  have hlines : Edit Markup.orderCatalogue "Order"
      (.mk "Order" [("id", "7"), ("seen", "yes")] "please" ([.mk "title" [] "" [] ""] ++
        .mk "lines" [] "" [.mk "article" [] "a<b" [] ""] "" :: [.mk "notes" [] "" [] ""]) "")
      (.mk "Order" [("id", "7"), ("seen", "yes")] "please" ([.mk "title" [] "" [] ""] ++
        .mk "lines" [] "" [.mk "article" [] "a<b" [] "", .mk "price" [] "3" [] ""] "" ::
          [.mk "notes" [] "" [] ""]) "") :=
    .inside rfl rfl hfield (by decide +kernel) (by decide +kernel) rfl hprice
  exact .trans _ _ _ (.rel _ _ hseen) (.trans _ _ _ (.rel _ _ .texts) (.rel _ _ hlines))

/-- A request with an order of which the number is none, and with keys that no order has. -/
def misnumberedRequest : Request := posting r#"<Order id="x" seen="yes"><price>3</price></Order>"#

/-- What is noted of a body of markup that is refused for one rejection. -/
def noteOfOne (model : String) : Journal :=
  Journal.empty.note ⟨.info, "bind_decode_failed",
    [("model", .text model), ("origin", .text "bind.xml"), ("error_count", .int 1)]⟩

/-- The failure for the number of the order. -/
def misnumberedFailure : Failure := shapeFailure orderOfLines "bind.xml" [⟨[.key "number"], .intParsing⟩]

/-- Two records in elements of different names, of which the first has the name of the second in documents. -/
def turnModel : Model :=
  plainModel "Turn" [{ plainField "a" (.record "Left") with
      documentKey := some "b", annotations := { Annotations.none with xml := some "left" } },
    { plainField "b" (.record "Right") with annotations := { Annotations.none with xml := some "right" } }]

def turnCatalogue : Catalogue :=
  ⟨[turnModel, plainModel "Left" [plainField "x" .int], plainModel "Right" [plainField "y" .int]], []⟩

def turnRequest : Request := posting "<Turn><left><x>1</x></left><right><y>2</y></right></Turn>"

end Binding
end Intake
