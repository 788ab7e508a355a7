import Intake.Markup.Reader
import Intake.Proofs.Markup.Fields

/-!
Records that are written as markup and read. Whatever the layout of the document, the record that is built
from it is the record that was written.
-/

namespace Intake.Markup

open Element (Relaid)

/-- A model that markup can hold: its fields are such, and have places of different names. -/
structure IsXmlModel (c : Catalogue) (m : Model) : Prop where
  strict : m.strictness = .strict
  apart : m.fields.Pairwise Field.Apart
  places : (m.fields.map fun f => (c.descriptorOf f).xmlName).Nodup
  fields : ∀ f ∈ m.fields, IsXmlField c f

/-- The models whose records can be inside a record of a model, at any depth. -/
inductive Within (c : Catalogue) (root : String) : String → Prop where
  | root : Within c root root
  | inside {name inner : String} {m : Model} {f : Field} (hname : Within c root name)
      (hm : c.model? name = some m) (hf : f ∈ m.fields) (hinner : (c.descriptorOf f).model = some inner) :
      Within c root inner

variable {c : Catalogue} {build : String → Value → Shape.Fitted} {f : Field} {v : Value}

/-- A record that is written and read back: from what its model sees of its element, under any name and in
whatever layout, the record is built. -/
def RecordSurvives (c : Catalogue) (build : String → Value → Shape.Fitted) (name : String) (x : Value) : Prop :=
  (∃ model attributes, x = .record model attributes) ∧
    ∀ tag, ∃ e, (writing c x).whole tag = .ok e ∧ e.name = tag ∧
      ∀ e', Relaid e e' → ∃ es, e'.entries c name = .ok (Value.textEntries es) ∧
        ∃ r, build name (.dict (Value.textEntries es)) = .ok r ∧ r.value = x

/-- A record inside another is read back from its element. -/
theorem exists_readBack_of_record {d : Descriptor} {t : Ty} {name : String} (hmodel : d.model = some name)
    (ht : t.unwrap.1 = .record name) (hx : RecordSurvives c build name v) (tag : String) :
    ∃ e, (writing c v).whole tag = .ok e ∧ e.name = tag ∧ ReadBack c build d t v e := by
  obtain ⟨e, hwrite, hname, hread⟩ := hx.2 tag
  refine ⟨e, hwrite, hname, ?_⟩
  intro e' hrelaid
  obtain ⟨es, hes, hbuild⟩ := hread e' hrelaid
  refine ⟨.dict (Value.textEntries es), ?_, Shape.fitsAs_of_record ht rfl hbuild, rfl⟩
  rw [value_part_of_model hmodel, hes]
  rfl

/-- The text of a scalar is read back from its element. -/
theorem exists_readBack_of_isScalar {d : Descriptor} {t : Ty} {kind : Kind} (hmodel : d.model = none)
    (ht : t.unwrap.1.scalarKind? = some kind) (hv : IsScalar kind v) (hspelt : v.IsSpellable) (tag : String) :
    ∃ e, (writing c v).whole tag = .ok e ∧ e.name = tag ∧ ReadBack c build d t v e := by
  refine ⟨leaf tag v, ?_, rfl, ?_⟩
  · rw [writing_of_isScalar hv]
    rfl
  · rw [leaf_of_isScalar tag hv]
    exact readBack_of_isScalar tag [] hmodel ht hv hspelt

/-- Items that are written and read back one by one make a row that is. -/
theorem survives_list_of_forall {item : Ty} {xs : List Value} (hf : IsXmlField c f)
    (hlist : f.type.unwrap.1 = .list item)
    (hxs : ∀ x ∈ xs, ∃ e, (writing c x).whole (c.descriptorOf f).xmlName = .ok e ∧
      e.name = (c.descriptorOf f).xmlName ∧ ReadBack c build (c.descriptorOf f) item x e)
    (htakes : Shape.Takes c build f (.list xs) (.list xs)) : Survives c build f (.list xs) := by
  choose! element hwrite hname hread using hxs
  have hwriteAll : List.Forall₂ (fun x e => (writing c x).whole (c.descriptorOf f).xmlName = .ok e) xs
      (xs.map element) := List.forall₂_map_right_iff.mpr (List.forall₂_same.mpr hwrite)
  have hreadAll : List.Forall₂ (ReadBack c build (c.descriptorOf f) item) xs (xs.map element) :=
    List.forall₂_map_right_iff.mpr (List.forall₂_same.mpr hread)
  apply survives_list hf hlist hwriteAll _ hreadAll htakes
  intro e he
  obtain ⟨x, hx, rfl⟩ := List.mem_map.mp he
  exact hname x hx

/-- A scalar is written and read back, be it as an attribute or as an element. -/
theorem survives_of_isScalar {kind : Kind} (hf : IsXmlField c f) (ht : f.type.unwrap.1.scalarKind? = some kind)
    (hv : IsScalar kind v) (hspelt : v.IsSpellable) (htakes : Shape.Takes c build f v v) :
    Survives c build f v := by
  by_cases hattribute : (c.descriptorOf f).xmlAttribute = true
  · exact survives_attribute hf hattribute ht hv hspelt htakes
  · have hnone : (c.descriptorOf f).model = none := by
      rw [Catalogue.model_of_describeField hf.described]
      generalize f.type.unwrap.1 = t at ht
      cases t <;> first | rfl | cases ht
    have hkind : (c.descriptorOf f).kind = kind := by
      rw [(Catalogue.kinds_of_field hf.described).1, kindOf_of_scalarKind? c ht]
    obtain ⟨harray, hmap, -⟩ := isPlain_of_scalarKind? ht
    obtain ⟨e, hwrite, hname, hread⟩ : ∃ e, (writing c v).whole (c.descriptorOf f).xmlName = .ok e ∧
        e.name = (c.descriptorOf f).xmlName ∧ ReadBack c build (c.descriptorOf f) f.type v e :=
      exists_readBack_of_isScalar hnone ht hv hspelt _
    have hitems : v.items? = none := by cases hv <;> rfl
    exact survives_whole hf (by simpa using hattribute) (by rwa [hkind]) (by rwa [hkind]) hv.isNull_eq_false hwrite
      hname hread hitems htakes

/-- A record inside another is written and read back as an element. -/
theorem survives_of_record {name : String} (hf : IsXmlField c f) (ht : f.type.unwrap.1 = .record name)
    (hx : RecordSurvives c build name v) (htakes : Shape.Takes c build f v v) : Survives c build f v := by
  have hmodel : (c.descriptorOf f).model = some name := by
    rw [Catalogue.model_of_describeField hf.described, ht]
    rfl
  have hkind : (c.descriptorOf f).kind = .record := by
    rw [(Catalogue.kinds_of_field hf.described).1, ht]
    rfl
  have hattribute := hf.isElement (by rw [ht]; rfl)
  obtain ⟨e, hwrite, hname, hread⟩ := exists_readBack_of_record hmodel ht hx (c.descriptorOf f).xmlName
  obtain ⟨⟨model, attributes, rfl⟩, -⟩ := hx
  exact survives_whole hf hattribute (by rw [hkind]; decide) (by rw [hkind]; decide) rfl hwrite hname hread rfl htakes

/-- Whatever a field holds is written and read back, if the records in it are. -/
theorem survives_of_holds {recordValue : String → Value → Prop} (hf : IsXmlField c f)
    (hv : f.Holds c build (fun kind v => IsScalar kind v ∧ v.IsSpellable) recordValue v)
    (hrecord : ∀ name x, (c.descriptorOf f).model = some name → recordValue name x →
      RecordSurvives c build name x) : Survives c build f v := by
  have hmodel := Catalogue.model_of_describeField hf.described
  rcases hv with ⟨rfl, hnull⟩ | ⟨htakes, hinhabits⟩
  · exact survives_null hf hnull
  · generalize ht : f.type.unwrap.1 = t at hinhabits
    rw [ht] at hmodel
    cases hinhabits with
    | scalar hscalar hv => exact survives_of_isScalar hf (by rw [ht]; exact hscalar) hv.1 hv.2 htakes
    | record hv => exact survives_of_record hf ht (hrecord _ v hmodel hv) htakes
    | @scalars item t kind xs hitem hscalar hxs =>
        have hnone : (c.descriptorOf f).model = none := by
          rw [hmodel]
          simp only [Ty.recordName?, Ty.element?, hitem, Option.bind_some]
          cases t <;> first | rfl | cases hscalar
        refine survives_list_of_forall hf ht ?_ htakes
        intro x hx
        exact exists_readBack_of_isScalar hnone (by rwa [hitem]) (hxs x hx).1 (hxs x hx).2 _
    | @records item name xs hitem hxs =>
        have hsome : (c.descriptorOf f).model = some name := by
          rw [hmodel]
          simp only [Ty.recordName?, Ty.element?, hitem, Option.bind_some]
        refine survives_list_of_forall hf ht ?_ htakes
        intro x hx
        exact exists_readBack_of_record hsome (by rw [hitem]) (hrecord name x hsome (hxs x hx)) _
    | map hkey hvalue hscalar hkeys hes => exact survives_map hf ht hkey hvalue hscalar hkeys hes htakes

/-- A record whose fields are written one by one. -/
theorem whole_of_forall {m : Model} {name : String} {value : Field → Value} {addition : Field → Addition}
    (hm : c.model? name = some m) (hmodel : IsXmlModel c m)
    (hwrite : ∀ f ∈ m.fields, writeField (c.descriptorOf f) (writing c (value f)) = .ok (addition f))
    (hplace : ∀ f ∈ m.fields, (addition f).IsAt (c.descriptorOf f).xmlName) (tag : String) :
    (writing c (.record m.name (m.fields.map fun f => (f.name, value f)))).whole tag =
      .ok (.mk tag (m.fields.flatMap fun f => (addition f).attributes) ""
        (m.fields.flatMap fun f => (addition f).children) "") := by
  have hlookup : ∀ f ∈ m.fields, (writingEach c (m.fields.map fun f => (f.name, value f))).lookup
      (c.descriptorOf f).name = some (writing c (value f)) := by
    intro f hf
    have hnames : (m.fields.map Field.name).Nodup := List.pairwise_map.mpr (hmodel.apart.imp fun h => h.2.2.2)
    rw [lookup_writingEach, (Catalogue.names_of_describeField (hmodel.fields f hf).described).1,
      lookup_fields value hnames hf, Option.map_some]
  have hfields := writeFields_of_forall tag hlookup hwrite hplace hmodel.places
  have hdescribe := Catalogue.describe_of_forall fun f hf => (hmodel.fields f hf).described
  rw [← Catalogue.name_of_model? hm] at hm
  simp only [writing, writeRecord, hm, Action.describe_eq_ok hdescribe, ok_bind, hfields]

/-- A field whose value is written at its place, and what is found for it there, in whatever layout. -/
def Regained (c : Catalogue) (f : Field) (v : Value) (back : Option Value → Prop) : Prop :=
  ∃ a : Addition, writeField (c.descriptorOf f) (writing c v) = .ok a ∧ a.IsAt (c.descriptorOf f).xmlName ∧
    ∀ (attributes : List (String × String)) (parts : List Part) (own : List Element),
      attributes.lookup (c.descriptorOf f).xmlName = a.attributes.lookup (c.descriptorOf f).xmlName →
      parts.filter (fun p => p.name == (c.descriptorOf f).xmlName) = own.map (part c) →
      List.Forall₂ Relaid a.children own →
      ∃ found, readPlace attributes parts (c.descriptorOf f) = .ok found ∧ back found

theorem Regained.mono {back back' : Option Value → Prop} (h : Regained c f v back)
    (hback : ∀ found, back found → back' found) : Regained c f v back' := by
  obtain ⟨a, hwrite, hplace, hread⟩ := h
  refine ⟨a, hwrite, hplace, fun attributes parts own hattributes hparts hown => ?_⟩
  obtain ⟨found, hfound, h⟩ := hread attributes parts own hattributes hparts hown
  exact ⟨found, hfound, hback found h⟩

/-- A field whose value is written and read back is one of which something is found that it gets the value from. -/
theorem Survives.regained (h : Survives c build f v) : Regained c f v (Shape.Settles c build f v) := h

/-- What is found for the fields of a record is read from its element, in whatever layout. -/
theorem exists_read_of_regained {m : Model} {name : String} {value : Field → Value}
    {back : Field → Option Value → Prop} (hm : c.model? name = some m) (hmodel : IsXmlModel c m)
    (hfields : ∀ f ∈ m.fields, Regained c f (value f) (back f)) (tag : String) :
    ∃ e, (writing c (.record m.name (m.fields.map fun f => (f.name, value f)))).whole tag = .ok e ∧ e.name = tag ∧
      ∀ e', Relaid e e' → ∃ found, e'.entries c name = .ok (Value.textEntries (Shape.entriesFor m.fields found)) ∧
        ∀ f ∈ m.fields, back f (found f) := by
  choose! addition hwrite hplace hread using hfields
  have hnodup : m.fields.Nodup := hmodel.apart.imp fun h hsame => h.1 (by rw [hsame])
  refine ⟨_, whole_of_forall hm hmodel hwrite hplace tag, rfl, ?_⟩
  intro e' hrelaid
  cases hrelaid with
  | @mk _ _ text' _ tail' _ _ children' hchildren htext =>
      have hfound : ∀ f ∈ m.fields, ∃ found,
          readPlace (m.fields.flatMap fun f => (addition f).attributes) (partsOf c children')
            (c.descriptorOf f) = .ok found ∧ back f found := by
        intro f hf
        obtain ⟨own, hparts, hown⟩ := exists_parts hplace hnodup hmodel.places hf hchildren
        exact hread f hf _ _ own (lookup_attributes hplace hnodup hmodel.places hf) hparts hown
      choose! found hplaces hback using hfound
      refine ⟨found, readPlaces_of_forall hm (fun f hf => (hmodel.fields f hf).described) hmodel.apart hplaces, hback⟩

/-- An instance is written as an element from which, in whatever layout, the instance is built. -/
theorem recordSurvives_of_isInstance {root : String}
    (hmodels : ∀ name m, Within c root name → c.model? name = some m → IsXmlModel c m) (depth : Nat) :
    ∀ (name : String) (x : Value), Within c root name → IsInstance Value.IsSpellable c depth name x →
      RecordSurvives c (Shape.fitRecord c depth) name x := by
  induction depth with
  | zero => exact fun _ _ _ hx => hx.elim
  | succ depth ih =>
      intro name x hname hx
      obtain ⟨m, value, hm, rfl, hholds⟩ := hx
      have hmodel := hmodels name m hname hm
      have hdescribed : ∀ f ∈ m.fields, c.describeField f = .ok (c.descriptorOf f) := fun f hf =>
        (hmodel.fields f hf).described
      have hsurvives : ∀ f ∈ m.fields, Survives c (Shape.fitRecord c depth) f (value f) := by
        intro f hf
        apply survives_of_holds (hmodel.fields f hf) (hholds f hf)
        intro inner x hinner hx
        exact ih inner x (.inside hname hm hf hinner) hx
      refine ⟨⟨m.name, _, rfl⟩, ?_⟩
      intro tag
      obtain ⟨e, hwrite, htag, hread⟩ := exists_read_of_regained hm hmodel (fun f hf => (hsurvives f hf).regained) tag
      refine ⟨e, hwrite, htag, ?_⟩
      intro e' hrelaid
      obtain ⟨found, hentries, hsettles⟩ := hread e' hrelaid
      have hdescribe := Catalogue.describe_of_forall hdescribed
      exact ⟨_, hentries, Shape.fitRecord_of_settles hm hmodel.strict hdescribe hmodel.apart hsettles⟩

/-- An order with a number, a title, a day when it is due if there is one, marks, lines and notes. -/
def orderCatalogue : Catalogue :=
  ⟨[plainModel "Order" [{ plainField "number" .int with annotations := { Annotations.none with xml := some "id,attr" } },
      plainField "title" .str, plainField "due" (.union [.moment, .null]), plainField "marks" (.list .str),
      plainField "lines" (.list (.record "Line")), plainField "notes" (.dict .str .bool)],
    plainModel "Line" [plainField "article" .str]], []⟩

/-- An order of one line, without a title, a day, marks or notes. -/
def order : Value :=
  .record "Order" [("number", .int 7), ("title", .text ""), ("due", .null), ("marks", .list []),
    ("lines", .list [.record "Line" [("article", .text "a<b")]]), ("notes", .dict (Value.textEntries []))]

/-- The element of the order. -/
def orderElement : Element :=
  .mk "Order" [("id", "7")] "" [.mk "title" [] "" [] "", .mk "lines" [] "" [.mk "article" [] "a<b" [] ""] "",
    .mk "notes" [] "" [] ""] ""

theorem within_order {name : String} (h : Within orderCatalogue "Order" name) : name = "Order" ∨ name = "Line" := by
  induction h with
  | root => exact .inl rfl
  | inside hname hm hf hinner ih =>
      rcases ih with rfl | rfl
      · obtain rfl := Option.some.inj hm
        simp only [plainModel, List.mem_cons, List.not_mem_nil, or_false] at hf
        rcases hf with rfl | rfl | rfl | rfl | rfl | rfl <;> cases hinner
        exact .inr rfl
      · obtain rfl := Option.some.inj hm
        obtain rfl := List.mem_singleton.mp hf
        cases hinner

theorem isXmlModel_order (inner : String) (m : Model) (h : Within orderCatalogue "Order" inner)
    (hm : orderCatalogue.model? inner = some m) : IsXmlModel orderCatalogue m := by
  rcases within_order h with rfl | rfl
  · obtain rfl := Option.some.inj hm
    refine ⟨rfl, by decide, by decide +kernel, ?_⟩
    intro f hf
    simp only [plainModel, List.mem_cons, List.not_mem_nil, or_false] at hf
    rcases hf with rfl | rfl | rfl | rfl | rfl | rfl
    all_goals exact ⟨rfl, rfl, by decide +kernel, by rintro - _ ⟨⟩, by rintro _ ⟨⟩ <;> exact ⟨rfl, by rintro _ ⟨⟩⟩⟩
  · obtain rfl := Option.some.inj hm
    refine ⟨rfl, by decide, by decide +kernel, ?_⟩
    intro f hf
    obtain rfl := List.mem_singleton.mp hf
    exact ⟨rfl, rfl, by decide +kernel, by rintro - _ ⟨⟩, by rintro _ ⟨⟩⟩

/-- What an order holds in a field of a type. -/
def orderValue : Ty → Value
  | .int => .int 7
  | .str => .text ""
  | .union _ => .null
  | .list .str => .list []
  | .list _ => .list [.record "Line" [("article", .text "a<b")]]
  | _ => .dict (Value.textEntries [])

theorem isInstance_order (depth : Nat) :
    IsInstance Value.IsSpellable orderCatalogue (depth + 2) "Order" order := by
  have hline : IsInstance Value.IsSpellable orderCatalogue (depth + 1) "Line"
      (.record "Line" [("article", .text "a<b")]) := by
    refine ⟨_, fun _ => .text "a<b", rfl, rfl, ?_⟩
    intro f hf
    obtain rfl := List.mem_singleton.mp hf
    exact .inr ⟨⟨_, rfl, rfl⟩, .scalar rfl ⟨.text "a<b", trivial⟩⟩
  refine ⟨_, fun f => orderValue f.type, rfl, rfl, ?_⟩
  intro f hf
  simp only [plainModel, List.mem_cons, List.not_mem_nil, or_false] at hf
  rcases hf with rfl | rfl | rfl | rfl | rfl | rfl
  · exact .inr ⟨⟨_, rfl, rfl⟩, .scalar rfl ⟨.int 7, show (toString (7 : Int)).length ≤ _ by decide +kernel⟩⟩
  · exact .inr ⟨⟨_, rfl, rfl⟩, .scalar rfl ⟨.text "", trivial⟩⟩
  · exact .inl ⟨rfl, .inl rfl⟩
  · exact .inr ⟨⟨_, rfl, rfl⟩, .scalars rfl rfl (by simp)⟩
  · refine .inr ⟨⟨_, rfl, rfl⟩, .records rfl ?_⟩
    intro x hx
    rw [List.mem_singleton.mp hx]
    exact hline
  · exact .inr ⟨⟨_, rfl, rfl⟩, .map rfl rfl rfl (by simp) (by simp)⟩

/-- A model of one text that is a number by default. -/
def markCatalogue : Catalogue :=
  ⟨[plainModel "Mark" [{ plainField "s" .str with default := some (.value (.int 5)) }]], []⟩

end Intake.Markup
