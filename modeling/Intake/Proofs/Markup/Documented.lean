import Intake.Proofs.Markup.RoundTrip
import Intake.Proofs.Schema.Placed
import Intake.Proofs.Validation.Return

/-!
Elements of records and the documentation of them. What a record is written as is what the component of its
model says: attributes where the component has properties that are attributes, elements where it has others,
and the same again for the records inside and the components that the properties refer to. A field that is
left out is in neither.
-/

namespace Intake

namespace Schema

/-- The property of a key. -/
def property? (key : String) : Schema → Option Schema
  | .node _ (some properties) _ _ => properties.lookup key
  | _ => none

/-- Whether a value is an attribute or an element, if its schema says so. -/
def nodeType? (s : Schema) : Option String := s.place?.bind XmlFacts.nodeType

/-- Whether a schema, or that of its items, refers to a component. -/
def RefersTo (s : Schema) (name : String) : Prop :=
  s.target? = some (componentsPath ++ name) ∨ s.items?.bind target? = some (componentsPath ++ name)

end Schema

namespace Markup

open Schema (Reaches IsDocument IsPlaced targetOf)
open Validation (held IsWithin)

variable {c : Catalogue}

/-- Whether an element is what a component says: its attributes are properties that are attributes, its elements
are properties that are elements or references, and where a property, or its items, refer to a component, the
element is what that component says. -/
inductive Matches (r : Registry) : Schema → Element → Prop where
  | mk {s : Schema} {e : Element}
    (hattributes : ∀ a ∈ e.attributes, ∃ p, s.property? a.1 = some p ∧ p.nodeType? = some "attribute")
    (hchildren : ∀ child ∈ e.children, ∃ p, s.property? child.name = some p ∧
      (p.target?.isSome ∨ p.nodeType? = some "element"))
    (hthere : ∀ child ∈ e.children, ∀ p name, s.property? child.name = some p → p.RefersTo name →
      r.contains name = true)
    (hinside : ∀ child ∈ e.children, ∀ p name node, s.property? child.name = some p → p.RefersTo name →
      r.get? name = some node → Matches r node child) : Matches r s e

theorem matches_leaf (r : Registry) (s : Schema) (name : String) (v : Value) : Matches r s (leaf name v) := by
  apply Matches.mk <;> intro _ hmem <;> cases hmem

/-- Whether the records inside a record, as its fields say, are of the models that they say. -/
inductive HasDeclaredModels (c : Catalogue) : Value → Prop where
  | record {name : String} {attributes : List (String × Value)}
    (hmodels : ∀ m fields d y, c.model? name = some m → c.describe m = .ok fields → d ∈ fields →
      IsWithin d (held attributes d) y → d.model = some (modelOf y))
    (hinside : ∀ m fields d y, c.model? name = some m → c.describe m = .ok fields → d ∈ fields →
      IsWithin d (held attributes d) y → HasDeclaredModels c y) : HasDeclaredModels c (.record name attributes)

/-- Whether the fields of a model that are not left out have places of different names, and those that are
attributes are no records. -/
def HasOwnPlaces (c : Catalogue) (m : Model) : Prop :=
  ∀ fields, c.describe m = .ok fields → ((Schema.Dialect.xml.fieldsOf fields).map Descriptor.xmlName).Nodup ∧
    ∀ d ∈ Schema.Dialect.xml.fieldsOf fields, d.xmlAttribute = true → d.kind ≠ .record

instance (c : Catalogue) (m : Model) : Decidable (HasOwnPlaces c m) :=
  match hfields : c.describe m with
  | .ok fields => decidable_of_iff (((Schema.Dialect.xml.fieldsOf fields).map Descriptor.xmlName).Nodup ∧
      ∀ d ∈ Schema.Dialect.xml.fieldsOf fields, d.xmlAttribute = true → d.kind ≠ .record)
      (by simp only [HasOwnPlaces, hfields, Except.ok.injEq, forall_eq'])
  | .error _ => .isTrue fun _ hnone => by rw [hfields] at hnone; cases hnone

theorem mem_fieldsOf_xml {fields : List Descriptor} {d : Descriptor} :
    d ∈ Schema.Dialect.xml.fieldsOf fields ↔ d ∈ fields ∧ d.xmlSkip = false := by
  simp [Schema.Dialect.fieldsOf]

/-! ### What an element is made of -/

/-- What a field of a record adds to the element of the record. -/
def additionOf (attributes : List (String × Writing)) (d : Descriptor) : Except Fault Addition :=
  match attributes.lookup d.name with
  | some w => writeField d w
  | none => .ok .nothing

theorem mem_putAttribute {name value : String} {attributes : List (String × String)} {b : String × String}
    (hb : b ∈ Element.putAttribute name value attributes) : b ∈ attributes ∨ b.1 = name := by
  induction attributes with
  | nil =>
      rw [List.mem_singleton.mp hb]
      exact Or.inr rfl
  | cons first rest ih =>
      rw [Element.putAttribute] at hb
      split at hb
      · rename_i hsame
        rcases List.mem_cons.mp hb with rfl | hb
        · exact Or.inr (eq_of_beq hsame)
        · exact Or.inl (List.mem_cons_of_mem first hb)
      · rcases List.mem_cons.mp hb with rfl | hb
        · exact Or.inl List.mem_cons_self
        · exact (ih hb).imp_left (List.mem_cons_of_mem first)

theorem attributes_add {e : Element} {a : Addition} {b : String × String} (hb : b ∈ (e.add a).attributes) :
    b ∈ e.attributes ∨ b.1 ∈ a.attributes.map Prod.fst := by
  obtain ⟨name, attributes, text, children, tail⟩ := e
  cases a with
  | nothing | elements es => exact Or.inl hb
  | «attribute» key value =>
      refine (mem_putAttribute hb).imp_right fun hkey => ?_
      simp [Addition.attributes, hkey]

theorem children_add {e : Element} {a : Addition} {child : Element} (hchild : child ∈ (e.add a).children) :
    child ∈ e.children ∨ child ∈ a.children := by
  obtain ⟨name, attributes, text, children, tail⟩ := e
  cases a with
  | nothing | «attribute» key value => exact Or.inl hchild
  | elements es => exact List.mem_append.mp hchild

theorem name_add (e : Element) (a : Addition) : (e.add a).name = e.name := by
  obtain ⟨name, attributes, text, children, tail⟩ := e
  cases a <;> rfl

theorem writeFields_eq (tag : String) (attributes : List (String × Writing)) (fields : List Descriptor) :
    writeFields tag attributes fields =
      fields.foldlM (fun e d => (additionOf attributes d).map e.add) (.mk tag [] "" [] "") := by
  unfold writeFields additionOf
  congr 1
  funext e d
  cases attributes.lookup d.name with
  | none => rfl
  | some w =>
      dsimp only
      cases writeField d w <;> rfl

/-- Fields add what they add one after another, to an element that keeps its name. -/
theorem parts_of_foldlM {attributes : List (String × Writing)} {fields : List Descriptor} {first e : Element}
    (he : fields.foldlM (fun e d => (additionOf attributes d).map e.add) first = .ok e) :
    e.name = first.name ∧
      (∀ b ∈ e.attributes, b ∈ first.attributes ∨
        ∃ d ∈ fields, ∃ a, additionOf attributes d = .ok a ∧ b.1 ∈ a.attributes.map Prod.fst) ∧
      ∀ child ∈ e.children, child ∈ first.children ∨
        ∃ d ∈ fields, ∃ a, additionOf attributes d = .ok a ∧ child ∈ a.children := by
  induction fields generalizing first with
  | nil =>
      cases he
      exact ⟨rfl, fun b => Or.inl, fun child => Or.inl⟩
  | cons d rest ih =>
      rw [List.foldlM_cons] at he
      obtain ⟨next, hnext, hrest⟩ := exists_of_bind_eq_ok he
      obtain ⟨a, ha, rfl⟩ := exists_of_map_eq_ok hnext
      obtain ⟨hname, hattributes, hchildren⟩ := ih hrest
      refine ⟨hname.trans (name_add first a), fun b hb => ?_, fun child hchild => ?_⟩
      · rcases hattributes b hb with hb | ⟨d', hd', hadded⟩
        · exact (attributes_add hb).imp_right fun hb => ⟨d, List.mem_cons_self, a, ha, hb⟩
        · exact Or.inr ⟨d', List.mem_cons_of_mem d hd', hadded⟩
      · rcases hchildren child hchild with hchild | ⟨d', hd', hadded⟩
        · exact (children_add hchild).imp_right fun hchild => ⟨d, List.mem_cons_self, a, ha, hchild⟩
        · exact Or.inr ⟨d', List.mem_cons_of_mem d hd', hadded⟩

/-- What the fields of a record add is all that its element has. -/
theorem parts_of_writeFields {tag : String} {attributes : List (String × Writing)} {fields : List Descriptor}
    {e : Element} (he : writeFields tag attributes fields = .ok e) :
    e.name = tag ∧
      (∀ b ∈ e.attributes, ∃ d ∈ fields, ∃ a, additionOf attributes d = .ok a ∧ b.1 ∈ a.attributes.map Prod.fst) ∧
      ∀ child ∈ e.children, ∃ d ∈ fields, ∃ a, additionOf attributes d = .ok a ∧ child ∈ a.children := by
  rw [writeFields_eq] at he
  obtain ⟨hname, hattributes, hchildren⟩ := parts_of_foldlM he
  refine ⟨hname, fun b hb => ?_, fun child hchild => ?_⟩
  · exact (hattributes b hb).resolve_left (by simp [Element.attributes])
  · exact (hchildren child hchild).resolve_left (by simp [Element.children])

theorem name_of_whole {v : Value} {tag : String} {e : Element} (he : (writing c v).whole tag = .ok e) :
    e.name = tag := by
  cases v with
  | record model attributes =>
      simp only [writing, writeRecord] at he
      split at he
      · cases he
        rfl
      · obtain ⟨fields, -, he⟩ := exists_of_bind_eq_ok he
        exact (parts_of_writeFields he).1
  | _ =>
      cases he
      rfl

theorem whole_of_not_record {v : Value} (hv : ∀ name attributes, v ≠ .record name attributes) (tag : String) :
    (writing c v).whole tag = .ok (leaf tag v) := by
  cases v with
  | record name attributes => exact absurd rfl (hv name attributes)
  | _ => rfl

/-- The elements for the items of a value are those of what is in a row, or hold texts. -/
theorem exists_item_of_items {v : Value} {name : String} {es : List Element}
    (hes : (writing c v).items name = .ok es) {child : Element} (hchild : child ∈ es) :
    (∃ xs x, v.items? = some xs ∧ x ∈ xs ∧ (writing c x).whole name = .ok child) ∨ ∃ x, child = leaf name x := by
  have hrow : ∀ {xs : List Value} {es : List Element}, writeItems c xs name = .ok es → child ∈ es →
      ∃ x ∈ xs, (writing c x).whole name = .ok child := by
    intro xs
    induction xs with
    | nil =>
        intro es hes hchild
        cases hes
        cases hchild
    | cons x rest ih =>
        intro es hes hchild
        obtain ⟨first, hfirst, hes⟩ := exists_of_bind_eq_ok hes
        obtain ⟨later, hlater, hes⟩ := exists_of_bind_eq_ok hes
        cases hes
        rcases List.mem_cons.mp hchild with rfl | hchild
        · exact ⟨x, List.mem_cons_self, hfirst⟩
        · obtain ⟨y, hy, hwhole⟩ := ih hlater hchild
          exact ⟨y, List.mem_cons_of_mem x hy, hwhole⟩
  have hother : (writing c v).items = (Writing.scalar v).items → ∃ x, child = leaf name x := by
    intro hscalar
    rw [hscalar, Writing.scalar] at hes
    dsimp only at hes
    split at hes
    · cases hes
      obtain ⟨x, -, rfl⟩ := List.mem_map.mp hchild
      exact ⟨x, rfl⟩
    · cases hes
  cases v with
  | list xs | tuple xs | set _ xs =>
      obtain ⟨x, hx, hwhole⟩ := hrow hes hchild
      exact Or.inl ⟨xs, x, rfl, hx, hwhole⟩
  | _ => exact Or.inr (hother rfl)

/-! ### What a field adds, and where -/

variable {d : Descriptor} {v : Value} {a : Addition}

/-- Only a field that is an attribute, and not left out, adds an attribute, and that has its name. -/
theorem place_of_attribute {w : Writing} (ha : writeField d w = .ok a) {key : String}
    (hkey : key ∈ a.attributes.map Prod.fst) : d.xmlSkip = false ∧ d.xmlAttribute = true ∧ key = d.xmlName := by
  unfold writeField at ha
  split at ha
  · cases ha
    cases hkey
  · rename_i hshown
    rw [Bool.not_eq_true, Bool.or_eq_false_iff] at hshown
    obtain ⟨hskip, -⟩ := hshown
    split at ha
    · rename_i hattribute
      cases ha
      exact ⟨hskip, hattribute, List.mem_singleton.mp hkey⟩
    · exfalso
      split at ha <;> obtain ⟨es, -, rfl⟩ := exists_of_map_eq_ok ha <;> cases hkey

/-- Only a field that is no attribute, and not left out, adds elements: what it holds, written as a whole if it is
a record, and item by item if it is a row. -/
theorem place_of_child (ha : writeField d (writing c v) = .ok a) {child : Element} (hchild : child ∈ a.children) :
    d.xmlSkip = false ∧ d.xmlAttribute = false ∧ child.name = d.xmlName ∧
      (d.kind = .record → (writing c v).whole d.xmlName = .ok child) ∧
      (d.kind = .array → ∃ es, (writing c v).items d.xmlName = .ok es ∧ child ∈ es) := by
  unfold writeField at ha
  split at ha
  · cases ha
    cases hchild
  · rename_i hshown
    rw [Bool.not_eq_true, Bool.or_eq_false_iff] at hshown
    obtain ⟨hskip, -⟩ := hshown
    split at ha
    · cases ha
      cases hchild
    · rename_i hattribute
      refine ⟨hskip, Bool.not_eq_true _ ▸ hattribute, ?_⟩
      split at ha
      · rename_i hkind
        obtain ⟨es, hes, rfl⟩ := exists_of_map_eq_ok ha
        have hname : child.name = d.xmlName := by
          rcases exists_item_of_items hes hchild with ⟨xs, x, -, -, hwhole⟩ | ⟨x, rfl⟩
          · exact name_of_whole hwhole
          · rfl
        exact ⟨hname, fun hrecord => (by rw [hkind] at hrecord; cases hrecord), fun _ => ⟨es, hes, hchild⟩⟩
      · rename_i hkind
        obtain ⟨es, -, rfl⟩ := exists_of_map_eq_ok ha
        obtain rfl := List.mem_singleton.mp hchild
        exact ⟨rfl, fun hrecord => (by rw [hkind] at hrecord; cases hrecord),
          fun harray => (by rw [hkind] at harray; cases harray)⟩
      · rename_i hnoarray hnomap
        obtain ⟨e, he, rfl⟩ := exists_of_map_eq_ok ha
        obtain rfl := List.mem_singleton.mp hchild
        exact ⟨name_of_whole he, fun _ => he, fun harray => absurd harray hnoarray⟩

/-- A field adds what it adds for the value that it holds. -/
theorem additionOf_writingEach (attributes : List (String × Value)) (d : Descriptor) :
    additionOf (writingEach c attributes) d = writeField d (writing c (held attributes d)) := by
  rw [additionOf, lookup_writingEach, held, Value.attribute?]
  cases attributes.lookup d.name with
  | none => simp [writeField, writing, Writing.scalar, Value.isNull]
  | some v => rfl

/-- What a field that holds a record is described as. -/
theorem described_of_recordName? {f : Field} (hd : c.describeField f = .ok d) {name : String}
    (hname : d.type.unwrap.1.recordName? = some name) :
    d.kind = .record ∧ d.model = some name ∧ d.type.leadsTo? = some name := by
  obtain ⟨hkind, -⟩ := Catalogue.kinds_of_describeField hd
  have hmodel := Catalogue.model_of_describeField hd
  rw [← (Catalogue.names_of_describeField hd).2.2.1, hname] at hmodel
  rw [← Ty.leadsTo?_unwrap, hkind, hmodel]
  rw [Ty.eq_record_of_recordName? hname]
  exact ⟨rfl, rfl, rfl⟩

/-- What a field that holds records in a row is described as. -/
theorem described_of_rowRecord? {f : Field} (hd : c.describeField f = .ok d) {name : String}
    (hname : d.type.unwrap.1.rowRecord? = some name) :
    d.kind = .array ∧ d.elementKind = some .record ∧ d.model = some name ∧ d.type.leadsTo? = some name := by
  obtain ⟨hkind, helement⟩ := Catalogue.kinds_of_describeField hd
  have hmodel := Catalogue.model_of_describeField hd
  rw [← (Catalogue.names_of_describeField hd).2.2.1] at hmodel
  rw [← Ty.leadsTo?_unwrap, hkind, helement, hmodel]
  have hitem : ∀ item : Ty, item.unwrap.1.recordName? = some name →
      item.unwrap.1 = .record name ∧ item.leadsTo? = some name := by
    intro item hitem
    have hrecord := Ty.eq_record_of_recordName? hitem
    rw [← Ty.leadsTo?_unwrap, hrecord]
    exact ⟨rfl, rfl⟩
  cases ht : d.type.unwrap.1 with
  | list item | set _ item | sequence item =>
      rw [ht] at hname
      obtain ⟨hrecord, hleads⟩ := hitem item hname
      simp only [Ty.element?, Ty.leadsTo?, Ty.recordName?, hrecord]
      exact ⟨rfl, rfl, rfl, hleads⟩
  | tuple items =>
      rw [ht] at hname
      cases items with
      | nil => cases hname
      | cons item rest =>
          obtain ⟨hrecord, hleads⟩ := hitem item hname
          simp only [Ty.element?, Ty.leadsTo?, Ty.leadsToFirst?, Ty.recordName?, hrecord]
          exact ⟨rfl, rfl, rfl, hleads⟩
  | _ =>
      rw [ht] at hname
      cases hname

/-! ### Elements and components -/

section
variable {r : Registry} {roots : List String}

/-- The property of an attribute that is no record says that it is one. -/
theorem nodeType?_of_attribute {m : Model} {fields : List Descriptor} (hfields : c.describe m = .ok fields)
    (hd : d ∈ fields) (hattribute : d.xmlAttribute = true) (hkind : d.kind ≠ .record) {p : Schema}
    (hp : IsPlaced c d p) : p.nodeType? = some "attribute" := by
  have hnode : p.target? = none := by
    rw [hp.refers.own]
    cases hrecord : d.type.unwrap.1.recordName? with
    | none => rfl
    | some name =>
        obtain ⟨f, -, hdescribed⟩ := Catalogue.exists_field_of_mem_describe hfields hd
        exact absurd (described_of_recordName? hdescribed hrecord).1 hkind
  rw [Schema.nodeType?, hp.place hnode, hattribute]
  rfl

/-- The property of an element is a reference or says that it is one. -/
theorem nodeType?_of_element (helement : d.xmlAttribute = false) {p : Schema} (hp : IsPlaced c d p) :
    p.target?.isSome ∨ p.nodeType? = some "element" := by
  cases htarget : p.target? with
  | some target => exact Or.inl rfl
  | none =>
      right
      rw [Schema.nodeType?, hp.place htarget, helement]
      rfl

/-- Whether all that an element has was added by fields of a record, each at the place of its property. -/
structure IsAddedBy (c : Catalogue) (fields : List Descriptor) (values : List (String × Value))
    (properties : List (String × Schema)) (e : Element) : Prop where
  attributes : ∀ b ∈ e.attributes, ∃ d ∈ Schema.Dialect.xml.fieldsOf fields, ∃ p,
    d.xmlAttribute = true ∧ properties.lookup b.1 = some p ∧ IsPlaced c d p
  children : ∀ child ∈ e.children, ∃ d ∈ Schema.Dialect.xml.fieldsOf fields, ∃ a p,
    writeField d (writing c (held values d)) = .ok a ∧ child ∈ a.children ∧ d.xmlAttribute = false ∧
      properties.lookup child.name = some p ∧ IsPlaced c d p

theorem isAddedBy_of_whole {name : String} {m : Model} {fields : List Descriptor} (hmodel : c.model? name = some m)
    (hfields : c.describe m = .ok fields) {values : List (String × Value)} {properties : List (String × Schema)}
    (hplaced : ∀ d ∈ Schema.Dialect.xml.fieldsOf fields, ∃ p,
      properties.lookup d.xmlName = some p ∧ IsPlaced c d p) {tag : String} {e : Element}
    (he : (writing c (.record name values)).whole tag = .ok e) :
    IsAddedBy c fields values properties e := by
  simp only [writing, writeRecord, hmodel, Action.describe_eq_ok hfields, ok_bind] at he
  obtain ⟨-, hattributes, hchildren⟩ := parts_of_writeFields he
  simp only [additionOf_writingEach] at hattributes hchildren
  constructor
  · intro b hb
    obtain ⟨d, hd, a, ha, hkey⟩ := hattributes b hb
    obtain ⟨hskip, hisattribute, hname⟩ := place_of_attribute ha hkey
    have hd := mem_fieldsOf_xml.mpr ⟨hd, hskip⟩
    obtain ⟨p, hp, hplaced⟩ := hplaced d hd
    exact ⟨d, hd, p, hisattribute, hname ▸ hp, hplaced⟩
  · intro child hchild
    obtain ⟨d, hd, a, ha, hadded⟩ := hchildren child hchild
    obtain ⟨hskip, helement, hname, -⟩ := place_of_child ha hadded
    have hd := mem_fieldsOf_xml.mpr ⟨hd, hskip⟩
    obtain ⟨p, hp, hplaced⟩ := hplaced d hd
    exact ⟨d, hd, a, p, ha, hadded, helement, hname ▸ hp, hplaced⟩

/-- A property that refers to a component refers to that of a record that its field holds, itself or in a row. -/
theorem exists_model_of_refersTo {m : Model} (hm : Reaches c .xml roots m) {fields : List Descriptor}
    (hfields : c.describe m = .ok fields) (hd : d ∈ Schema.Dialect.xml.fieldsOf fields) {p : Schema}
    (hp : IsPlaced c d p) {name : String} (hrefers : p.RefersTo name) :
    ∃ model next, c.model? model = some next ∧ name = Schema.Dialect.xml.componentName next ∧
      d.model = some model ∧ Reaches c .xml roots next ∧
        (d.kind = .record ∨ (d.kind = .array ∧ d.elementKind = some .record)) := by
  obtain ⟨f, -, hdescribed⟩ := Catalogue.exists_field_of_mem_describe hfields (mem_fieldsOf_xml.mp hd).1
  have htarget : ∀ {model? : Option String}, targetOf c model? = some (Schema.componentsPath ++ name) →
      ∃ model next, model? = some model ∧ c.model? model = some next ∧
        name = Schema.Dialect.xml.componentName next := by
    intro model? htarget
    obtain ⟨next, hnext, hname⟩ := Option.map_eq_some_iff.mp htarget
    obtain ⟨model, hmodel, hnext⟩ := Option.bind_eq_some_iff.mp hnext
    exact ⟨model, next, hmodel, hnext, by simpa using hname.symm⟩
  rcases hrefers with hown | hitems
  · rw [hp.refers.own] at hown
    obtain ⟨model, next, hmodel, hnext, hname⟩ := htarget hown
    obtain ⟨hkind, hsays, hleads⟩ := described_of_recordName? hdescribed hmodel
    exact ⟨model, next, hnext, hname, hsays, hm.field hfields hd hleads hnext, Or.inl hkind⟩
  · rw [hp.refers.items] at hitems
    obtain ⟨model, next, hmodel, hnext, hname⟩ := htarget hitems
    obtain ⟨hkind, helement, hsays, hleads⟩ := described_of_rowRecord? hdescribed hmodel
    exact ⟨model, next, hnext, hname, hsays, hm.field hfields hd hleads hnext, Or.inr ⟨hkind, helement⟩⟩

/-- The element that a field adds for what it holds is what the component of its records says, if the elements of
these records are. -/
theorem matches_of_child {model : String} (hmodel : d.model = some model)
    (hkind : d.kind = .record ∨ (d.kind = .array ∧ d.elementKind = some .record)) {node : Schema}
    (hinside : ∀ y, IsWithin d v y → modelOf y = model → ∀ {tag e}, (writing c y).whole tag = .ok e →
      Matches r node e)
    (hmodels : ∀ y, IsWithin d v y → d.model = some (modelOf y))
    (ha : writeField d (writing c v) = .ok a) {child : Element} (hchild : child ∈ a.children) :
    Matches r node child := by
  obtain ⟨-, -, -, hrecord, hrow⟩ := place_of_child ha hchild
  have hpart : ∀ y, ((∃ name attributes, y = .record name attributes) → IsWithin d v y) →
      ∀ {tag}, (writing c y).whole tag = .ok child → Matches r node child := by
    intro y hwithin tag hwhole
    by_cases hy : ∃ name attributes, y = .record name attributes
    · have hwithin := hwithin hy
      have hsays := hmodels y hwithin
      rw [hmodel] at hsays
      exact hinside y hwithin (Option.some.inj hsays).symm hwhole
    · rw [whole_of_not_record fun name attributes hrecord => hy ⟨name, attributes, hrecord⟩] at hwhole
      cases hwhole
      exact matches_leaf r node tag y
  rcases hkind with hkind | ⟨hkind, helement⟩
  · exact hpart v (fun hv => ⟨hv, Or.inl ⟨hkind, rfl⟩⟩) (hrecord hkind)
  · obtain ⟨es, hes, hchild⟩ := hrow hkind
    rcases exists_item_of_items hes hchild with ⟨xs, x, hxs, hx, hwhole⟩ | ⟨x, rfl⟩
    · exact hpart x (fun hrecord => ⟨hrecord, Or.inr ⟨hkind, helement, xs, hxs, hx⟩⟩) hwhole
    · exact matches_leaf r node d.xmlName x

/-- The element of a record is what the component of its model says. -/
theorem matches_of_whole
    (hdocument : ∀ m, Reaches c .xml roots m →
      ∃ node, r.get? (Schema.Dialect.xml.componentName m) = some node ∧ IsDocument c m node)
    (hplaces : ∀ m, Reaches c .xml roots m → HasOwnPlaces c m) {x : Value} (hx : HasDeclaredModels c x) :
    ∀ {m node tag e}, c.model? (modelOf x) = some m → Reaches c .xml roots m →
      r.get? (Schema.Dialect.xml.componentName m) = some node → (writing c x).whole tag = .ok e →
      Matches r node e := by
  induction hx with
  | @record name attributes hmodels hinside ih =>
      intro m node tag e hmodel hm hnode he
      have hmodel : c.model? name = some m := hmodel
      obtain ⟨node', hnode', fields, facts, properties, hfields, rfl, -, hproperties⟩ := hdocument m hm
      rw [hnode] at hnode'
      cases hnode'
      obtain ⟨hnodup, hattribute⟩ := hplaces m hm fields hfields
      have hadded := isAddedBy_of_whole hmodel hfields (hproperties hnodup) he
      apply Matches.mk
      · intro b hb
        obtain ⟨d, hd, p, hisattribute, hp, hplaced⟩ := hadded.attributes b hb
        exact ⟨p, hp, nodeType?_of_attribute hfields (mem_fieldsOf_xml.mp hd).1 hisattribute
          (hattribute d hd hisattribute) hplaced⟩
      · intro child hmem
        obtain ⟨d, -, -, p, -, -, helement, hp, hplaced⟩ := hadded.children child hmem
        exact ⟨p, hp, nodeType?_of_element helement hplaced⟩
      · intro child hmem p' inner hp' hrefers
        obtain ⟨d, hd, -, p, -, -, -, hp, hplaced⟩ := hadded.children child hmem
        obtain rfl : p = p' := Option.some.inj (hp.symm.trans hp')
        obtain ⟨-, next, -, rfl, -, hnext, -⟩ := exists_model_of_refersTo hm hfields hd hplaced hrefers
        obtain ⟨node, hnode, -⟩ := hdocument next hnext
        exact Option.isSome_iff_exists.mpr ⟨node, hnode⟩
      · intro child hmem p' inner node hp' hrefers hnode
        obtain ⟨d, hd, a, p, ha, hchild, -, hp, hplaced⟩ := hadded.children child hmem
        obtain rfl : p = p' := Option.some.inj (hp.symm.trans hp')
        obtain ⟨model, next, hmodel', rfl, hsays, hnext, hkind⟩ :=
          exists_model_of_refersTo hm hfields hd hplaced hrefers
        have hd := (mem_fieldsOf_xml.mp hd).1
        refine matches_of_child hsays hkind ?_ (fun y hy => hmodels m fields d y hmodel hfields hd hy) ha hchild
        intro y hy hname tag e he
        exact ih m fields d y hmodel hfields hd hy (hname ▸ hmodel') hnext hnode he

end

/-- A field that is left out adds nothing. -/
theorem additionOf_of_skipped (attributes : List (String × Writing)) (hskip : d.xmlSkip = true) :
    additionOf attributes d = .ok .nothing := by
  unfold additionOf
  split
  · simp [writeField, hskip]
  · rfl

/-- Records that differ in fields that are left out are written as the same element. -/
theorem ofRecord_congr {name : String} {m : Model} {fields : List Descriptor} (hmodel : c.model? name = some m)
    (hfields : c.describe m = .ok fields) {attributes others : List (String × Value)}
    (hsame : ∀ d ∈ fields, d.xmlSkip = false → held attributes d = held others d) (tag : Option String) :
    ofRecord c (.record name attributes) tag = ofRecord c (.record name others) tag := by
  have hadded : ∀ d ∈ fields,
      additionOf (writingEach c attributes) d = additionOf (writingEach c others) d := by
    intro d hd
    cases hskip : d.xmlSkip with
    | true => rw [additionOf_of_skipped _ hskip, additionOf_of_skipped _ hskip]
    | false => rw [additionOf_writingEach, additionOf_writingEach, hsame d hd hskip]
  simp only [ofRecord, modelOf, writing, writeRecord, hmodel, Action.describe_eq_ok hfields, ok_bind,
    writeFields_eq]
  generalize Element.mk (givenOr tag name) [] "" [] "" = first
  clear hfields hsame
  induction fields generalizing first with
  | nil => rfl
  | cons d rest ih =>
      rw [List.foldlM_cons, List.foldlM_cons, hadded d List.mem_cons_self]
      congr 1
      funext next
      exact ih (fun e he => hadded e (List.mem_cons_of_mem d he)) next

/-- Documentation and elements agree. When a model was derived into a fresh registry, the models that it leads to
having component names of their own and places of their own for their fields, the element of every record of the
model whose records are of the declared models is what the component of the model says. The properties of the
components are those of the fields that are not left out, and what is left out makes no difference to elements. -/
theorem element_matches_component {name : String} {m : Model} (hmodel : c.model? name = some m)
    {root : Option String} {s : Schema} {r : Registry} {j later : Journal}
    (hdone : (Schema.ofXml c (.record name) root).outcome Registry.empty j = ((.ok s, r), later))
    (hdistinct : ∀ m m', Reaches c .xml [name] m → Reaches c .xml [name] m' →
      Schema.Dialect.xml.componentName m = Schema.Dialect.xml.componentName m' → m = m')
    (hplaces : ∀ m, Reaches c .xml [name] m → HasOwnPlaces c m) :
    (∃ node, r.get? (Schema.Dialect.xml.componentName m) = some node ∧
      ∀ attributes tag e, HasDeclaredModels c (.record name attributes) →
        ofRecord c (.record name attributes) tag = .ok e → Matches r node e) ∧
    ∀ inner, Reaches c .xml [name] inner → ∃ node fields,
      r.get? (Schema.Dialect.xml.componentName inner) = some node ∧ c.describe inner = .ok fields ∧
        (∀ key, (node.property? key).isSome ↔ ∃ d ∈ fields, d.xmlSkip = false ∧ d.xmlName = key) ∧
        ∀ attributes others, (∀ d ∈ fields, d.xmlSkip = false → held attributes d = held others d) →
          ∀ tag, ofRecord c (.record inner.name attributes) tag = ofRecord c (.record inner.name others) tag := by
  have hdocument : ∀ inner, Reaches c .xml [name] inner →
      ∃ node, r.get? (Schema.Dialect.xml.componentName inner) = some node ∧ IsDocument c inner node :=
    fun inner hinner => Schema.isDocument_of_ofXml ⟨j, later, hdone⟩ hdistinct hinner
  constructor
  · have hm : Reaches c .xml [name] m := Reaches.root (List.mem_singleton_self name) hmodel
    obtain ⟨node, hnode, -⟩ := hdocument m hm
    exact ⟨node, hnode, fun attributes tag e hx he => matches_of_whole hdocument hplaces hx hmodel hm hnode he⟩
  · intro inner hinner
    obtain ⟨node, hnode, fields, facts, properties, hfields, rfl, hkeys, hproperties⟩ := hdocument inner hinner
    refine ⟨_, fields, hnode, hfields, fun key => ⟨fun hkey => ?_, ?_⟩, fun attributes others hsame tag =>
      ofRecord_congr (Schema.model?_of_reaches hinner) hfields hsame tag⟩
    · obtain ⟨d, hd, hname⟩ := hkeys key hkey
      obtain ⟨hd, hskip⟩ := mem_fieldsOf_xml.mp hd
      exact ⟨d, hd, hskip, hname⟩
    · rintro ⟨d, hd, hskip, rfl⟩
      obtain ⟨p, hp, -⟩ :=
        hproperties (hplaces inner hinner fields hfields).1 d (mem_fieldsOf_xml.mpr ⟨hd, hskip⟩)
      exact Option.isSome_iff_exists.mpr ⟨p, hp⟩

/-! ### An order -/

/-- What was tested of all fields of a model holds of each of them. -/
theorem forall_of_all_described {name : String} {test : Descriptor → Bool}
    (hall : ((c.model? name).map fun m => (c.describe m).toOption.map (List.all · test)) = some (some true))
    {m : Model} {fields : List Descriptor} (hm : c.model? name = some m) (hfields : c.describe m = .ok fields) :
    ∀ d ∈ fields, test d = true := by
  rw [hm, Option.map_some, hfields] at hall
  exact List.all_eq_true.mp (Option.some.inj (Option.some.inj hall))

/-- Whether a field holds no records, or those of the lines of an order. -/
def holdsLines (d : Descriptor) : Bool :=
  d.kind != .record && (d.elementKind != some .record || (d.name == "lines" && d.model == some "Line"))

/-- The line of the order. -/
def orderLine : Value := .record "Line" [("article", .text "a<b")]

/-- A record that is inside a field of an order is a line. -/
theorem eq_of_isWithin_order {attributes : List (String × Value)} (hd : holdsLines d = true)
    (hlines : attributes.lookup "lines" = none ∨ attributes.lookup "lines" = some (.list [orderLine])) {y : Value}
    (hy : IsWithin d (held attributes d) y) : d.model = some "Line" ∧ y = orderLine := by
  simp only [holdsLines, Bool.and_eq_true, bne_iff_ne, Bool.or_eq_true, beq_iff_eq] at hd
  obtain ⟨hkind, hrow⟩ := hd
  rcases hy.2 with ⟨hrecord, -⟩ | ⟨-, helement, xs, hxs, hy⟩
  · exact absurd hrecord hkind
  · obtain ⟨hname, hmodel⟩ := hrow.resolve_left (by simp [helement])
    rw [held, Value.attribute?, hname] at hxs
    rcases hlines with hlines | hlines <;> rw [hlines] at hxs <;> cases hxs
    exact ⟨hmodel, List.mem_singleton.mp hy⟩

/-- The order holds records as they are declared. -/
theorem hasDeclaredModels_order : HasDeclaredModels orderCatalogue order := by
  have hline : HasDeclaredModels orderCatalogue orderLine := by
    have hwithin : ∀ m fields d y, orderCatalogue.model? "Line" = some m → orderCatalogue.describe m = .ok fields →
        d ∈ fields → ¬ IsWithin d (held [("article", .text "a<b")] d) y := by
      intro m fields d y hm hfields hd hy
      have hnone : (d.kind != .record && d.elementKind != some .record) = true :=
        @forall_of_all_described orderCatalogue "Line"
          (fun d => d.kind != .record && d.elementKind != some .record) (by decide +kernel) m fields hm hfields d hd
      simp only [Bool.and_eq_true, bne_iff_ne] at hnone
      rcases hy.2 with ⟨hrecord, -⟩ | ⟨-, helement, -⟩
      · exact hnone.1 hrecord
      · exact hnone.2 helement
    exact .record (fun m fields d y hm hfields hd hy => absurd hy (hwithin m fields d y hm hfields hd))
      fun m fields d y hm hfields hd hy => absurd hy (hwithin m fields d y hm hfields hd)
  have hwithin : ∀ m fields d y, orderCatalogue.model? "Order" = some m → orderCatalogue.describe m = .ok fields →
      d ∈ fields → IsWithin d (held [("number", .int 7), ("title", .text ""), ("due", .null), ("marks", .list []),
        ("lines", .list [orderLine]), ("notes", .dict (Value.textEntries []))] d) y →
      d.model = some "Line" ∧ y = orderLine := by
    intro m fields d y hm hfields hd
    exact eq_of_isWithin_order (forall_of_all_described (by decide +kernel) hm hfields d hd) (Or.inr rfl)
  refine .record ?_ ?_
  · intro m fields d y hm hfields hd hy
    obtain ⟨hmodel, rfl⟩ := hwithin m fields d y hm hfields hd hy
    exact hmodel
  · intro m fields d y hm hfields hd hy
    obtain ⟨-, rfl⟩ := hwithin m fields d y hm hfields hd hy
    exact hline

/-- The element of an order is what the component of orders says. -/
theorem element_matches_component_order :
    ∃ m s r later, orderCatalogue.model? "Order" = some m ∧
      (Schema.ofXml orderCatalogue (.record "Order") none).outcome Registry.empty Journal.empty =
        ((.ok s, r), later) ∧
      (∀ m m', Reaches orderCatalogue .xml ["Order"] m → Reaches orderCatalogue .xml ["Order"] m' →
        Schema.Dialect.xml.componentName m = Schema.Dialect.xml.componentName m' → m = m') ∧
      (∀ m, Reaches orderCatalogue .xml ["Order"] m → HasOwnPlaces orderCatalogue m) ∧
      HasDeclaredModels orderCatalogue order ∧ ofRecord orderCatalogue order none = .ok orderElement ∧
      ∃ node, r.get? (Schema.Dialect.xml.componentName m) = some node ∧ Matches r node orderElement := by
  have hmem : ∀ m, Reaches orderCatalogue .xml ["Order"] m → m ∈ orderCatalogue.models :=
    fun m hm => List.mem_of_find?_eq_some (Schema.model?_of_reaches hm)
  have hdistinct : ∀ m m', Reaches orderCatalogue .xml ["Order"] m → Reaches orderCatalogue .xml ["Order"] m' →
      Schema.Dialect.xml.componentName m = Schema.Dialect.xml.componentName m' → m = m' := by
    have hnodup : (orderCatalogue.models.map Schema.Dialect.xml.componentName).Nodup := by decide +kernel
    exact fun m m' hm hm' hname => List.inj_on_of_nodup_map hnodup (hmem m hm) (hmem m' hm') hname
  have hplaces : ∀ m, Reaches orderCatalogue .xml ["Order"] m → HasOwnPlaces orderCatalogue m := by
    have hall : ∀ m ∈ orderCatalogue.models, HasOwnPlaces orderCatalogue m := by decide +kernel
    exact fun m hm => hall m (hmem m hm)
  have hends : Registering.fault? (Schema.ofXml orderCatalogue (.record "Order") none) Registry.empty
      Journal.empty = none := by decide +kernel
  rcases hdone : (Schema.ofXml orderCatalogue (.record "Order") none).outcome Registry.empty Journal.empty with
    ⟨⟨fault | s, r⟩, later⟩
  · rw [Registering.fault?, hdone] at hends
    cases hends
  · have hx := hasDeclaredModels_order
    have he : ofRecord orderCatalogue order none = .ok orderElement := rfl
    obtain ⟨⟨node, hnode, hmatches⟩, -⟩ := element_matches_component rfl hdone hdistinct hplaces
    exact ⟨_, s, r, later, rfl, rfl, hdistinct, hplaces, hx, he, node, hnode, hmatches _ none _ hx he⟩

/-! ### A pair of records -/

/-- A deed has a pair, of a record of one model and a record of another. -/
def deedCatalogue : Catalogue :=
  ⟨[plainModel "Deed" [plainField "pair" (.tuple [.record "Left", .record "Right"])],
    plainModel "Left" [plainField "a" .str], plainModel "Right" [plainField "b" .str]], []⟩

def deedDocument : Value :=
  .dict [(.text "pair", .list [.dict [(.text "a", .text "x")], .dict [(.text "b", .text "y")]])]

def deed : Value :=
  .record "Deed" [("pair", .tuple [.record "Left" [("a", .text "x")], .record "Right" [("b", .text "y")]])]

def deedElement : Element :=
  .mk "Deed" [] "" [.mk "pair" [] "" [.mk "a" [] "x" [] ""] "", .mk "pair" [] "" [.mk "b" [] "y" [] ""] ""] ""

/-- The registry of deeds. -/
def deedRegistry : Registry :=
  ((Schema.ofXml deedCatalogue (.record "Deed") none).outcome Registry.empty Journal.empty).1.2

/-- The items of a pair are documented as the first of them is, but each is written as what it is: the element of a
deed that was built from a document has an element that its documentation does not know. -/
theorem element_differs_from_component_of_pair :
    (Registering.fault? (Schema.ofXml deedCatalogue (.record "Deed") none) Registry.empty Journal.empty) = none ∧
      (deedCatalogue.models.map Schema.Dialect.xml.componentName).Nodup ∧
      (∀ m ∈ deedCatalogue.models, HasOwnPlaces deedCatalogue m) ∧
      Shape.build deedCatalogue "Deed" deedDocument = .ok deed ∧
      ofRecord deedCatalogue deed none = .ok deedElement ∧
      ∃ node, deedRegistry.get? "app.Deed.XML" = some node ∧ ¬ Matches deedRegistry node deedElement := by
  refine ⟨by decide +kernel, by decide +kernel, by decide +kernel, by with_unfolding_all rfl, rfl, ?_⟩
  have htarget : (((deedRegistry.get? "app.Deed.XML").bind (Schema.property? "pair")).bind Schema.items?).bind
      Schema.target? = some (Schema.componentsPath ++ "app.Left.XML") := by decide +kernel
  have hunknown : (deedRegistry.get? "app.Left.XML").map (fun node => (node.property? "b").isSome) =
      some false := by decide +kernel
  obtain ⟨items, hitems, htarget⟩ := Option.bind_eq_some_iff.mp htarget
  obtain ⟨p, hp, hitems⟩ := Option.bind_eq_some_iff.mp hitems
  obtain ⟨node, hnode, hp⟩ := Option.bind_eq_some_iff.mp hp
  obtain ⟨left, hleft, hunknown⟩ := Option.map_eq_some_iff.mp hunknown
  refine ⟨node, hnode, fun hmatches => ?_⟩
  obtain ⟨-, -, -, hinside⟩ := hmatches
  have hrefers : p.RefersTo "app.Left.XML" := Or.inr (by rw [hitems]; exact htarget)
  have hpair := hinside _ (List.mem_cons_of_mem _ List.mem_cons_self) p "app.Left.XML" left hp hrefers hleft
  obtain ⟨-, hchildren, -, -⟩ := hpair
  obtain ⟨q, hq, -⟩ := hchildren _ List.mem_cons_self
  have hq : left.property? "b" = some q := hq
  rw [hq] at hunknown
  cases hunknown

end Markup
end Intake
