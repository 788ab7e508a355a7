import Intake.Proofs.Markup.Read
import Intake.Proofs.Model.Instance

/-!
Fields that are written as markup and read. What a field sees of an element to which it has added its
value is something that the field takes as that value, whatever the layout of the element.
-/

namespace Intake.Markup

open Element (Relaid)

/-- A field that markup can hold: it is not left out, an attribute holds a scalar, nothing is what it is by
default where it may be absent, and an array is never absent and empty by default. -/
structure IsXmlField (c : Catalogue) (f : Field) : Prop where
  described : c.describeField f = .ok (c.descriptorOf f)
  shown : (c.descriptorOf f).xmlSkip = false
  plainAttribute : (c.descriptorOf f).xmlAttribute = true → f.type.unwrap.1.scalarKind?.isSome = true
  absence : f.type.unwrap.2 = true → ∀ d ∈ f.default, d.get = .null
  items : ∀ item, f.type.unwrap.1 = .list item → f.type.unwrap.2 = false ∧ ∀ d ∈ f.default, d.get = .list []

variable {c : Catalogue} {build : String → Value → Shape.Fitted} {f : Field} {v : Value}

/-- What is no scalar is held by elements. -/
theorem IsXmlField.isElement (hf : IsXmlField c f) (hscalar : f.type.unwrap.1.scalarKind? = none) :
    (c.descriptorOf f).xmlAttribute = false := by
  by_contra hattribute
  have hkind := hf.plainAttribute (by simpa using hattribute)
  rw [hscalar] at hkind
  cases hkind

/-- A value that is read back from an element, in whatever layout: what is read fits the type as the value. -/
def ReadBack (c : Catalogue) (build : String → Value → Shape.Fitted) (d : Descriptor) (t : Ty) (v : Value)
    (e : Element) : Prop :=
  ∀ e', Relaid e e' → ∃ w, (part c e').value d = .ok w ∧ Shape.FitsAs c build t w v ∧ w.items? = none

/-- A field whose value is written and read back: what it adds is at its place, and from what it sees there,
in whatever layout, the field gets its value. -/
def Survives (c : Catalogue) (build : String → Value → Shape.Fitted) (f : Field) (v : Value) : Prop :=
  ∃ a : Addition, writeField (c.descriptorOf f) (writing c v) = .ok a ∧ a.IsAt (c.descriptorOf f).xmlName ∧
    ∀ (attributes : List (String × String)) (parts : List Part) (own : List Element),
      attributes.lookup (c.descriptorOf f).xmlName = a.attributes.lookup (c.descriptorOf f).xmlName →
      parts.filter (fun p => p.name == (c.descriptorOf f).xmlName) = own.map (part c) →
      List.Forall₂ Relaid a.children own →
      ∃ found, readPlace attributes parts (c.descriptorOf f) = .ok found ∧ Shape.Settles c build f v found

theorem value_writing (v : Value) : (writing c v).value = v := by
  cases v <;> rfl

theorem writing_of_isScalar {kind : Kind} (hv : IsScalar kind v) : writing c v = .scalar v := by
  cases hv <;> rfl

/-- The text of a scalar is read back as the scalar. -/
theorem readBack_of_isScalar {d : Descriptor} {t : Ty} {kind : Kind} (name : String)
    (attributes : List (String × String)) (hmodel : d.model = none) (ht : t.unwrap.1.scalarKind? = some kind)
    (hv : IsScalar kind v) (hspelt : v.IsSpellable) :
    ReadBack c build d t v (.mk name attributes v.scalarText [] "") := by
  intro e' h
  cases h with
  | mk hchildren htext =>
      obtain rfl := htext rfl
      exact ⟨.text v.scalarText, value_part_of_no_model hmodel _, Shape.fitsAs_of_scalarText ht hv hspelt, rfl⟩

theorem leaf_of_isScalar {kind : Kind} (name : String) (hv : IsScalar kind v) :
    leaf name v = .mk name [] v.scalarText [] "" := by
  simp [leaf, hv.isNull_eq_false]

/-- A field of which nothing is found is nothing, where it may be absent or is so by default. -/
theorem settles_null (hf : IsXmlField c f)
    (hnull : f.type.unwrap.2 = true ∨ ∃ d, f.default = some d ∧ d.get = .null) :
    Shape.Settles c build f .null none := by
  rw [Shape.Settles]
  cases hdefault : f.default with
  | none =>
      have hoptional : f.type.unwrap.2 = true := by
        obtain hoptional | ⟨d, hd, -⟩ := hnull
        · exact hoptional
        · rw [hdefault] at hd
          cases hd
      obtain ⟨hfilled, hzero⟩ := Catalogue.isFilled_of_optional hf.described hoptional hdefault
      simp only [hfilled, ↓reduceIte, hzero]
      refine ⟨⟨.null, .exact, none⟩, ?_, rfl⟩
      rw [Shape.fitField, Shape.fit_null c build f.type hoptional]
      simp [Value.items?, Except.bind, Shape.checkBounds]
  | some d =>
      have hget : d.get = .null := by
        obtain hoptional | ⟨d', hd', hget⟩ := hnull
        · exact hf.absence hoptional d hdefault
        · rw [hdefault] at hd'
          obtain rfl := Option.some.inj hd'
          exact hget
      simp [Catalogue.isFilled_of_default hf.described hdefault, hget]

/-- What is nothing is left out, and what is left out stands for nothing. -/
theorem survives_null (hf : IsXmlField c f)
    (hnull : f.type.unwrap.2 = true ∨ ∃ d, f.default = some d ∧ d.get = .null) : Survives c build f .null := by
  refine ⟨.nothing, by simp [writeField, value_writing, Value.isNull], ⟨by simp [Addition.attributes],
    by simp [Addition.children]⟩, ?_⟩
  intro attributes parts own hattributes hparts hown
  refine ⟨none, ?_, settles_null hf hnull⟩
  obtain rfl := List.forall₂_nil_left_iff.mp hown
  rw [readPlace, hf.shown, hattributes, hparts]
  cases (c.descriptorOf f).xmlAttribute <;> rfl

/-- An attribute that holds the text of a scalar. -/
theorem survives_attribute {kind : Kind} (hf : IsXmlField c f)
    (hattribute : (c.descriptorOf f).xmlAttribute = true) (ht : f.type.unwrap.1.scalarKind? = some kind)
    (hv : IsScalar kind v) (hspelt : v.IsSpellable) (htakes : Shape.Takes c build f v v) :
    Survives c build f v := by
  refine ⟨.attribute (c.descriptorOf f).xmlName v.scalarText, ?_, ⟨by simp [Addition.attributes],
    by simp [Addition.children]⟩, ?_⟩
  · simp [writeField, value_writing, hf.shown, hattribute, hv.isNull_eq_false]
  · intro attributes parts own hattributes hparts hown
    refine ⟨some (.text v.scalarText), ?_, ?_⟩
    · rw [readPlace, hf.shown, hattribute, hattributes]
      simp [Addition.attributes]
    · apply Shape.takes_of_fitsAs htakes (Shape.fitsAs_of_scalarText ht hv hspelt) _ (.inl rfl)
      cases hv <;> rfl

/-- A value that is written as one element. -/
theorem survives_whole {e : Element} (hf : IsXmlField c f) (hattribute : (c.descriptorOf f).xmlAttribute = false)
    (harray : (c.descriptorOf f).kind ≠ .array) (hmap : (c.descriptorOf f).kind ≠ .map)
    (hthere : v.isNull = false) (hwrite : (writing c v).whole (c.descriptorOf f).xmlName = .ok e)
    (hname : e.name = (c.descriptorOf f).xmlName) (hread : ReadBack c build (c.descriptorOf f) f.type v e)
    (hitems : v.items? = none) (htakes : Shape.Takes c build f v v) : Survives c build f v := by
  refine ⟨.elements [e], ?_, ⟨by simp [Addition.attributes], by simpa [Addition.children] using hname⟩, ?_⟩
  · rw [writeField, value_writing, hf.shown, hthere, hattribute, hwrite]
    simp only [Bool.or_self, Bool.false_eq_true, ↓reduceIte]
    rfl
  · intro attributes parts own hattributes hparts hown
    obtain ⟨e', rest, hrelaid, hrest, rfl⟩ := List.forall₂_cons_left_iff.mp hown
    obtain rfl := List.forall₂_nil_left_iff.mp hrest
    obtain ⟨w, hw, hfits, hsingle⟩ := hread e' hrelaid
    refine ⟨some w, ?_, Shape.takes_of_fitsAs htakes hfits (by rw [hsingle, hitems]) (.inl rfl)⟩
    rw [readPlace, hf.shown, hattribute, hparts]
    simp only [Bool.false_eq_true, ↓reduceIte, List.map_cons, List.map_nil, hw, ok_bind, pure_eq_ok]

/-- Elements that are written one by one. -/
theorem writeItems_of_forall₂ {name : String} {xs : List Value} {es : List Element}
    (hall : List.Forall₂ (fun x e => (writing c x).whole name = .ok e) xs es) :
    writeItems c xs name = .ok es := by
  induction hall with
  | nil => rfl
  | cons hfirst _ ih =>
      rw [writeItems, hfirst, ih]
      rfl

/-- What items are read back as, from their elements in whatever layout. -/
theorem exists_items {d : Descriptor} {t : Ty} {xs : List Value} {es own : List Element}
    (hread : List.Forall₂ (ReadBack c build d t) xs es) (hown : List.Forall₂ Relaid es own) :
    ∃ ws, (own.map (part c)).mapM (fun p => p.value d) = .ok ws ∧
      List.Forall₂ (Shape.FitsAs c build t) ws xs := by
  induction hread generalizing own with
  | nil =>
      obtain rfl := List.forall₂_nil_left_iff.mp hown
      exact ⟨[], rfl, .nil⟩
  | cons hfirst _ ih =>
      obtain ⟨e', rest, hrelaid, hrest, rfl⟩ := List.forall₂_cons_left_iff.mp hown
      obtain ⟨w, hw, hfits, -⟩ := hfirst e' hrelaid
      obtain ⟨ws, hws, hall⟩ := ih hrest
      refine ⟨w :: ws, ?_, .cons hfits hall⟩
      rw [List.map_cons, List.mapM_cons, hw, hws]
      rfl

/-- A row of items that are written as one element each. -/
theorem survives_list {item : Ty} {xs : List Value} {es : List Element} (hf : IsXmlField c f)
    (hlist : f.type.unwrap.1 = .list item)
    (hwrite : List.Forall₂ (fun x e => (writing c x).whole (c.descriptorOf f).xmlName = .ok e) xs es)
    (hnames : ∀ e ∈ es, e.name = (c.descriptorOf f).xmlName)
    (hread : List.Forall₂ (ReadBack c build (c.descriptorOf f) item) xs es)
    (htakes : Shape.Takes c build f (.list xs) (.list xs)) : Survives c build f (.list xs) := by
  have hkind : (c.descriptorOf f).kind = .array := by
    rw [(Catalogue.kinds_of_field hf.described).1, hlist]
    rfl
  have hattribute := hf.isElement (by rw [hlist]; rfl)
  refine ⟨.elements es, ?_, ⟨by simp [Addition.attributes], hnames⟩, ?_⟩
  · have hitems : (writing c (.list xs)).items = writeItems c xs := rfl
    simp [writeField, value_writing, hf.shown, hattribute, hkind, hitems, writeItems_of_forall₂ hwrite, Value.isNull,
      Except.map]
  · intro attributes parts own hattributes hparts hown
    obtain ⟨ws, hws, hfits⟩ := exists_items hread hown
    have hplace : readPlace attributes parts (c.descriptorOf f) =
        .ok (if own.isEmpty then none else some (.list ws)) := by
      rw [readPlace, hf.shown, hattribute, hparts]
      cases own with
      | nil => rfl
      | cons e rest =>
          rw [List.map_cons] at hws ⊢
          simp only [hkind, hws, Bool.false_eq_true, ↓reduceIte, ok_bind, pure_eq_ok, List.isEmpty_cons]
    refine ⟨_, hplace, ?_⟩
    cases own with
    | cons e rest =>
        refine Shape.takes_of_fitsAs htakes (Shape.fitsAs_of_list hlist hfits) ?_ (.inl rfl)
        simp [Value.items?, hfits.length_eq]
    | nil =>
        -- No elements stand for no items, which is what the field has without any.
        obtain rfl := List.forall₂_nil_right_iff.mp hown
        obtain rfl := List.forall₂_nil_right_iff.mp hread
        obtain ⟨hrequired, hempty⟩ := hf.items item hlist
        simp only [List.isEmpty_nil, ↓reduceIte]
        cases hdefault : f.default with
        | none => exact Shape.settles_of_required hf.described hrequired hdefault hkind (by decide) htakes
        | some d =>
            simp [Shape.Settles, Catalogue.isFilled_of_default hf.described hdefault, hdefault, hempty d hdefault]

/-- The element of an entry of a map. -/
def entryElement (e : String × Value) : Element := .mk entryName [(keyName, e.1)] e.2.scalarText [] ""

/-- Entries whose values are written one by one, each with its key as an attribute. -/
theorem writeEntries_of_forall {es : List (String × Value)} {g : String × Value → Element}
    (hes : ∀ e ∈ es, (writing c e.2).whole entryName = .ok (g e)) :
    writeEntries c (Value.textEntries es) = .ok (es.map fun e => (g e).with keyName e.1) := by
  induction es with
  | nil => rfl
  | cons e rest ih =>
      have hrest := ih fun e' he' => hes e' (List.mem_cons_of_mem e he')
      rw [Value.textEntries_cons, writeEntries, hes e List.mem_cons_self, hrest]
      rfl

theorem writeEntries_of_isScalar {kind : Kind} {es : List (String × Value)} (hes : ∀ e ∈ es, IsScalar kind e.2) :
    writeEntries c (Value.textEntries es) = .ok (es.map entryElement) := by
  refine (writeEntries_of_forall (g := fun e => leaf entryName e.2) fun e he => ?_).trans ?_
  · rw [writing_of_isScalar (hes e he)]
    rfl
  · refine congrArg Except.ok (List.map_congr_left fun e he => ?_)
    rw [leaf_of_isScalar entryName (hes e he)]
    rfl

/-- The entries that are seen in an element of entries, in whatever layout. -/
theorem entries_of_relaid {d : Descriptor} {es : List (String × Value)} {own : List Element}
    (hmodel : d.model = none) (hown : List.Forall₂ Relaid (es.map entryElement) own) :
    ((partsOf c own).filter fun p => p.name == entryName).mapM (fun p => do
        return (Value.text p.key, ← p.value d) : Part → Except Fault (Value × Value)) =
      .ok (Value.textEntries (es.map fun e => (e.1, .text e.2.scalarText))) := by
  induction es generalizing own with
  | nil =>
      obtain rfl := List.forall₂_nil_left_iff.mp hown
      rfl
  | cons e rest ih =>
      obtain ⟨e', later, hrelaid, hlater, rfl⟩ := List.forall₂_cons_left_iff.mp hown
      have hrest := ih hlater
      cases hrelaid with
      | mk hchildren htext =>
          obtain rfl := htext rfl
          rw [partsOf, List.filter_cons_of_pos (by simp [name_part, Element.name]), List.mapM_cons, hrest]
          obtain rfl := List.forall₂_nil_left_iff.mp hchildren
          rw [value_part_of_no_model hmodel]
          rfl

/-- A map from texts to scalars. -/
theorem survives_map {key value t : Ty} {kind : Kind} {es : List (String × Value)} (hf : IsXmlField c f)
    (hdict : f.type.unwrap.1 = .dict key value) (hkey : key.unwrap = (.str, false))
    (hvalue : value.unwrap = (t, false)) (ht : t.scalarKind? = some kind) (hkeys : (es.map Prod.fst).Nodup)
    (hes : ∀ e ∈ es, IsScalar kind e.2 ∧ e.2.IsSpellable)
    (htakes : Shape.Takes c build f (.dict (Value.textEntries es)) (.dict (Value.textEntries es))) :
    Survives c build f (.dict (Value.textEntries es)) := by
  have hkind : (c.descriptorOf f).kind = .map := by
    rw [(Catalogue.kinds_of_field hf.described).1, hdict]
    rfl
  have hmodel : (c.descriptorOf f).model = none := by
    rw [Catalogue.model_of_describeField hf.described, hdict]
    simp only [Ty.recordName?, Ty.element?, hvalue, Option.bind_some]
    cases t <;> first | rfl | cases ht
  have hattribute := hf.isElement (by rw [hdict]; rfl)
  refine ⟨.elements [.mk (c.descriptorOf f).xmlName [] "" (es.map entryElement) ""], ?_,
    ⟨by simp [Addition.attributes], by simp [Addition.children, Element.name]⟩,
    ?_⟩
  · have hentries : (writing c (.dict (Value.textEntries es))).entries = .ok (es.map entryElement) :=
      writeEntries_of_isScalar fun e he => (hes e he).1
    simp [writeField, value_writing, hf.shown, hattribute, hkind, hentries, Value.isNull, Except.map]
  · intro attributes parts own hattributes hparts hown
    obtain ⟨e', rest, hrelaid, hrest, rfl⟩ := List.forall₂_cons_left_iff.mp hown
    obtain rfl := List.forall₂_nil_left_iff.mp hrest
    have htexts : ((es.map fun e => (e.1, Value.text e.2.scalarText)).map Prod.fst).Nodup := by
      simpa [List.map_map, Function.comp_def] using hkeys
    refine ⟨some (.dict (Value.textEntries (es.map fun e => (e.1, .text e.2.scalarText)))), ?_, ?_⟩
    · cases hrelaid with
      | mk hchildren htext =>
          have hentries := entries_of_relaid (c := c) hmodel hchildren
          rw [readPlace, hf.shown, hattribute, hparts]
          simp only [hkind, Bool.false_eq_true, ↓reduceIte, List.map_cons, List.map_nil, part]
          rw [hentries, ok_bind, Value.dictOf_textEntries htexts]
          rfl
    · refine Shape.takes_of_fitsAs htakes ?_ rfl (.inl rfl)
      apply Shape.fitsAs_of_dict hdict (by rw [hkey]) hkeys
      rw [List.forall₂_map_left_iff]
      exact List.forall₂_same.mpr fun e he =>
        ⟨rfl, Shape.fitsAs_of_scalarText (by rwa [hvalue]) (hes e he).1 (hes e he).2⟩

end Intake.Markup
