import Mathlib
import Intake.Proofs.Markup.Edits
import Intake.Proofs.Shape.Refusal

/-!
Maps of records in markup. The element of an entry is that of its record, and the key of the entry is put on it as an
attribute: over the one of that name that the record may have put there itself. So a record of which a field is such
an attribute is read back with the key in that field, and the map is read back exactly if that makes no difference.
-/

namespace Intake.Markup

open Element (Relaid)
open Shape (Settles Takes FitsAs)

variable {c : Catalogue} {root inner : String} {depth : Nat} {f : Field} {x : Value} {key : String}

/-- A record takes the key that it has in a map: a field that is an attribute of the name of keys has the value that
comes of the key. -/
def TakesKey (c : Catalogue) (key : String) (x : Value) : Prop :=
  ∀ name attributes m f, x = .record name attributes → c.model? name = some m → f ∈ m.fields →
    IsAttributeAt (c.descriptorOf f) keyName →
    ∃ v, attributes.lookup f.name = some v ∧ Takes c (Shape.fitRecord c Shape.maxDepth) f (.text key) v

/-- A record that is written with a key: from its element, in whatever layout, the record is built exactly if it takes
the key. -/
def IsKeyed (c : Catalogue) (build : String → Value → Shape.Fitted) (inner key : String) (x : Value) : Prop :=
  ∃ e, (writing c x).whole entryName = .ok e ∧ e.name = entryName ∧
    ∀ e', Relaid (e.with keyName key) e' → ∃ es, e'.entries c inner = .ok (Value.textEntries es) ∧
      ((∃ r, build inner (.dict (Value.textEntries es)) = .ok r ∧ r.value = x) ↔ TakesKey c key x)

/-- What is found for a field below the key of an entry, which is put over an attribute of its name. -/
def foundUnder (c : Catalogue) (key : String) (found : Field → Option Value) (f : Field) : Option Value :=
  if IsAttributeAt (c.descriptorOf f) keyName then some (.text key) else found f

/-- Below the key of an entry, a field sees the key or what it did before. -/
theorem readPlace_foundUnder {found : Field → Option Value} {attributes : List (String × String)}
    {children : List Element}
    (hfound : readPlace attributes (partsOf c children) (c.descriptorOf f) = .ok (found f)) :
    readPlace (Element.putAttribute keyName key attributes) (partsOf c children) (c.descriptorOf f) =
      .ok (foundUnder c key found f) := by
  unfold foundUnder
  by_cases hkey : IsAttributeAt (c.descriptorOf f) keyName
  · rw [readPlace, hkey.1, hkey.2.1, hkey.2.2, lookup_putAttribute, if_pos rfl, if_pos hkey]
    rfl
  · rw [if_neg hkey, ← hfound]
    refine readPlace_congr (fun hplace => ?_) fun _ => forall₂_readsAlike_refl _ _
    rw [lookup_putAttribute, if_neg]
    intro hname
    rw [hname] at hplace
    exact hkey hplace

/-- What is found below a key comes to a record exactly if the record takes the key. -/
theorem settles_foundUnder_iff {build : String → Value → Shape.Fitted} {m : Model} {value : Field → Value}
    {found : Field → Option Value} (hm : c.model? inner = some m) (hmodel : IsXmlModel c m)
    (hsettles : ∀ f ∈ m.fields, Settles c build f (value f) (found f)) :
    (∀ f ∈ m.fields, Settles c build f (value f) (foundUnder c key found f)) ↔
      TakesKey c key (.record m.name (m.fields.map fun f => (f.name, value f))) := by
  have hnames : (m.fields.map Field.name).Nodup := List.pairwise_map.mpr (hmodel.apart.imp fun h => h.2.2.2)
  have hscalar : ∀ f ∈ m.fields, IsAttributeAt (c.descriptorOf f) keyName →
      f.type.unwrap.1.scalarKind?.isSome = true := fun f hf hkey => (hmodel.fields f hf).plainAttribute hkey.2.1
  constructor
  · intro hunder name attributes m' f hx hm' hf hkey
    obtain ⟨rfl, rfl⟩ := Value.record.inj hx
    obtain rfl := Option.some.inj ((Catalogue.model?_self hm).symm.trans hm')
    have hsettle := hunder f hf
    rw [foundUnder, if_pos hkey] at hsettle
    exact ⟨value f, lookup_fields value hnames hf, (Shape.takes_text_iff (hscalar f hf hkey)).mp hsettle⟩
  · intro htakes f hf
    rw [foundUnder]
    by_cases hkey : IsAttributeAt (c.descriptorOf f) keyName
    · obtain ⟨v, hv, htake⟩ := htakes _ _ m f rfl (Catalogue.model?_self hm) hf hkey
      rw [lookup_fields value hnames hf] at hv
      obtain rfl := Option.some.inj hv
      rw [if_pos hkey]
      exact (Shape.takes_text_iff (hscalar f hf hkey)).mp htake
    · rw [if_neg hkey]
      exact hsettles f hf

/-- An instance is written with any key. -/
theorem isKeyed_of_isInstance (hmodels : ∀ name m, Within c root name → c.model? name = some m → IsXmlModel c m)
    (hinner : Within c root inner) (hx : IsInstance Value.IsSpellable c depth inner x) (key : String) :
    IsKeyed c (Shape.fitRecord c depth) inner key x := by
  obtain ⟨-, hwrite⟩ := recordSurvives_of_isInstance hmodels depth inner x hinner hx
  obtain ⟨e, he, htag, hread⟩ := hwrite entryName
  refine ⟨e, he, htag, fun e' hrelaid => ?_⟩
  cases depth with
  | zero => exact hx.elim
  | succ depth =>
      obtain ⟨m, value, hm, rfl, -⟩ := hx
      have hmodel := hmodels inner m hinner hm
      have hdescribed : ∀ f ∈ m.fields, c.describeField f = .ok (c.descriptorOf f) := fun f hf =>
        (hmodel.fields f hf).described
      have hdescribe := Catalogue.describe_of_forall hdescribed
      obtain ⟨tag, attributes, text, children, tail⟩ := e
      cases hrelaid with
      | @mk _ _ text' _ tail' _ _ children' hchildren htext =>
          -- Without the key the record would have been read from the same element.
          obtain ⟨es, hes, hbuild⟩ := hread (.mk tag attributes text' children' tail') (.mk hchildren htext)
          obtain ⟨found, hfound, hsame⟩ := exists_found hm hdescribed hmodel.apart hes
          rw [hsame, Shape.fitRecord_eq_iff_settles hm hmodel.strict hdescribe hmodel.apart] at hbuild
          refine ⟨_, readPlaces_of_forall hm hdescribed hmodel.apart fun f hf => readPlace_foundUnder (hfound f hf), ?_⟩
          rw [Shape.fitRecord_eq_iff_settles hm hmodel.strict hdescribe hmodel.apart]
          exact settles_foundUnder_iff hm hmodel hbuild

/-- What is equivalent one by one is so of all. -/
theorem forall₂_and_iff {α β : Type} {same p : α → β → Prop} {q : β → Prop} {xs : List α} {ys : List β}
    (hall : List.Forall₂ (fun x y => same x y ∧ (p x y ↔ q y)) xs ys) :
    List.Forall₂ (fun x y => same x y ∧ p x y) xs ys ↔ ∀ y ∈ ys, q y := by
  induction hall with
  | nil => simp
  | cons hfirst _ ih => rw [List.forall₂_cons, List.forall_mem_cons, ih, hfirst.2, and_iff_right hfirst.1]

section map

variable {build : String → Value → Shape.Fitted} {keyType elementType : Ty} {es : List (String × Value)}
  {g : String × Value → Element}

/-- What is read from the elements of entries, in whatever layout: under each key, what comes to the record of the
entry exactly if the record takes the key. -/
theorem exists_entries_of_keyed {d : Descriptor} (hmodel : d.model = some inner)
    (helement : elementType.unwrap.1 = .record inner) (htag : ∀ e ∈ es, (g e).name = entryName)
    (hread : ∀ e ∈ es, ∀ e', Relaid ((g e).with keyName e.1) e' → ∃ ws, e'.entries c inner = .ok (Value.textEntries ws) ∧
      ((∃ r, build inner (.dict (Value.textEntries ws)) = .ok r ∧ r.value = e.2) ↔ TakesKey c e.1 e.2))
    {own : List Element} (hown : List.Forall₂ Relaid (es.map fun e => (g e).with keyName e.1) own) :
    ∃ ws, ((partsOf c own).filter fun p => p.name == entryName).mapM (fun p => do
          return (Value.text p.key, ← p.value d) : Part → Except Fault (Value × Value)) =
        .ok (Value.textEntries ws) ∧
      List.Forall₂ (fun w e => w.1 = e.1 ∧ (FitsAs c build elementType w.2 e.2 ↔ TakesKey c e.1 e.2)) ws es := by
  induction es generalizing own with
  | nil =>
      obtain rfl := List.forall₂_nil_left_iff.mp hown
      exact ⟨[], rfl, .nil⟩
  | cons e rest ih =>
      obtain ⟨e', later, hrelaid, hlater, rfl⟩ := List.forall₂_cons_left_iff.mp hown
      obtain ⟨ws, hws, hall⟩ := ih (fun e he => htag e (List.mem_cons_of_mem _ he))
        (fun e he => hread e (List.mem_cons_of_mem _ he)) hlater
      obtain ⟨found, hfound, hiff⟩ := hread e List.mem_cons_self e' hrelaid
      have hname : (part c e').name = entryName := by
        rw [name_part, hrelaid.name_eq, Element.name_with, htag e List.mem_cons_self]
      have hkey : (part c e').key = e.1 := by
        have hattribute : e'.attribute? keyName = some e.1 := by
          rw [Element.attribute?, hrelaid.attributes_eq]
          exact Element.attribute?_with keyName e.1 (g e)
        rw [key_part, hattribute, Option.getD_some]
      refine ⟨(e.1, .dict (Value.textEntries found)) :: ws, ?_, .cons ⟨rfl, ?_⟩ hall⟩
      · rw [partsOf, List.filter_cons_of_pos (by rw [hname]; rfl), List.mapM_cons, hws, hkey,
          value_part_of_model hmodel, hfound]
        rfl
      · rw [Shape.fitsAs_record_iff helement rfl]
        exact hiff

/-- A map of records is written, and what is found for it comes to the map exactly if its records take their keys. -/
theorem regained_map (hf : IsXmlField c f) (hmap : f.type.unwrap.1 = .dict keyType elementType)
    (hkeyType : keyType.unwrap = (.str, false)) (helement : elementType.unwrap = (.record inner, false))
    (hkeys : (es.map Prod.fst).Nodup) (hes : ∀ e ∈ es, IsKeyed c build inner e.1 e.2)
    (htakes : Takes c build f (.dict (Value.textEntries es)) (.dict (Value.textEntries es))) :
    Regained c f (.dict (Value.textEntries es)) fun found =>
      Settles c build f (.dict (Value.textEntries es)) found ↔ ∀ e ∈ es, TakesKey c e.1 e.2 := by
  have hkind : (c.descriptorOf f).kind = .map := by
    rw [(Catalogue.kinds_of_field hf.described).1, hmap]
    rfl
  have hmodel : (c.descriptorOf f).model = some inner := by
    rw [Catalogue.model_of_describeField hf.described, hmap]
    simp only [Ty.recordName?, Ty.element?, helement, Option.bind_some]
  have hattribute := hf.isElement (by rw [hmap]; rfl)
  choose! element hwrite htag hread using hes
  refine ⟨.elements [.mk (c.descriptorOf f).xmlName [] "" (es.map fun e => (element e).with keyName e.1) ""], ?_,
    ⟨by simp [Addition.attributes], by simp [Addition.children, Element.name]⟩, ?_⟩
  · have hentries : (writing c (.dict (Value.textEntries es))).entries =
        .ok (es.map fun e => (element e).with keyName e.1) := writeEntries_of_forall hwrite
    simp [writeField, value_writing, hf.shown, hattribute, hkind, hentries, Value.isNull, Except.map]
  · intro attributes parts own hattributes hparts hown
    obtain ⟨e', rest, hrelaid, hrest, rfl⟩ := List.forall₂_cons_left_iff.mp hown
    obtain rfl := List.forall₂_nil_left_iff.mp hrest
    cases hrelaid with
    | mk hchildren htext =>
        obtain ⟨ws, hws, hall⟩ := exists_entries_of_keyed hmodel (by rw [helement]) htag hread hchildren
        have hsame : ws.map Prod.fst = es.map Prod.fst := by
          rw [← List.forall₂_eq_eq_eq, List.forall₂_map_left_iff, List.forall₂_map_right_iff]
          exact hall.imp fun _ _ h => h.1
        refine ⟨some (.dict (Value.textEntries ws)), ?_, ?_⟩
        · rw [readPlace, hf.shown, hattribute, hparts]
          simp only [hkind, Bool.false_eq_true, ↓reduceIte, List.map_cons, List.map_nil, part]
          rw [hws, ok_bind, Value.dictOf_textEntries (hsame ▸ hkeys)]
          rfl
        · calc Settles c build f (.dict (Value.textEntries es)) (some (.dict (Value.textEntries ws)))
            _ ↔ FitsAs c build f.type (.dict (Value.textEntries ws)) (.dict (Value.textEntries es)) :=
              ⟨Takes.fitsAs, fun hfits => Shape.takes_of_fitsAs htakes hfits rfl (.inl rfl)⟩
            _ ↔ List.Forall₂ (fun w e => w.1 = e.1 ∧ FitsAs c build elementType w.2 e.2) ws es :=
              Shape.fitsAs_dict_iff hmap (by rw [hkeyType]) (hsame ▸ hkeys) hkeys
            _ ↔ ∀ e ∈ es, TakesKey c e.1 e.2 := forall₂_and_iff hall

end map

/-! ### Records with maps of records -/

/-- A map of records that a field holds: from texts to instances of a model. -/
inductive IsRecordMap (c : Catalogue) (depth : Nat) (f : Field) : Value → Prop where
  | mk {keyType elementType : Ty} {inner : String} {es : List (String × Value)}
    (hmap : f.type.unwrap.1 = .dict keyType elementType) (hkeyType : keyType.unwrap = (.str, false))
    (helement : elementType.unwrap = (.record inner, false)) (hkeys : (es.map Prod.fst).Nodup)
    (hes : ∀ e ∈ es, IsInstance Value.IsSpellable c depth inner e.2)
    (htakes : Takes c (Shape.fitRecord c depth) f (.dict (Value.textEntries es)) (.dict (Value.textEntries es))) :
    IsRecordMap c depth f (.dict (Value.textEntries es))

/-- What a field of an instance holds. -/
def HoldsInInstance (c : Catalogue) (depth : Nat) (f : Field) (v : Value) : Prop :=
  f.Holds c (Shape.fitRecord c depth) (fun kind v => IsScalar kind v ∧ v.IsSpellable)
    (IsInstance Value.IsSpellable c depth) v

/-- A record that holds in every field what an instance does, or a map of instances. -/
def HasRecordMaps (c : Catalogue) : (depth : Nat) → String → Value → Prop
  | 0, _, _ => False
  | depth + 1, name, x =>
    ∃ (m : Model) (value : Field → Value), c.model? name = some m ∧
      x = .record m.name (m.fields.map fun f => (f.name, value f)) ∧
      ∀ f ∈ m.fields, HoldsInInstance c depth f (value f) ∨ IsRecordMap c depth f (value f)

/-- The records of a map take their keys. -/
def TakesKeys (c : Catalogue) (v : Value) : Prop :=
  ∀ es, v = .dict (Value.textEntries es) → ∀ e ∈ es, TakesKey c e.1 e.2

/-- The records of every map that a record holds take their keys. -/
def MapsTakeKeys (c : Catalogue) (x : Value) : Prop :=
  ∀ model attributes, x = .record model attributes → ∀ a ∈ attributes, TakesKeys c a.2

theorem takesKeys_textEntries {es : List (String × Value)} :
    TakesKeys c (.dict (Value.textEntries es)) ↔ ∀ e ∈ es, TakesKey c e.1 e.2 := by
  refine ⟨fun h => h es rfl, fun h others hothers => ?_⟩
  obtain rfl := Value.textEntries_injective (Value.dict.inj hothers)
  exact h

/-- What a field of an instance holds is no map of records. -/
theorem takesKeys_of_holds {v : Value} (hv : HoldsInInstance c depth f v) : TakesKeys c v := by
  rcases hv with ⟨rfl, -⟩ | ⟨-, hv⟩
  · exact nofun
  · generalize f.type.unwrap.1 = t at hv
    cases hv with
    | scalar _ hv =>
        intro es hes
        obtain ⟨hv, -⟩ := hv
        rw [hes] at hv
        cases hv
    | record hv =>
        intro es hes
        cases depth with
        | zero => exact hv.elim
        | succ depth =>
            obtain ⟨m, value, -, rfl, -⟩ := hv
            cases hes
    | scalars | records => exact nofun
    | map _ _ _ _ hes =>
        refine takesKeys_textEntries.mpr fun e he name attributes m g hrecord => ?_
        have hscalar := (hes e he).1
        rw [hrecord] at hscalar
        cases hscalar

/-- Whatever a field holds is written, and what is found for it comes to the same exactly if the records of it take
their keys. -/
theorem regained_of_holds (hmodels : ∀ name m, Within c root name → c.model? name = some m → IsXmlModel c m)
    {m : Model} (hroot : Within c root m.name) (hm : c.model? m.name = some m) (hf : f ∈ m.fields) {v : Value}
    (hv : HoldsInInstance c depth f v ∨ IsRecordMap c depth f v) :
    Regained c f v fun found => Settles c (Shape.fitRecord c depth) f v found ↔ TakesKeys c v := by
  have hfield := (hmodels m.name m hroot hm).fields f hf
  rcases hv with hv | hv
  · have hsurvives : Survives c (Shape.fitRecord c depth) f v := by
      refine survives_of_holds hfield hv fun inner x hinner hx => ?_
      exact recordSurvives_of_isInstance hmodels depth inner x (.inside hroot hm hf hinner) hx
    exact hsurvives.regained.mono fun found hsettles => iff_of_true hsettles (takesKeys_of_holds hv)
  · cases hv with
    | @mk keyType elementType inner es hmap hkeyType helement hkeys hes htakes =>
        have hinner : (c.descriptorOf f).model = some inner := by
          rw [Catalogue.model_of_describeField hfield.described, hmap]
          simp only [Ty.recordName?, Ty.element?, helement, Option.bind_some]
        have hkeyed : ∀ e ∈ es, IsKeyed c (Shape.fitRecord c depth) inner e.1 e.2 := fun e he =>
          isKeyed_of_isInstance hmodels (.inside hroot hm hf hinner) (hes e he) e.1
        exact (regained_map hfield hmap hkeyType helement hkeys hkeyed htakes).mono fun found hiff =>
          hiff.trans takesKeys_textEntries.symm

/-- What is read of a document in whatever layout is read of the text of the document. -/
theorem exists_decoded {p : List (Value × Value) → Prop} {name : String} {e : Element} {tag : Option String}
    {indent : Bool} {parse : String → Except Flaw Element} (he : ofRecord c x tag = .ok e)
    (hparse : parse (document indent e) = .ok (if indent then e.indented 0 else e))
    (hread : ∀ e', Relaid e e' → ∃ es, e'.entries c name = .ok es ∧ p es) :
    ∃ text es, encode c x tag indent = .ok text ∧ decode c name (parse text) = .ok es ∧ p es := by
  have hrelaid : Relaid e (if indent then e.indented 0 else e) := by
    cases indent
    · exact Element.relaid_refl e
    · exact Element.relaid_indented 0 e
  obtain ⟨es, hes, hp⟩ := hread _ hrelaid
  refine ⟨document indent e, es, ?_, ?_, hp⟩
  · simp only [encode, he, Except.map]
  · simp only [decode, hparse, Except.mapError, ok_bind, hes]

/-- A record with maps of records is written, and what is read of the document, in both layouts and for every parser
that gives back the element of the document, is built into the same record exactly if the records of each map take
their keys. -/
theorem build_decoded_eq_iff_takesKeys {name : String} {tag : Option String} {indent : Bool}
    {parse : String → Except Flaw Element}
    (hmodels : ∀ inner m, Within c name inner → c.model? inner = some m → IsXmlModel c m)
    (hx : HasRecordMaps c Shape.maxDepth name x)
    (hparse : ∀ e, ofRecord c x tag = .ok e →
      parse (document indent e) = .ok (if indent then e.indented 0 else e)) :
    ∃ text es, encode c x tag indent = .ok text ∧ decode c name (parse text) = .ok es ∧
      (Shape.build c name (.dict es) = .ok x ↔ MapsTakeKeys c x) := by
  obtain ⟨m, value, hm, rfl, hholds⟩ := hx
  have hmodel := hmodels name m .root hm
  have hname := Catalogue.name_of_model? hm
  have hdescribe := Catalogue.describe_of_forall fun f hf => (hmodel.fields f hf).described
  have hregained : ∀ f ∈ m.fields, Regained c f (value f) fun found =>
      Settles c (Shape.fitRecord c 254) f (value f) found ↔ TakesKeys c (value f) := fun f hf =>
    regained_of_holds hmodels (hname ▸ .root) (Catalogue.model?_self hm) hf (hholds f hf)
  obtain ⟨e, he, -, hread⟩ := exists_read_of_regained hm hmodel hregained (givenOr tag m.name)
  refine exists_decoded he (hparse e he) fun e' hrelaid => ?_
  obtain ⟨found, hfound, hiff⟩ := hread e' hrelaid
  refine ⟨_, hfound, ?_⟩
  have hbuild : Shape.build c name (.dict (Value.textEntries (Shape.entriesFor m.fields found))) =
      .ok (.record m.name (m.fields.map fun f => (f.name, value f))) ↔
        ∀ f ∈ m.fields, Settles c (Shape.fitRecord c 254) f (value f) (found f) := by
    rw [← Shape.fitRecord_eq_iff_settles hm hmodel.strict hdescribe hmodel.apart]
    refine ⟨exists_of_map_eq_ok, ?_⟩
    rintro ⟨r, hr, hvalue⟩
    rw [← hvalue, Shape.build]
    exact congrArg (Except.map Shape.Fit.value) hr
  rw [hbuild]
  constructor
  · intro hsettles model attributes hx a ha
    obtain ⟨rfl, rfl⟩ := Value.record.inj hx
    obtain ⟨f, hf, rfl⟩ := List.mem_map.mp ha
    exact (hiff f hf).mp (hsettles f hf)
  · intro htakes f hf
    exact (hiff f hf).mpr (htakes _ _ rfl _ (List.mem_map.mpr ⟨f, hf, rfl⟩))

/-- Boxes by their names, of which each has a key of its own. -/
def rackCatalogue : Catalogue :=
  ⟨[plainModel "Rack" [plainField "boxes" (.dict .str (.record "Box"))],
    plainModel "Box" [{ plainField "key" .str with annotations := { Annotations.none with xml := some "key,attr" } },
      plainField "size" .int]], []⟩

/-- A box with a key. -/
def box (key : String) : Value := .record "Box" [("key", .text key), ("size", .int 1)]

/-- A rack with a box under the name `a`. -/
def rack (key : String) : Value := .record "Rack" [("boxes", .dict (Value.textEntries [("a", box key)]))]

/-- The element of a rack, whatever the key of the box. -/
def rackElement : Element :=
  .mk "Rack" [] "" [.mk "boxes" [] "" [.mk "entry" [("key", "a")] "" [.mk "size" [] "1" [] ""] ""] ""] ""

theorem isXmlModel_rack (inner : String) (m : Model) (hm : rackCatalogue.model? inner = some m) :
    IsXmlModel rackCatalogue m := by
  have hmem : m ∈ rackCatalogue.models := List.mem_of_find?_eq_some hm
  simp only [rackCatalogue, List.mem_cons, List.not_mem_nil, or_false] at hmem
  rcases hmem with rfl | rfl
  · refine ⟨rfl, by decide, by decide +kernel, fun f hf => ?_⟩
    obtain rfl := List.mem_singleton.mp hf
    exact ⟨rfl, rfl, by decide +kernel, by rintro - _ ⟨⟩, by rintro _ ⟨⟩⟩
  · refine ⟨rfl, by decide, by decide +kernel, fun f hf => ?_⟩
    simp only [plainModel, List.mem_cons, List.not_mem_nil, or_false] at hf
    rcases hf with rfl | rfl
    all_goals exact ⟨rfl, rfl, by decide +kernel, by rintro - _ ⟨⟩, by rintro _ ⟨⟩⟩

theorem hasRecordMaps_rack (depth : Nat) (key : String) :
    HasRecordMaps rackCatalogue (depth + 2) "Rack" (rack key) := by
  have hbox : IsInstance Value.IsSpellable rackCatalogue (depth + 1) "Box" (box key) := by
    refine ⟨_, fun f => if f.name = "key" then .text key else .int 1, rfl, rfl, fun f hf => ?_⟩
    simp only [plainModel, List.mem_cons, List.not_mem_nil, or_false] at hf
    rcases hf with rfl | rfl
    · exact .inr ⟨⟨_, rfl, rfl⟩, .scalar rfl ⟨.text key, trivial⟩⟩
    · exact .inr ⟨⟨_, rfl, rfl⟩, .scalar rfl ⟨.int 1, show (toString (1 : Int)).length ≤ _ by decide +kernel⟩⟩
  refine ⟨_, fun _ => .dict (Value.textEntries [("a", box key)]), rfl, rfl, fun f hf => ?_⟩
  obtain rfl := List.mem_singleton.mp hf
  exact .inr (.mk rfl rfl rfl (by simp) (List.forall_mem_singleton.mpr hbox) ⟨_, rfl, rfl⟩)

/-- A rack comes back whose box has its own name for a key. -/
theorem build_decoded_eq_iff_takesKeys_rack :
    (∀ inner m, Within rackCatalogue "Rack" inner → rackCatalogue.model? inner = some m →
        IsXmlModel rackCatalogue m) ∧
      HasRecordMaps rackCatalogue Shape.maxDepth "Rack" (rack "a") ∧
      ofRecord rackCatalogue (rack "a") none = .ok rackElement ∧
      ofText (document false rackElement) = .ok rackElement ∧ MapsTakeKeys rackCatalogue (rack "a") ∧
      ∃ text es, encode rackCatalogue (rack "a") none false = .ok text ∧
        decode rackCatalogue "Rack" (ofText text) = .ok es ∧ Shape.build rackCatalogue "Rack" (.dict es) = .ok (rack "a") := by
  have helement : ofRecord rackCatalogue (rack "a") none = .ok rackElement := rfl
  have hparse : ofText (document false rackElement) = .ok rackElement := rfl
  have hmodels : ∀ inner m, Within rackCatalogue "Rack" inner → rackCatalogue.model? inner = some m →
      IsXmlModel rackCatalogue m := fun inner m _ hm => isXmlModel_rack inner m hm
  have hx := hasRecordMaps_rack 253 "a"
  have htakes : MapsTakeKeys rackCatalogue (rack "a") := by
    intro model attributes hrack a ha
    obtain ⟨-, rfl⟩ := Value.record.inj hrack
    obtain rfl := List.mem_singleton.mp ha
    refine takesKeys_textEntries.mpr (List.forall_mem_singleton.mpr ?_)
    intro name attributes m f hbox hm hf hkey
    obtain ⟨rfl, rfl⟩ := Value.record.inj hbox
    obtain rfl := Option.some.inj hm
    simp only [plainModel, List.mem_cons, List.not_mem_nil, or_false] at hf
    rcases hf with rfl | rfl
    · exact ⟨.text "a", rfl, _, rfl, rfl⟩
    · exact absurd hkey (by decide +kernel)
  have hback : ∃ text es, encode rackCatalogue (rack "a") none false = .ok text ∧
      decode rackCatalogue "Rack" (ofText text) = .ok es ∧
      (Shape.build rackCatalogue "Rack" (.dict es) = .ok (rack "a") ↔ MapsTakeKeys rackCatalogue (rack "a")) := by
    refine build_decoded_eq_iff_takesKeys hmodels hx fun e he => ?_
    obtain rfl := Except.ok.inj (helement.symm.trans he)
    exact hparse
  obtain ⟨text, es, htext, hes, hiff⟩ := hback
  exact ⟨hmodels, hx, helement, hparse, htakes, text, es, htext, hes, hiff.mpr htakes⟩

/-- The document that is read of the element of a rack. -/
def rackEntries : List (Value × Value) :=
  Value.textEntries [("boxes", .dict (Value.textEntries [("a",
    .dict (Value.textEntries [("key", .text "a"), ("size", .text "1")]))]))]

/-- The key of an entry takes the place of the key that its box has. -/
theorem rack_comes_back_with_other_key :
    HasRecordMaps rackCatalogue Shape.maxDepth "Rack" (rack "x") ∧
      ∃ text es, encode rackCatalogue (rack "x") none false = .ok text ∧
        decode rackCatalogue "Rack" (ofText text) = .ok es ∧
        Shape.build rackCatalogue "Rack" (.dict es) = .ok (rack "a") ∧ (rack "x").same (rack "a") = false := by
  have hparse : ofText (document false rackElement) = .ok rackElement := rfl
  have hentries : rackElement.entries rackCatalogue "Rack" = .ok rackEntries := by cbv
  have hdecode : decode rackCatalogue "Rack" (ofText (document false rackElement)) = .ok rackEntries := by
    simp only [decode, hparse, Except.mapError, ok_bind]
    exact hentries
  have hbuild : Shape.build rackCatalogue "Rack" (.dict rackEntries) = .ok (rack "a") := by cbv
  exact ⟨hasRecordMaps_rack 253 "x", document false rackElement, rackEntries, rfl, hdecode, hbuild, by decide +kernel⟩

end Intake.Markup
