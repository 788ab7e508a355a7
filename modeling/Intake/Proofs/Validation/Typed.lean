import Intake.Proofs.Model.Instance
import Intake.Proofs.Validation.Kinds
import Intake.Proofs.Validation.Return

/-!
Records that are built from documents are typed: in every field stands a value that suits it, as long as the
defaults do. So such a record is validated unless a rule fails on what it holds.
-/

namespace Intake

open Shape Validation

variable {c : Catalogue} {record : String → Value → Fitted} {t : Ty} {v w : Value}

/-- A declared field that says what it is, whose tuples have items of one kind, and whose default suits it. -/
structure Field.IsSound (c : Catalogue) (f : Field) : Prop where
  described : c.describeField f = .ok (c.descriptorOf f)
  uniform : ∀ item, f.type.unwrap.1.element? = some item → ∀ t ∈ f.type.unwrap.1.itemTypes,
    c.kindOf t.unwrap.1 = c.kindOf item
  default : ∀ d, f.default = some d → Suits (c.descriptorOf f) d.get ∧
    ∀ x, IsWithin (c.descriptorOf f) d.get x → IsTyped c x

/-- The items of what comes to a field come from parts of the document, by types of the kind of the items. -/
theorem items_of_fitsAs {f : Field} {kind : Kind} {ys : List Value} (hf : f.IsSound c) (hw : w.IsData)
    (h : FitsAs c record f.type w v) (harray : (c.descriptorOf f).kind = .array)
    (helement : (c.descriptorOf f).elementKind = some kind) (hys : v.items? = some ys) :
    ∀ y ∈ ys, ∃ (t : Ty) (x : Value), x.IsData ∧ c.kindOf t.unwrap.1 = kind ∧ FitsAs c record t x y := by
  obtain ⟨hkind, helements⟩ := Catalogue.kinds_of_field hf.described
  rw [hkind] at harray
  rw [helements] at helement
  obtain ⟨item, hitem, hof⟩ := Option.map_eq_some_iff.mp helement
  have hthere : v.isNull = false := by
    cases v with
    | null => cases hys
    | _ => rfl
  obtain ⟨xs, zs, hxs, hzs, hfits⟩ := row_of_fitsAs harray (h.unwrap hthere)
  obtain rfl : ys = zs := Option.some.inj (hys.symm.trans hzs)
  intro y hy
  obtain ⟨x, hx, t, ht, hfit⟩ := hfits (Option.ne_none_iff_exists'.mpr ⟨item, hitem⟩) y hy
  exact ⟨t, x, hw.items hxs x hx, (hf.uniform item hitem t ht).trans hof, hfit⟩

/-- What comes to a field of a document suits the field. -/
theorem suits_of_fitsAs {f : Field} (hc : c.HasSoundEnumerations) (hf : f.IsSound c)
    (hrecord : ∀ name x r, record name x = .ok r → ∃ model attributes, r.value = .record model attributes)
    (hw : w.IsData) (h : FitsAs c record f.type w v) : Suits (c.descriptorOf f) v := by
  constructor
  · rw [(Catalogue.kinds_of_field hf.described).1]
    exact isOfKindOrNull_of_fitsAs hc hrecord hw h
  · intro harray kind ys helement hys y hy
    obtain ⟨t, x, hx, rfl, hfit⟩ := items_of_fitsAs hf hw h harray helement hys y hy
    exact isOfKindOrNull_of_fitsAs hc hrecord hx hfit

/-- A record that stands where records are is what comes of a part of the document as a record. -/
theorem record_of_fitsAs {model : String} {attributes : List (String × Value)}
    (hkind : c.kindOf t.unwrap.1 = .record) (h : FitsAs c record t w (.record model attributes)) :
    ∃ name r, record name w = .ok r ∧ r.value = .record model attributes := by
  obtain ⟨name, hname⟩ := Catalogue.exists_record_of_kindOf hkind
  obtain ⟨r, hr, hvalue⟩ := h.unwrap rfl
  rw [hname, fit] at hr
  exact ⟨name, r, hr, hvalue⟩

/-- A record inside what comes to a field of a document is what comes of a part of the document as a record. -/
theorem record_of_isWithin {f : Field} {x : Value} (hf : f.IsSound c) (hw : w.IsData)
    (h : FitsAs c record f.type w v) (hx : IsWithin (c.descriptorOf f) v x) :
    ∃ name y r, y.IsData ∧ record name y = .ok r ∧ r.value = x := by
  obtain ⟨⟨model, attributes, rfl⟩, hwhere⟩ := hx
  rcases hwhere with ⟨hkind, rfl⟩ | ⟨harray, helement, ys, hys, hy⟩
  · rw [(Catalogue.kinds_of_field hf.described).1] at hkind
    obtain ⟨name, r, hr, hvalue⟩ := record_of_fitsAs hkind h
    exact ⟨name, w, r, hw, hr, hvalue⟩
  · obtain ⟨t, y, hdata, hkind, hfit⟩ := items_of_fitsAs hf hw h harray helement hys _ hy
    obtain ⟨name, r, hr, hvalue⟩ := record_of_fitsAs hkind hfit
    exact ⟨name, y, r, hdata, hr, hvalue⟩

/-- A catalogue whose enumerations hold what they say, and whose models have sound fields of different names. -/
structure Catalogue.IsSound (c : Catalogue) : Prop where
  enumerations : c.HasSoundEnumerations
  fields : ∀ m ∈ c.models, ∀ f ∈ m.fields, f.IsSound c
  names : ∀ m ∈ c.models, (m.fields.map Field.name).Nodup

theorem exists_record_of_fitRecord {fuel : Nat} {name : String} {r : Fit} (h : fitRecord c fuel name w = .ok r) :
    ∃ model attributes, r.value = .record model attributes := by
  cases fuel with
  | zero => cases h
  | succ fuel =>
      unfold fitRecord at h
      split at h
      · split at h
        · exact ⟨_, _, (contributions_of_fillRecord h).1⟩
        · cases h
      · split at h
        · obtain rfl := Except.ok.inj h
          exact ⟨_, _, rfl⟩
        · cases h
      · cases h

/-- A record that is built from a document is typed. -/
theorem isTyped_of_fitRecord (hc : c.IsSound) {fuel : Nat} {name : String} {r : Fit} (hw : w.IsData)
    (h : fitRecord c fuel name w = .ok r) : IsTyped c r.value := by
  induction fuel generalizing name w r with
  | zero => cases h
  | succ fuel ih =>
      have hrecord : ∀ name x r, fitRecord c fuel name x = .ok r →
          ∃ model attributes, r.value = .record model attributes := fun _ _ _ => exists_record_of_fitRecord
      obtain ⟨m, entries, hm, rfl⟩ : ∃ m entries, c.model? name = some m ∧ w = .dict entries := by
        unfold fitRecord at h
        split at h
        · exact ⟨_, _, ‹_›, rfl⟩
        · cases hw
        · cases h
      have hmem : m ∈ c.models := List.mem_of_find?_eq_some hm
      obtain ⟨attributes, whole, hwhole, hvalue, hfields⟩ := attributes_of_fitRecord hm (hc.names m hmem) h
      have hdata := isData_completed hw.entries hwhole
      have hdescribe := Catalogue.describe_of_forall fun f hf => (hc.fields m hmem f hf).described
      -- Each field holds what comes to it from an entry, or its default; both suit it.
      have hheld : ∀ f ∈ m.fields, Suits (c.descriptorOf f) (held attributes (c.descriptorOf f)) ∧
          ∀ x, IsWithin (c.descriptorOf f) (held attributes (c.descriptorOf f)) x → IsTyped c x := by
        intro f hf
        have hsound := hc.fields m hmem f hf
        obtain ⟨v, hv, hfrom⟩ := hfields f hf
        have hname : (c.descriptorOf f).name = f.name := (Catalogue.names_of_describeField hsound.described).1
        rw [show held attributes (c.descriptorOf f) = v by simp [held, Value.attribute?, hname, hv]]
        rcases hfrom with ⟨e, he, htakes⟩ | ⟨d, hd, rfl⟩
        · constructor
          · exact suits_of_fitsAs hc.enumerations hsound hrecord (hdata e he) htakes.fitsAs
          · intro x hx
            obtain ⟨name, y, s, hy, hs, rfl⟩ := record_of_isWithin hsound (hdata e he) htakes.fitsAs hx
            exact ih hy hs
        · exact hsound.default d hd
      rw [hvalue]
      refine .record (Catalogue.model?_self hm) hdescribe ?_ ?_
      · intro d hd
        obtain ⟨f, hf, rfl⟩ := List.mem_map.mp hd
        exact (hheld f hf).1
      · intro d hd
        obtain ⟨f, hf, rfl⟩ := List.mem_map.mp hd
        exact (hheld f hf).2

namespace Validation

/-- The record of a document is validated, if none of the rules that are met on the way fails on what its field
holds: the errors are found, whatever was noted before. -/
theorem returns_validate_of_build (hc : c.IsSound) {name : String} {document x : Value} (hdocument : document.IsData)
    (hx : build c name document = .ok x)
    (hrules : ∀ d v, Visits c x d v → ∀ r ∈ d.rules, IsHarmless d r v) : Returns (validate c x) := by
  obtain ⟨r, hr, rfl⟩ := exists_of_map_eq_ok hx
  exact returns_whole (isTyped_of_fitRecord hc hdocument hr) hrules ""

/-- Articles have a price in halves and parts that are articles. -/
def priceField : Field :=
  { plainField "price" .float with annotations := { Annotations.none with rules := some "multipleOf=0.5" } }

def articleModel : Model := plainModel "Article" [priceField, plainField "parts" (.list (.record "Article"))]

def articleCatalogue : Catalogue := ⟨[articleModel], []⟩

/-- An article, and the document of one. -/
def article (price : Binary64) (parts : List Value) : Value :=
  .record "Article" [("price", .float price), ("parts", .list parts)]

def articleDocument (price : Binary64) (parts : List Value) : Value :=
  .dict (Value.textEntries [("price", .float price), ("parts", .list parts)])

theorem isSound_articleCatalogue : articleCatalogue.IsSound := by
  constructor
  · exact nofun
  · intro m hm f hf
    obtain rfl := List.mem_singleton.mp hm
    simp only [articleModel, plainModel, List.mem_cons, List.not_mem_nil, or_false] at hf
    rcases hf with rfl | rfl
    · exact ⟨rfl, nofun, nofun⟩
    · exact ⟨rfl, by rintro _ ⟨⟩ _ ht; rw [List.mem_singleton.mp ht], nofun⟩
  · intro m hm
    obtain rfl := List.mem_singleton.mp hm
    decide

theorem isData_articleDocument {price : Binary64} {parts : List Value} (hparts : ∀ x ∈ parts, x.IsData) :
    (articleDocument price parts).IsData := by
  refine .dict ?_
  simp only [Value.textEntries, List.map_cons, List.map_nil, List.forall_mem_cons]
  exact ⟨.float price, .list hparts, fun _ he => absurd he List.not_mem_nil⟩

/-- What a field of an article holds. -/
def articleHolds (price : Binary64) (parts : List Value) (f : Field) : Value :=
  if f.name = "price" then .float price else .list parts

/-- An article is built from its document as its parts are from theirs. -/
theorem fitRecord_articleDocument {fuel : Nat} (price : Binary64) {documents parts : List Value}
    (hparts : List.Forall₂ (FitsAs articleCatalogue (fitRecord articleCatalogue fuel) (.record "Article"))
      documents parts) :
    ∃ r, fitRecord articleCatalogue (fuel + 1) "Article" (articleDocument price documents) = .ok r ∧
      r.value = article price parts := by
  have hsettles : ∀ f ∈ articleModel.fields, Settles articleCatalogue (fitRecord articleCatalogue fuel) f
      (articleHolds price parts f) (some (articleHolds price documents f)) := by
    intro f hf
    simp only [articleModel, plainModel, List.mem_cons, List.not_mem_nil, or_false] at hf
    rcases hf with rfl | rfl
    · exact ⟨_, rfl, rfl⟩
    · obtain ⟨r, hr, hvalue⟩ := fitsAs_of_list (t := .list (.record "Article")) rfl hparts
      have hbounds : checkBounds ⟨none, none, none⟩ r = .ok r := by
        rw [checkBounds, hvalue]
        rfl
      refine ⟨r, ?_, hvalue⟩
      change (fit articleCatalogue _ (.list (.record "Article")) (.list documents)).bind _ = _
      rw [hr]
      exact hbounds
  exact fitRecord_of_settles rfl rfl rfl (by decide) hsettles

/-- What is met in an article: its price, its parts, and what is met in those. -/
theorem visits_article {price : Binary64} {parts : List Value} {d : Descriptor} {v : Value}
    (h : Visits articleCatalogue (article price parts) d v) :
    (d = articleCatalogue.descriptorOf priceField ∧ v = .float price) ∨ d.rules = [] ∨
      ∃ x ∈ parts, Visits articleCatalogue x d v := by
  have hknown : ∀ {m : Model} {fields : List Descriptor} {d : Descriptor},
      articleCatalogue.model? "Article" = some m → articleCatalogue.describe m = .ok fields → d ∈ fields →
        ∃ f ∈ articleModel.fields, articleCatalogue.descriptorOf f = d := by
    intro m fields d hm hfields hd
    obtain rfl : articleModel = m := Option.some.inj hm
    rw [(Catalogue.describe_eq_map hfields).1] at hd
    exact List.mem_map.mp hd
  cases h with
  | own hm hfields hd =>
      obtain ⟨f, hf, rfl⟩ := hknown hm hfields hd
      simp only [articleModel, plainModel, List.mem_cons, List.not_mem_nil, or_false] at hf
      rcases hf with rfl | rfl
      · exact .inl ⟨rfl, rfl⟩
      · exact .inr (.inl rfl)
  | within hm hfields hd hx hv =>
      obtain ⟨f, hf, rfl⟩ := hknown hm hfields hd
      simp only [articleModel, plainModel, List.mem_cons, List.not_mem_nil, or_false] at hf
      obtain ⟨-, ⟨hkind, -⟩ | ⟨hkind, -, xs, hxs, hmem⟩⟩ := hx
      · rcases hf with rfl | rfl <;> cases hkind
      · rcases hf with rfl | rfl
        · cases hkind
        · obtain rfl := Option.some.inj hxs
          exact .inr (.inr ⟨_, hmem, hv⟩)

/-- The rules of a price do not fail on one that can be counted in millionths. -/
theorem isHarmless_price {price : Binary64} (hprice : IsCountable price) :
    ∀ r ∈ (articleCatalogue.descriptorOf priceField).rules,
      IsHarmless (articleCatalogue.descriptorOf priceField) r (.float price) := by
  intro r hr
  obtain rfl : r = ⟨"multipleOf", some "0.5"⟩ := List.mem_singleton.mp hr
  have hhalf : numberArgument ⟨"multipleOf", some "0.5"⟩ = .ok (Binary64.ofRatio false 1 2) := by decide +kernel
  refine ⟨fun _ _ => ⟨?_, ?_⟩, nofun, nofun⟩
  · intro step hstep
    rw [hhalf] at hstep
    obtain rfl := Except.ok.inj hstep
    exact ⟨500000, by decide +kernel⟩
  · rintro x ⟨⟩
    exact hprice

theorem build_articleDocument (price : Binary64) {documents parts : List Value}
    (hparts : List.Forall₂ (FitsAs articleCatalogue (fitRecord articleCatalogue 254) (.record "Article"))
      documents parts) :
    build articleCatalogue "Article" (articleDocument price documents) = .ok (article price parts) := by
  obtain ⟨r, hr, hvalue⟩ := fitRecord_articleDocument price hparts
  rw [build, maxDepth, hr, ← hvalue]
  rfl

/-- An article with a part, both of which cost halves, is validated. -/
theorem returns_validate_of_build_article :
    build articleCatalogue "Article"
        (articleDocument (Binary64.ofRatio false 3 2) [articleDocument (Binary64.ofRatio false 1 2) []]) =
        .ok (article (Binary64.ofRatio false 3 2) [article (Binary64.ofRatio false 1 2) []]) ∧
      Returns (validate articleCatalogue
        (article (Binary64.ofRatio false 3 2) [article (Binary64.ofRatio false 1 2) []])) := by
  have hpart : FitsAs articleCatalogue (fitRecord articleCatalogue 254) (.record "Article")
      (articleDocument (Binary64.ofRatio false 1 2) []) (article (Binary64.ofRatio false 1 2) []) :=
    fitRecord_articleDocument _ .nil
  have hbuild := build_articleDocument (Binary64.ofRatio false 3 2) (.cons hpart .nil)
  have hdata : (articleDocument (Binary64.ofRatio false 1 2) []).IsData := isData_articleDocument nofun
  refine ⟨hbuild, returns_validate_of_build isSound_articleCatalogue
    (isData_articleDocument (by simpa using hdata)) hbuild ?_⟩
  intro d v hv r hr
  rcases visits_article hv with ⟨rfl, rfl⟩ | hnone | ⟨x, hx, hv⟩
  · exact isHarmless_price ⟨1500000, by decide +kernel⟩ r hr
  · rw [hnone] at hr
    cases hr
  · obtain rfl := List.mem_singleton.mp hx
    rcases visits_article hv with ⟨rfl, rfl⟩ | hnone | ⟨x, hx, -⟩
    · exact isHarmless_price ⟨500000, by decide +kernel⟩ r hr
    · rw [hnone] at hr
      cases hr
    · cases hx

/-- The price of an article may be infinite; then validation fails instead of saying that it is no multiple. -/
theorem validate_fails_on_infinity :
    build articleCatalogue "Article" (articleDocument (.infinite false) []) =
        .ok (article (.infinite false) []) ∧
      ((validate articleCatalogue (article (.infinite false) [])).outcome Journal.empty).1 =
        .error .infinityToInteger :=
  ⟨build_articleDocument _ .nil, rfl⟩

end Validation
end Intake
