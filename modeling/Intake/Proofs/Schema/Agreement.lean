import Intake.Proofs.Model.Description
import Intake.Proofs.Schema.Traversal
import Intake.Proofs.Validation.Report

/-!
The published schema and the validator agree: what the component of a model says about a field is kept
by exactly the values of which no rule of the field, presence left aside, reports anything.
-/

namespace Intake.Schema

open Validation (isSatisfied mapRules applyRule Reports validateUnder)

variable {c : Catalogue} {record : String → Registering Schema}

/-- The values of a type that schemas say all about under rules: single texts and integers, lists of
them, and maps whose number of entries alone is bounded. -/
inductive Published (c : Catalogue) : Ty → List Rule → Value → Prop where
  | single {t : Ty} {rules : List Rule} {v : Value} (hvalue : isPublishedScalar (c.kindOf t) v) :
      Published c t rules v
  | list {item : Ty} {rules : List Rule} {items : List Value}
      (hkind : c.kindOf item.unwrap.1 = .string ∨ c.kindOf item.unwrap.1 = .integer)
      (hitems : ∀ v ∈ items, isPublishedScalar (c.kindOf item.unwrap.1) v) :
      Published c (.list item) rules (.list items)
  | map {t : Ty} {rules : List Rule} {entries : List (Value × Value)} (hkind : c.kindOf t = .map)
      (hrules : ∀ r ∈ rules, mapRules.contains r.name) : Published c t rules (.dict entries)

/-- Values that schemas say all about are there. -/
theorem Published.isNull_eq_false {t : Ty} {rules : List Rule} {v : Value}
    (hv : Published c t rules v) : v.isNull = false := by
  cases hv with
  | single hvalue => exact isNull_eq_false_of_isPublishedScalar hvalue
  | list hkind hitems => rfl
  | map hkind hrules => rfl

/-- Neither such a value nor its items are records, and no item is one of those that may be empty. -/
theorem Published.kinds {t : Ty} {rules : List Rule} {v : Value} (hv : Published c t rules v) :
    c.kindOf t ≠ .record ∧ ∀ kind, c.kindOf t = .array → t.element?.map c.kindOf = some kind →
      kind.isSpecial = false ∧ kind ≠ .record := by
  cases hv with
  | single hvalue =>
      rcases kind_of_isPublishedScalar hvalue with hkind | ⟨hkind, -⟩
      · simp [hkind]
      · simp [hkind]
  | list hkind hitems =>
      refine ⟨by simp [Catalogue.kindOf], ?_⟩
      intro kind _ helement
      simp only [Ty.element?, Option.map_some, Option.some.injEq] at helement
      rcases hkind with hkind | hkind
      · rw [← helement, hkind]
        exact ⟨rfl, by simp⟩
      · rw [← helement, hkind]
        exact ⟨rfl, by simp⟩
  | map hkind hrules => simp [hkind]

/-- A type whose kind is that of texts or of integers is a leaf of schemas. -/
theorem ofType_of_kind {t : Ty} (hkind : c.kindOf t = .string ∨ c.kindOf t = .integer)
    (rules : List Rule) :
    ofType c record t rules = pure (leaf (scalarFacts (c.kindOf t) rules)) := by
  cases t with
  | str | int | float | bool | moment | day | uuid | any | bytes | null | enumeration name
  | literal values => rfl
  | _ => rcases hkind with hkind | hkind <;> cases hkind

theorem kindOf_enumeration_ne_map (name : String) : c.kindOf (.enumeration name) ≠ .map := by
  rcases Catalogue.kindOf_enumeration c name with hkind | hkind | hkind <;> rw [hkind] <;> decide

/-- What a type is derived to is kept exactly if no rule finds anything wrong. -/
theorem admits_of_ofType {d : Descriptor} {t : Ty} (hkind : d.kind = c.kindOf t)
    (helement : d.elementKind = t.element?.map c.kindOf) (honce : (d.rules.map Rule.name).Nodup)
    {v : Value} (hv : Published c t d.rules v) {r r' : Registry} {j j' : Journal} {s : Schema}
    (hderived : (ofType c record t d.rules).outcome r j = ((.ok s, r'), j')) :
    s.admits v = d.rules.all fun rule => isSatisfied d rule v := by
  cases hv with
  | single hvalue =>
      have hscalar : c.kindOf t = .string ∨ c.kindOf t = .integer :=
        (kind_of_isPublishedScalar hvalue).imp_right And.left
      rw [ofType_of_kind hscalar, Registering.outcome_pure] at hderived
      cases hderived
      rw [← hkind] at hvalue ⊢
      rw [← Validation.admits_scalarFacts_eq_satisfied hvalue honce]
      simp only [leaf, Schema.admits, itemsAdmit, Bool.and_true]
  | @list item _ items hitem hitems =>
      rw [ofType, ← ofType_unwrap, ofType_of_kind hitem] at hderived
      cases hderived
      exact Validation.admits_arrayOf_eq_satisfied hkind helement hitems honce
  | @map _ _ entries hmap hrules =>
      have hnode : ∃ values, s = mapOf d.rules values := by
        cases t with
        | dict key value =>
            obtain ⟨values, r₁, j₁, -, hdone⟩ := Registering.of_outcome_bind hderived
            cases hdone
            exact ⟨values, rfl⟩
        | bareDict =>
            cases hderived
            exact ⟨anything, rfl⟩
        | enumeration name => exact absurd hmap (kindOf_enumeration_ne_map name)
        | _ => cases hmap
      obtain ⟨values, rfl⟩ := hnode
      exact Validation.admits_mapOf_eq_satisfied (hkind.trans hmap) hrules values entries honce

/-- A field's schema is kept exactly if no rule of the field finds anything wrong: that the field may be
absent and what it is for is said around what its type asks. -/
theorem admits_of_ofField {d : Descriptor} (hkind : d.kind = c.kindOf d.type.unwrap.1)
    (helement : d.elementKind = d.type.unwrap.1.element?.map c.kindOf)
    (honce : (d.rules.map Rule.name).Nodup) {v : Value}
    (hv : Published c d.type.unwrap.1 d.rules v) {r r' : Registry} {j j' : Journal} {s : Schema}
    (hfield : (ofField c .json record d).outcome r j = ((.ok s, r'), j')) :
    s.admits v = d.rules.all fun rule => isSatisfied d rule v := by
  obtain ⟨derived, r₁, j₁, hderive, hdone⟩ := Registering.of_outcome_bind hfield
  obtain ⟨inner, r₂, j₂, htype, hnull⟩ := Registering.of_outcome_bind hderive
  cases hnull
  cases hdone
  rw [← ofType_unwrap] at htype
  rw [← admits_of_ofType hkind helement honce hv htype]
  have haround : ∀ (change : Facts → Facts) (s : Schema),
      (∀ f : Facts, (change f).admits v = f.admits v) → (s.mapFacts change).admits v = s.admits v := by
    intro change s hchange
    cases s with
    | reference target => rfl
    | node facts properties items additional =>
        simp only [mapFacts, Schema.admits, hchange]
  have horNull : (orNull d.type.unwrap.2 inner).admits v = inner.admits v := by
    rw [orNull]
    split
    · exact haround _ inner fun f => rfl
    · rfl
  rw [← horNull]
  split
  · exact haround _ _ fun f => rfl
  · rfl

theorem all_isSatisfied_iff (d : Descriptor) (v : Value) :
    (d.rules.all fun rule => isSatisfied d rule v) ↔
      ∀ rule ∈ d.applicable, rule.name ≠ "required" →
        (Validation.isUnenforced rule || Validation.isClean (Validation.judge d rule v)) = true := by
  simp only [List.all_eq_true, isSatisfied, Descriptor.applicable, List.mem_filter, Bool.or_eq_true,
    beq_iff_eq, Option.isNone_iff_eq_none, Option.isSome_iff_ne_none]
  constructor
  · rintro hall rule ⟨hrule, happlies⟩ hname
    rcases hall rule hrule with ((hrequired | hmismatch) | hidle) | hclean
    · exact absurd hrequired hname
    · exact absurd happlies hmismatch
    · exact Or.inl hidle
    · exact Or.inr hclean
  · intro hall rule hrule
    by_cases hname : rule.name = "required"
    · exact Or.inl (Or.inl (Or.inl hname))
    by_cases happlies : d.mismatch? rule = none
    · rcases hall rule ⟨hrule, happlies⟩ hname with hidle | hclean
      · exact Or.inl (Or.inr hidle)
      · exact Or.inr hclean
    · exact Or.inl (Or.inl (Or.inr happlies))

/-- For every value of a field's type, the schema that is published for the field and the validator
agree: the value keeps the schema exactly if no rule that applies to the field, presence left aside, ever
reports anything, and exactly if none did when a record was validated. The property that is put for a
field stays in the component unless a later field of the model has the same key. -/
theorem admits_property_iff_no_reports {name : String} {m : Model} (hmodel : c.model? name = some m)
    {before after : List Descriptor} {d : Descriptor}
    (hfields : c.describe m = .ok (before ++ d :: after))
    (honce : (d.rules.map Rule.name).Nodup)
    {v : Value} (hv : Published c d.type.unwrap.1 d.rules v)
    {r r' : Registry} {j j' : Journal} {s : Schema}
    (hfree : r.contains (Dialect.json.componentName m) = false)
    (hschema : (ofJson c (.record name)).outcome r j = ((.ok s, r'), j')) :
    ∃ facts properties node,
      r'.get? (Dialect.json.componentName m) = some (.node facts (some properties) none none) ∧
      (∃ r₁ j₁ r₂ j₂, (ofField c .json (component? c .json c.models.length none) d).outcome r₁ j₁ =
        ((.ok node, r₂), j₂)) ∧
      ((∀ e ∈ after, e.wireName ≠ d.wireName) → properties.lookup d.wireName = some node) ∧
      (∀ path, (node.admits v ↔ ∀ rule ∈ d.applicable, rule.name ≠ "required" →
        ∀ j, ∃ later, (applyRule c m d path v rule).outcome j = (.ok [], later))) ∧
      ∀ base attributes errors j later, Value.attribute? attributes d.name = some v →
        (validateUnder c base (.record name attributes)).outcome j = (.ok errors, later) →
        ∃ first reports last, errors = first ++ reports.flatten ++ last ∧
          Reports c m d (Validation.join base d.wireName) v d.applicable reports ∧
          (node.admits v ↔ ∀ report ∈ d.applicable.zip reports,
            report.1.name ≠ "required" → report.2 = []) := by
  obtain ⟨facts, properties, hput, r₁, j₁, r₂, j₂, hproperties⟩ :=
    get?_of_ofJson hmodel hfields hfree hschema
  obtain ⟨node, r₃, j₃, r₄, j₄, hfield, hlookup⟩ := lookup_of_propertiesOf hproperties
  obtain ⟨f, -, hf⟩ := Catalogue.exists_field_of_mem_describe hfields
    (List.mem_append_right before List.mem_cons_self)
  obtain ⟨hkind, helement⟩ := Catalogue.kinds_of_describeField hf
  have hsatisfied := all_isSatisfied_iff d v
  rw [← admits_of_ofField hkind helement honce hv hfield] at hsatisfied
  have hthere : v.isNull = false := hv.isNull_eq_false
  refine ⟨facts, properties, node, hput, ⟨r₃, j₃, r₄, j₄, hfield⟩, hlookup, fun path => hsatisfied.trans ?_, ?_⟩
  · refine forall₃_congr fun rule _ hname => ⟨Validation.applyRule_of_satisfied hname, ?_⟩
    intro hsilent
    obtain ⟨later, hreport⟩ := hsilent Journal.empty
    exact (Validation.report_eq_nil_iff hname hthere hreport).mp rfl
  · intro base attributes errors j later hvalue hvalidated
    have hsingle := hv.kinds
    rw [← hkind, ← helement] at hsingle
    obtain ⟨first, reports, last, rfl, hreports⟩ :=
      Validation.reports_of_validateUnder hmodel hfields hsingle.1 hsingle.2 hvalue hvalidated
    refine ⟨first, reports, last, rfl, hreports, hsatisfied.trans ?_⟩
    exact (Validation.reports_eq_nil_iff hthere hreports).symm

/-- A model of one text of at least two characters. -/
def noteModel : Model :=
  ⟨"Note", "app", "Note", none, .strict, [],
    [⟨"title", .str, none, none, { Annotations.none with rules := some "minlength=2" }, none,
      ⟨none, none, none⟩⟩]⟩

def noteCatalogue : Catalogue := ⟨[noteModel], []⟩

/-- What the declaration of the text says. -/
def noteTitle : Descriptor :=
  { name := "title", wireName := "title", type := .str, kind := .string, element := none,
    elementKind := none, model := none, rules := [⟨"minlength", some "2"⟩], messages := [],
    optional := false, hasDefault := false, formName := "title", queryName := "title",
    headerName := "title", cookieName := "title", pathName := "title", xmlName := "title",
    xmlAttribute := false, xmlSkip := false, formSkip := false, source := .auto,
    description := none }

/-- A text of one character breaks the rule, and the published schema says so. -/
theorem admits_property_iff_no_reports_note :
    noteCatalogue.describe noteModel = .ok ([] ++ noteTitle :: []) ∧
      ∃ s r' j', (ofJson noteCatalogue (.record "Note")).outcome Registry.empty Journal.empty =
          ((.ok s, r'), j') ∧
        ∃ facts properties node,
          r'.get? "app.Note" = some (.node facts (some properties) none none) ∧
          properties.lookup "title" = some node ∧
          (∀ path, (node.admits (.text "a") ↔ ∀ rule ∈ noteTitle.applicable,
            rule.name ≠ "required" → ∀ j, ∃ later,
              (applyRule noteCatalogue noteModel noteTitle path (.text "a") rule).outcome j =
                (.ok [], later))) := by
  have hfields : noteCatalogue.describe noteModel = .ok ([] ++ noteTitle :: []) := rfl
  have hschema : ∃ s r' j', (ofJson noteCatalogue (.record "Note")).outcome Registry.empty
      Journal.empty = ((.ok s, r'), j') := ⟨_, _, _, rfl⟩
  obtain ⟨s, r', j', hschema⟩ := hschema
  refine ⟨hfields, s, r', j', hschema, ?_⟩
  have hvalue : Published noteCatalogue noteTitle.type.unwrap.1 noteTitle.rules (.text "a") :=
    Published.single rfl
  obtain ⟨facts, properties, node, hput, -, hlookup, hadmits, -⟩ :=
    admits_property_iff_no_reports rfl hfields (by decide) hvalue rfl hschema
  exact ⟨facts, properties, node, hput, hlookup (by simp), hadmits⟩

end Intake.Schema
