import Intake.Proofs.Schema.Traversal

/-!
What a component says, computed from its model alone. A schema mentions other models only by their
names, so it does not matter what was put into the registry before: whoever derives the records inside
only has to answer with the reference to their component.
-/

namespace Intake

mutual

/-- The model that a type leads to: its own, or that of its items, its values or its only choice. -/
def Ty.leadsTo? : Ty → Option String
  | .annotated inner => inner.leadsTo?
  | .union choices => leadsToOnly? choices
  | .record name => some name
  | .list item | .set _ item | .sequence item => item.leadsTo?
  | .tuple items => leadsToFirst? items
  | .dict _ value => value.leadsTo?
  | _ => none

def Ty.leadsToOnly? : List Ty → Option String
  | [] => none
  | t :: rest =>
    if t.isNull then leadsToOnly? rest else if rest.all Ty.isNull then t.leadsTo? else none

def Ty.leadsToFirst? : List Ty → Option String
  | [] => none
  | t :: _ => t.leadsTo?

end

/-- Where a type leads does not see annotations and the permission to be absent. -/
theorem Ty.seesThrough_leadsTo? : Ty.SeesThrough Ty.leadsTo? where
  annotated _ := by rw [Ty.leadsTo?]
  union choices t hone := by
    have honly := Ty.only_eq_of_filter (f := Ty.leadsTo?) (d := none) (g := Ty.leadsToOnly?) rfl
      (fun _ _ => by rw [Ty.leadsToOnly?]) choices
    rw [Ty.leadsTo?, honly, hone]

/-- A type leads to what is left of it without annotations and the permission to be absent leads to. -/
theorem Ty.leadsTo?_unwrap (t : Ty) : t.unwrap.1.leadsTo? = t.leadsTo? := seesThrough_leadsTo?.unwrap t

/-- Several choices lead to nothing. -/
theorem Ty.leadsToOnly?_eq_none {t : Ty} {choices : List Ty} (ht : t.unwrap.1 = .union choices) :
    Ty.leadsToOnly? choices = none :=
  only_eq_of_unwrap (f := Ty.leadsTo?) (d := none) (g := leadsToOnly?) rfl (fun _ _ => by rw [Ty.leadsToOnly?]) ht

namespace Registering

variable {α β : Type}

/-- Whether an operation on a registry gives a value and leaves a registry, whatever was noted before. -/
def Yields (a : Registering α) (r : Registry) (v : α) (r' : Registry) : Prop :=
  ∀ j, ∃ later, a.outcome r j = ((.ok v, r'), later)

theorem Yields.pure (v : α) (r : Registry) : Yields (Pure.pure v) r v r := fun j => ⟨j, rfl⟩

theorem Yields.liftM {x : Except Fault α} {v : α} (hx : x = .ok v) (r : Registry) :
    Yields (MonadLiftT.monadLift x) r v r := by
  subst hx
  exact fun j => ⟨j, rfl⟩

theorem Yields.bind {a : Registering α} {f : α → Registering β} {r r₁ r₂ : Registry} {v : α} {w : β}
    (hfirst : Yields a r v r₁) (hsecond : Yields (f v) r₁ w r₂) : Yields (a >>= f) r w r₂ := by
  intro j
  obtain ⟨j₁, hfirst⟩ := hfirst j
  obtain ⟨j₂, hsecond⟩ := hsecond j₁
  refine ⟨j₂, ?_⟩
  rw [outcome_bind, hfirst]
  exact hsecond

end Registering

namespace Schema

open Registering (Yields)

variable {c : Catalogue} {dialect : Dialect} {record : String → Registering Schema}

/-- What stands for a model inside the schemas of others. -/
def referTo (c : Catalogue) (dialect : Dialect) (name : String) : Schema :=
  match c.model? name with
  | some m => component (dialect.componentName m)
  | none => anything

/-- Records that are derived one after another, each to the reference to its component. -/
inductive Visits (c : Catalogue) (dialect : Dialect) (record : String → Registering Schema) :
    List String → Registry → Registry → Prop where
  | nil (r : Registry) : Visits c dialect record [] r r
  | cons {name : String} {rest : List String} {r next r' : Registry}
      (hfirst : Yields (record name) r (referTo c dialect name) next)
      (hrest : Visits c dialect record rest next r') :
      Visits c dialect record (name :: rest) r r'

theorem visits_append {names others : List String} {r r' : Registry} :
    Visits c dialect record (names ++ others) r r' ↔
      ∃ next, Visits c dialect record names r next ∧ Visits c dialect record others next r' := by
  induction names generalizing r with
  | nil =>
      constructor
      · exact fun hall => ⟨r, Visits.nil r, hall⟩
      · rintro ⟨next, hnone, hall⟩
        cases hnone
        exact hall
  | cons name rest ih =>
      constructor
      · intro hall
        cases hall with
        | cons hfirst hrest =>
            obtain ⟨next, hnames, hothers⟩ := ih.mp hrest
            exact ⟨next, Visits.cons hfirst hnames, hothers⟩
      · rintro ⟨next, hnames, hothers⟩
        cases hnames with
        | cons hfirst hrest => exact Visits.cons hfirst (ih.mpr ⟨next, hrest, hothers⟩)

/-- Only referring to records leaves the registry as it is. -/
theorem visits_referring (names : List String) (r : Registry) :
    Visits c dialect (fun name => pure (referTo c dialect name)) names r r := by
  induction names with
  | nil => exact Visits.nil r
  | cons name rest ih => exact Visits.cons (Yields.pure _ r) ih

mutual

/-- The references in a schema, at any depth. -/
def references : Schema → List String
  | .reference target => [target]
  | .node _ properties items additional =>
    referencesOfProperties properties ++ referencesInside items ++ referencesInside additional

def referencesInside : Option Schema → List String
  | none => []
  | some s => references s

def referencesOfProperties : Option (List (String × Schema)) → List String
  | none => []
  | some entries => referencesOfEntries entries

def referencesOfEntries : List (String × Schema) → List String
  | [] => []
  | (_, s) :: rest => references s ++ referencesOfEntries rest

end

/-- Whether all references are to components of models of given names. -/
def ReferOnly (c : Catalogue) (dialect : Dialect) (names targets : List String) : Prop :=
  ∀ target ∈ targets, ∃ name ∈ names, ∃ m, c.model? name = some m ∧
    target = componentsPath ++ dialect.componentName m

/-- Whether a derivation gives a schema, as soon as the records of given names are answered with
references, and leaves the registry that those leave. -/
def Derives (c : Catalogue) (dialect : Dialect) (names : List String)
    (derivation : (String → Registering Schema) → Registering Schema) (s : Schema) : Prop :=
  ReferOnly c dialect names s.references ∧ ∀ record r r', Visits c dialect record names r r' →
    Yields (derivation record) r s r'

theorem references_leaf (facts : Facts) : (leaf facts).references = [] := by
  simp [leaf, references, referencesOfProperties, referencesInside]

theorem references_arrayOf (rules : List Rule) (s : Schema) :
    (arrayOf rules s).references = s.references := by
  simp [arrayOf, references, referencesOfProperties, referencesInside]

theorem references_mapOf (rules : List Rule) (s : Schema) :
    (mapOf rules s).references = s.references := by
  simp [mapOf, references, referencesOfProperties, referencesInside]

theorem references_mapFacts (change : Facts → Facts) (s : Schema) :
    (s.mapFacts change).references = s.references := by
  cases s <;> simp [mapFacts, references]

theorem references_orNull (optional : Bool) (s : Schema) : (orNull optional s).references = s.references := by
  rw [orNull]
  split
  · exact references_mapFacts _ s
  · rfl

theorem references_atPlace (place : XmlFacts) (s : Schema) :
    (atPlace place s).references = s.references := references_mapFacts _ s

theorem references_mapItems {change : Schema → Schema}
    (hchange : ∀ s, (change s).references = s.references) (s : Schema) :
    (s.mapItems change).references = s.references := by
  rcases s with target | ⟨facts, properties, _ | items, additional⟩
  · simp [mapItems, references]
  · simp [mapItems, references]
  · simp [mapItems, references, referencesInside, hchange]

theorem referOnly_referTo (name : String) : ReferOnly c dialect [name] (referTo c dialect name).references := by
  intro target htarget
  rw [referTo] at htarget
  split at htarget
  · rename_i m hmodel
    simp only [component, references, List.mem_singleton] at htarget
    exact ⟨name, List.mem_singleton_self name, m, hmodel, htarget⟩
  · rw [anything, references_leaf] at htarget
    cases htarget

/-! ### A type asks for one record at most -/

/-- The schema of the record that is asked for, if one is. -/
def askFor (record : String → Registering Schema) (name : Option String) : Registering Schema :=
  match name with
  | some name => record name
  | none => pure anything

/-- Whether a derivation asks for the record of a name, or for none, and then only changes the answer, without
referring to anything else. -/
def AsksFor (name : Option String) (derivation : (String → Registering Schema) → Registering Schema) : Prop :=
  ∃ change : Schema → Schema, (∀ s, (change s).references ⊆ s.references) ∧
    ∀ record, derivation record = askFor record name >>= fun s => pure (change s)

theorem AsksFor.pure {s : Schema} (hs : s.references = []) : AsksFor none fun _ => pure s :=
  ⟨fun _ => s, fun _ => by simp [hs], fun _ => rfl⟩

theorem asksFor_record (name : String) : AsksFor (some name) fun record => record name :=
  ⟨id, fun _ => List.Subset.refl _, fun record => (bind_pure (record name)).symm⟩

theorem AsksFor.map {name : Option String} {derivation : (String → Registering Schema) → Registering Schema}
    (h : AsksFor name derivation) {change : Schema → Schema}
    (hchange : ∀ s, (change s).references = s.references) :
    AsksFor name fun record => derivation record >>= fun s => Pure.pure (change s) := by
  obtain ⟨first, hrefer, hfirst⟩ := h
  refine ⟨change ∘ first, fun s => ?_, fun record => ?_⟩
  · rw [Function.comp, hchange]
    exact hrefer s
  · simp only [hfirst, bind_assoc, pure_bind, Function.comp]

mutual

/-- A type leads to one model at most, so deriving it asks once, and then only adds to the answer. -/
theorem asksFor_ofType (c : Catalogue) (t : Ty) (rules : List Rule) :
    AsksFor t.leadsTo? fun record => ofType c record t rules := by
  cases t with
  | annotated inner =>
      simp only [ofType, Ty.leadsTo?]
      exact asksFor_ofType c inner rules
  | union choices =>
      simp only [ofType, Ty.leadsTo?]
      exact asksFor_ofOnly c choices rules
  | record name =>
      simp only [ofType, Ty.leadsTo?]
      exact asksFor_record name
  | list item | set frozen item | sequence item =>
      simp only [ofType, Ty.leadsTo?]
      exact (asksFor_ofType c item (rulesInside rules)).map (references_arrayOf rules)
  | tuple items =>
      simp only [ofType, Ty.leadsTo?]
      exact (asksFor_ofFirst c items (rulesInside rules)).map (references_arrayOf rules)
  | dict key item =>
      simp only [ofType, Ty.leadsTo?]
      exact (asksFor_ofType c item (rulesInside rules)).map (references_mapOf rules)
  | bareList | bareTuple | bareSet frozen =>
      exact AsksFor.pure ((references_arrayOf rules anything).trans (references_leaf _))
  | bareDict => exact AsksFor.pure ((references_mapOf rules anything).trans (references_leaf _))
  | _ => exact AsksFor.pure (references_leaf _)

theorem asksFor_ofOnly (c : Catalogue) (choices : List Ty) (rules : List Rule) :
    AsksFor (Ty.leadsToOnly? choices) fun record => ofOnly c record choices rules := by
  cases choices with
  | nil => exact AsksFor.pure (references_leaf _)
  | cons t rest =>
      simp only [ofOnly, Ty.leadsToOnly?]
      split
      · exact asksFor_ofOnly c rest rules
      · split
        · exact asksFor_ofType c t rules
        · exact AsksFor.pure (references_leaf _)

theorem asksFor_ofFirst (c : Catalogue) (items : List Ty) (rules : List Rule) :
    AsksFor (Ty.leadsToFirst? items) fun record => ofFirst c record items rules := by
  cases items with
  | nil => exact AsksFor.pure (references_leaf _)
  | cons t rest =>
      simp only [ofFirst, Ty.leadsToFirst?]
      exact asksFor_ofType c t rules

end

theorem asksFor_derive (c : Catalogue) (t : Ty) (rules : List Rule) :
    AsksFor t.leadsTo? fun record => derive c record t rules :=
  (asksFor_ofType c t rules).map (references_orNull t.unwrap.2)

theorem asksFor_ofField (c : Catalogue) (dialect : Dialect) (d : Descriptor) :
    AsksFor d.type.leadsTo? fun record => ofField c dialect record d := by
  have hderive := asksFor_derive c d.type d.rules
  have hplaced : ∀ s : Schema, ((atPlace (placeOf d.xmlName d.xmlAttribute) s).mapItems
      (atPlace (placeOf d.xmlName false))).references = s.references := fun s =>
    (references_mapItems (references_atPlace _) _).trans (references_atPlace _ s)
  unfold ofField
  cases nonEmpty d.description with
  | none =>
      cases dialect with
      | json => exact hderive.map fun _ => rfl
      | xml => exact hderive.map hplaced
  | some text =>
      cases dialect with
      | json => exact hderive.map (references_mapFacts _)
      | xml => exact hderive.map fun s => (hplaced _).trans (references_mapFacts _ s)

/-- What asks for one record at most gives a schema that depends on its name alone. -/
theorem AsksFor.exists_derives {name : Option String}
    {derivation : (String → Registering Schema) → Registering Schema} (h : AsksFor name derivation)
    (c : Catalogue) (dialect : Dialect) : ∃ s, Derives c dialect name.toList derivation s := by
  obtain ⟨change, hrefer, hchange⟩ := h
  cases name with
  | none =>
      refine ⟨change anything, fun target htarget => ?_, fun record r r' hvisits => ?_⟩
      · have hanything := hrefer anything htarget
        rw [anything, references_leaf] at hanything
        cases hanything
      · cases hvisits
        rw [hchange]
        exact (Yields.pure anything r).bind (Yields.pure _ r)
  | some name =>
      refine ⟨change (referTo c dialect name), fun target htarget => ?_, fun record r r' hvisits => ?_⟩
      · exact referOnly_referTo name target (hrefer _ htarget)
      · cases hvisits with
        | cons hfirst hrest =>
            cases hrest
            rw [hchange]
            exact hfirst.bind (Yields.pure _ r')

/-- The models that fields lead to. -/
def namesInside (fields : List Descriptor) : List String := fields.filterMap fun d => d.type.leadsTo?

theorem namesInside_cons (d : Descriptor) (rest : List Descriptor) :
    namesInside (d :: rest) = d.type.leadsTo?.toList ++ namesInside rest := by
  unfold namesInside
  cases hname : d.type.leadsTo? <;> simp [hname]

theorem mem_referencesOfEntries_putInto {key target : String} {s : Schema}
    {found : List (String × Schema)}
    (htarget : target ∈ referencesOfEntries (Registry.putInto key s found)) :
    target ∈ s.references ∨ target ∈ referencesOfEntries found := by
  induction found with
  | nil =>
      simp only [Registry.putInto, referencesOfEntries, List.append_nil] at htarget
      exact Or.inl htarget
  | cons entry rest ih =>
      obtain ⟨n, t⟩ := entry
      simp only [Registry.putInto] at htarget
      split at htarget
      · simp only [referencesOfEntries, List.mem_append] at htarget ⊢
        exact htarget.imp_right Or.inr
      · simp only [referencesOfEntries, List.mem_append] at htarget ⊢
        rcases htarget with hfirst | hrest
        · exact Or.inr (Or.inl hfirst)
        · exact (ih hrest).imp_right Or.inr

/-- The properties of a record depend on what the declarations of its fields say alone. -/
theorem exists_derives_propertiesOf (c : Catalogue) (dialect : Dialect) (fields : List Descriptor)
    (found : List (String × Schema)) :
    ∃ properties,
      (∀ target ∈ referencesOfEntries properties, target ∈ referencesOfEntries found ∨
        ReferOnly c dialect (namesInside fields) [target]) ∧
      ∀ record r r', Visits c dialect record (namesInside fields) r r' →
        Yields (propertiesOf dialect (ofField c dialect record) fields found) r properties r' := by
  induction fields generalizing found with
  | nil =>
      refine ⟨found, fun target htarget => Or.inl htarget, ?_⟩
      intro record r r' hvisits
      cases hvisits
      exact Yields.pure found r
  | cons d rest ih =>
      obtain ⟨s, hrefer, hfield⟩ := (asksFor_ofField c dialect d).exists_derives c dialect
      obtain ⟨properties, hreferences, hrest⟩ := ih (Registry.putInto (dialect.keyOf d) s found)
      have hnames := namesInside_cons d rest
      refine ⟨properties, ?_, ?_⟩
      · intro target htarget
        have hmono : ∀ {names : List String}, names ⊆ namesInside (d :: rest) →
            ReferOnly c dialect names [target] → ReferOnly c dialect (namesInside (d :: rest)) [target] := by
          intro names hsub honly t ht
          obtain ⟨name, hname, hmodel⟩ := honly t ht
          exact ⟨name, hsub hname, hmodel⟩
        rcases hreferences target htarget with hfound | honly
        · rcases mem_referencesOfEntries_putInto hfound with hself | hfound
          · refine Or.inr (hmono (hnames ▸ List.subset_append_left _ _) fun t ht => ?_)
            exact hrefer t (List.mem_singleton.mp ht ▸ hself)
          · exact Or.inl hfound
        · exact Or.inr (hmono (hnames ▸ List.subset_append_right _ _) honly)
      · intro record r r' hvisits
        rw [hnames, visits_append] at hvisits
        obtain ⟨next, hhead, htail⟩ := hvisits
        exact (hfield record r next hhead).bind (hrest record next r' htail)

/-- Whether the example of a model for documents of elements can be made: its mock record is written, or
rejected. -/
def HasExample (c : Catalogue) (m : Model) : Prop :=
  ∃ sample, ∀ j, ∃ later, (Mock.xmlExample c m.name none).outcome j = (.ok sample, later)

/-- What the component of a model says depends on the model alone. -/
theorem exists_derives_nodeOf {m : Model} {fields : List Descriptor}
    (hfields : c.describe m = .ok fields) (hexample : dialect = .xml → HasExample c m) :
    ∃ facts properties, Derives c dialect (namesInside (dialect.fieldsOf fields))
      (fun record => nodeOf c dialect record none m) (.node facts (some properties) none none) := by
  obtain ⟨properties, hreferences, hproperties⟩ :=
    exists_derives_propertiesOf c dialect (dialect.fieldsOf fields) []
  have hdescribe := Action.describe_eq_ok hfields
  have hrefer : ∀ facts, ReferOnly c dialect (namesInside (dialect.fieldsOf fields))
      (Schema.node facts (some properties) none none).references := by
    intro facts target htarget
    simp only [references, referencesOfProperties, referencesInside, List.append_nil] at htarget
    rcases hreferences target htarget with hnone | honly
    · cases hnone
    · exact honly target (List.mem_singleton_self target)
  cases dialect with
  | json =>
      refine ⟨componentFacts .json m fields, properties, hrefer _, ?_⟩
      intro record r r' hvisits
      apply (Yields.liftM hdescribe r).bind
      exact (hproperties record r r' hvisits).bind (Yields.pure _ r')
  | xml =>
      obtain ⟨sample, hsample⟩ := hexample rfl
      refine ⟨{ componentFacts .xml m (Dialect.xml.fieldsOf fields) with
        xml := some (placeOf (givenOr none m.name) false)
        sample := (sample.map Value.text).getD .null }, properties, hrefer _, ?_⟩
      intro record r r' hvisits
      apply (Yields.liftM hdescribe r).bind
      apply (hproperties record r r' hvisits).bind
      have hwritten : Yields (Registering.ofAction (Mock.xmlExample c m.name none)) r' sample r' := by
        intro j
        obtain ⟨later, hlater⟩ := hsample j
        exact ⟨later, by rw [Registering.outcome_ofAction, hlater]⟩
      exact hwritten.bind (Yields.pure _ r')

/-- The finished component of a model: what is derived for it where every record inside is merely
referred to, in an empty registry. -/
def finished (c : Catalogue) (dialect : Dialect) (m : Model) : Schema :=
  match ((nodeOf c dialect (fun name => pure (referTo c dialect name)) none m).outcome
    Registry.empty Journal.empty).1.1 with
  | .ok s => s
  | .error _ => anything

/-- The component of a model is derived as its finished component wherever that happens. -/
theorem derives_finished {m : Model} {fields : List Descriptor}
    (hfields : c.describe m = .ok fields) (hexample : dialect = .xml → HasExample c m) :
    Derives c dialect (namesInside (dialect.fieldsOf fields))
        (fun record => nodeOf c dialect record none m) (finished c dialect m) ∧
      ∃ facts properties, finished c dialect m = .node facts (some properties) none none := by
  obtain ⟨facts, properties, hrefer, hnode⟩ := exists_derives_nodeOf hfields hexample
  have hfinished : finished c dialect m = .node facts (some properties) none none := by
    obtain ⟨later, hlater⟩ := hnode _ Registry.empty Registry.empty (visits_referring _ _) Journal.empty
    rw [finished, hlater]
  rw [hfinished]
  exact ⟨⟨hrefer, hnode⟩, facts, properties, rfl⟩

end Schema
end Intake
