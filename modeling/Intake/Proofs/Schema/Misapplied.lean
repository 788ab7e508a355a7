import Intake.Proofs.Model.Instance
import Intake.Proofs.Schema.Taken

/-!
Schemas without the rules that do not apply. What is derived for a catalogue is what is derived when the rules that
do not apply are dropped, wherever no field passes such a rule on to what is inside it.
-/

namespace Intake.Schema

open Action (SameResult)

/-- A rule that does not apply to a field, and says something about what is inside it all the same. -/
def isPassedOn (c : Catalogue) (d : Descriptor) (r : Rule) : Bool :=
  isDeep d && (d.mismatch? r).isSome && takes c r.name d.type

/-- No field of the chosen models passes a rule on that does not apply to it. -/
def PassesNothingOn (c : Catalogue) (chosen : String → Bool) : Prop :=
  ∀ m ∈ c.models, chosen m.name = true → ∀ f ∈ m.fields, ∀ r ∈ (c.descriptorOf f).rules,
    isPassedOn c (c.descriptorOf f) r = false

instance (c : Catalogue) (chosen : String → Bool) : Decidable (PassesNothingOn c chosen) :=
  inferInstanceAs (Decidable (∀ m ∈ c.models, chosen m.name = true → ∀ f ∈ m.fields,
    ∀ r ∈ (c.descriptorOf f).rules, isPassedOn c (c.descriptorOf f) r = false))

variable (c : Catalogue) (chosen : String → Bool) (dialect : Dialect) (record : String → Registering Schema)

/-- The rules that are dropped from a field say nothing about it. -/
def IsIdleAt (c : Catalogue) (drop : Bool) (d : Descriptor) : Prop :=
  IsIdle (fun r => !drop || (d.mismatch? r).isNone) d.rules fun name => takes c name d.type

theorem derive_pruned (t : Ty) : derive (c.pruned chosen) record t [] = derive c record t [] := by
  have hidle : IsIdle (fun _ => true) [] fun name => takes c name t := by simp [IsIdle]
  have htype := ofType_filter c chosen record t hidle
  simp only [derive]
  rw [← htype]
  rfl

theorem ofField_pruned {drop : Bool} {d : Descriptor} (hidle : IsIdleAt c drop d) :
    ofField (c.pruned chosen) dialect record (d.pruned drop) = ofField c dialect record d := by
  have htype : ofType (c.pruned chosen) record d.type (d.pruned drop).rules = ofType c record d.type d.rules := by
    rw [Descriptor.rules_pruned]
    exact ofType_filter c chosen record d.type hidle
  simp only [ofField, derive]
  rw [← htype]
  rfl

theorem propertiesOf_pruned {drop : Bool} {fields : List Descriptor} (hidle : ∀ d ∈ fields, IsIdleAt c drop d)
    (found : List (String × Schema)) :
    propertiesOf dialect (ofField (c.pruned chosen) dialect record) (fields.map (Descriptor.pruned drop)) found =
      propertiesOf dialect (ofField c dialect record) fields found := by
  induction fields generalizing found with
  | nil => rfl
  | cons d rest ih =>
      have hrest := fun found => ih (fun e he => hidle e (List.mem_cons_of_mem d he)) found
      have hfield := ofField_pruned c chosen dialect record (hidle d List.mem_cons_self)
      rw [List.map_cons, propertiesOf, propertiesOf, hfield]
      simp only [hrest]
      cases dialect <;> rfl

/-- The rule that a field is required applies to every field. -/
theorem componentFacts_pruned (drop : Bool) (m : Model) (fields : List Descriptor) :
    componentFacts dialect (m.pruned c drop) (fields.map (Descriptor.pruned drop)) =
      componentFacts dialect m fields := by
  have hrequired : ∀ d : Descriptor, Rule.has (d.pruned drop).rules "required" = Rule.has d.rules "required" := by
    intro d
    apply Descriptor.has_pruned
    intro r hname
    simp [Descriptor.mismatch?, Descriptor.suits?, hname]
  have hkeys : ((fields.map (Descriptor.pruned drop)).filter fun d => Rule.has d.rules "required").map dialect.keyOf =
      (fields.filter fun d => Rule.has d.rules "required").map dialect.keyOf := by
    rw [List.filter_map, List.map_map]
    simp only [Function.comp_def, hrequired]
    cases dialect <;> rfl
  simp only [componentFacts, hkeys]
  rfl

theorem fieldsOf_pruned (drop : Bool) (fields : List Descriptor) :
    dialect.fieldsOf (fields.map (Descriptor.pruned drop)) =
      (dialect.fieldsOf fields).map (Descriptor.pruned drop) := by
  cases dialect with
  | json => rfl
  | xml => exact List.filter_map

theorem nodeOf_pruned {drop : Bool} {m : Model}
    (hidle : ∀ fields, c.describe m = .ok fields → ∀ d ∈ fields, IsIdleAt c drop d) (root : Option String) :
    nodeOf (c.pruned chosen) dialect record root (m.pruned c drop) = nodeOf c dialect record root m := by
  unfold nodeOf
  rw [Action.describe_pruned]
  refine Registering.liftM_map_bind fun fields hfields => ?_
  have hall : ∀ d ∈ dialect.fieldsOf fields, IsIdleAt c drop d := by
    intro d hd
    apply hidle fields (Action.of_describe_eq_ok hfields)
    cases dialect with
    | json => exact hd
    | xml => exact (List.mem_filter.mp hd).1
  have hsample : Mock.xmlExample (c.pruned chosen) (m.pruned c drop).name root = Mock.xmlExample c m.name root := by
    simp only [Mock.xmlExample, Mock.written?_pruned, Markup.encode_pruned]
    rfl
  simp only [fieldsOf_pruned, propertiesOf_pruned c chosen dialect record hall, componentFacts_pruned, hsample]
  rfl

/-! ### Components -/

variable {c chosen}

/-- Where nothing is passed on, a field says the same without the rules that are dropped. -/
theorem PassesNothingOn.isIdleAt (hnothing : PassesNothingOn c chosen) {m : Model} (hm : m ∈ c.models)
    {fields : List Descriptor} (hfields : c.describe m = .ok fields) {d : Descriptor} (hd : d ∈ fields) :
    IsIdleAt c (chosen m.name) d := by
  obtain ⟨f, hf, hdescribed⟩ := Catalogue.exists_field_of_mem_describe hfields hd
  intro r hr hdropped
  obtain ⟨hdrop, happlies⟩ := Bool.or_eq_false_iff.mp hdropped
  have hchosen : chosen m.name = true := by simpa using hdrop
  have hmismatch : (d.mismatch? r).isSome := by simpa [Option.isSome_iff_ne_none] using happlies
  obtain ⟨-, -, htype, -, -⟩ := Catalogue.names_of_describeField hdescribed
  cases hdeep : isDeep d with
  | false => exact htype ▸ takes_of_mismatch hdescribed hdeep hmismatch
  | true =>
      have hkept := hnothing m hm hchosen f hf r (by rwa [Catalogue.descriptorOf_eq hdescribed])
      rw [Catalogue.descriptorOf_eq hdescribed, isPassedOn, hdeep, hmismatch] at hkept
      exact hkept

theorem component?_pruned (hnothing : PassesNothingOn c chosen) (fuel : Nat) (root : Option String) (name : String) :
    component? (c.pruned chosen) dialect fuel root name = component? c dialect fuel root name := by
  induction fuel generalizing root name with
  | zero => rfl
  | succ fuel ih =>
      have hrecord : component? (c.pruned chosen) dialect fuel none = component? c dialect fuel none :=
        funext (ih none)
      unfold component?
      rw [Catalogue.model?_pruned, hrecord]
      cases hm : c.model? name with
      | none => rfl
      | some m =>
          have hmem : m ∈ c.models := List.mem_of_find?_eq_some hm
          have hnode := nodeOf_pruned c chosen dialect (component? c dialect fuel none)
            (fun fields hfields d hd => hnothing.isIdleAt hmem hfields hd) root
          rw [Catalogue.name_of_model? hm] at hnode
          simp only [Option.map_some, hnode]
          rfl

theorem ofRecord_pruned (hnothing : PassesNothingOn c chosen) (root : Option String) :
    ofRecord (c.pruned chosen) dialect root = ofRecord c dialect root := by
  funext model
  rw [ofRecord, ofRecord, component?_pruned dialect hnothing, Catalogue.pruned, List.length_map]

theorem ofJson_pruned (hnothing : PassesNothingOn c chosen) (t : Ty) : ofJson (c.pruned chosen) t = ofJson c t := by
  rw [ofJson, ofJson, ofRecord_pruned _ hnothing, derive_pruned]

theorem ofXml_pruned (hnothing : PassesNothingOn c chosen) (t : Ty) (root : Option String) :
    ofXml (c.pruned chosen) t root = ofXml c t root := by
  unfold ofXml ofXmlList
  simp only [Catalogue.kindOf_pruned, ofRecord_pruned _ hnothing, derive_pruned, Mock.ofType_pruned,
    Mock.written?_pruned, Markup.encodeAll_pruned]

/-- Rules that do not apply have no effect. When they are dropped from the fields of chosen models, the rules that
apply are left; every value is told the same when it is validated; and if no field of these models passes a rule on
that does not apply to it, the same schemas are derived for every type, with the same components and notices. -/
theorem misapplied_without_effect (c : Catalogue) (chosen : String → Bool) :
    (∀ m ∈ c.models, ∀ fields, c.describe m = .ok fields →
      (c.pruned chosen).describe (m.pruned c (chosen m.name)) =
        .ok (fields.map fun d => { d with rules := if chosen m.name then d.applicable else d.rules })) ∧
      (∀ v, SameResult (Validation.validate (c.pruned chosen) v) (Validation.validate c v)) ∧
      (PassesNothingOn c chosen → ∀ t root,
        ofJson (c.pruned chosen) t = ofJson c t ∧ ofXml (c.pruned chosen) t root = ofXml c t root) := by
  refine ⟨?_, Validation.validate_pruned c chosen, ?_⟩
  · intro m _ fields hfields
    rw [Catalogue.describe_pruned, hfields]
    rfl
  · intro hnothing t root
    exact ⟨ofJson_pruned hnothing t, ofXml_pruned hnothing t root⟩

/-- A crate with a name, weights, and prices; each field has a rule that does not apply to it. -/
def crateCatalogue : Catalogue :=
  ⟨[plainModel "Crate" [ruledField "name" .str "min=3, minlength=2",
    ruledField "weights" (.list .int) "minlength=1,min=0",
    ruledField "prices" (.dict .str .int) "uniqueItems,minItems=1"]], []⟩

def crate : Value :=
  .record "Crate" [("name", .text "a"), ("weights", .list [.int 4, .int (-1)]), ("prices", .dict [])]

/-- The crate breaks the rules that apply, with and without the others, and its schemas are the same. -/
theorem misapplied_without_effect_crate :
    PassesNothingOn crateCatalogue (fun _ => true) ∧
      ((Validation.validate (crateCatalogue.pruned fun _ => true) crate).outcome .empty).1 =
        .ok [⟨"name", "must have at least 2 characters"⟩, ⟨"weights", "must be ≥ 0"⟩,
          ⟨"prices", "must have at least 1 entries"⟩] ∧
      ofJson (crateCatalogue.pruned fun _ => true) (.record "Crate") = ofJson crateCatalogue (.record "Crate") ∧
      ofXml (crateCatalogue.pruned fun _ => true) (.record "Crate") none =
        ofXml crateCatalogue (.record "Crate") none := by
  have hnothing : PassesNothingOn crateCatalogue (fun _ => true) := by decide +kernel
  obtain ⟨-, hvalidate, hschemas⟩ := misapplied_without_effect crateCatalogue fun _ => true
  refine ⟨hnothing, ?_, hschemas hnothing (.record "Crate") none⟩
  rw [hvalidate crate .empty .empty]
  decide +kernel

/-- A shelf with sizes by name, and a rule for numbers that does not apply to a map of them. -/
def shelfCatalogue : Catalogue := ⟨[plainModel "Shelf" [ruledField "sizes" (.dict .str .int) "min=3"]], []⟩

/-- The schema of a map says of its values what a rule says that does not apply to the map. -/
theorem ofJson_pruned_differs_on_map :
    ofJson (shelfCatalogue.pruned fun _ => true) (.record "Shelf") ≠ ofJson shelfCatalogue (.record "Shelf") := by
  intro hsame
  have hshelf := congrArg (fun a => ((Registering.outcome a .empty .empty).1.2.get? "app.Shelf").map fun node =>
    Json.compact node.toValue) hsame
  exact absurd hshelf (by decide +kernel)

end Intake.Schema
