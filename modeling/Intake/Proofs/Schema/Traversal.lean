import Intake.Proofs.Model.Unwrapping
import Intake.Proofs.Outcome
import Intake.Schema.Components

/-!
How schemas are derived from types: annotations and the permission to be absent change nothing but what
stands around the schema, the properties of a record are the schemas of its fields, and the component of
a model holds them under the name of the model.
-/

namespace Intake.Schema

variable (c : Catalogue) (record : String → Registering Schema)

/-- Deriving a type does not see annotations and the permission to be absent. -/
theorem seesThrough_ofType (rules : List Rule) : Ty.SeesThrough fun t => ofType c record t rules where
  annotated _ := by rw [ofType]
  union choices t hone := by
    have honly := Ty.only_eq_of_filter (f := fun t => ofType c record t rules) (d := pure anything)
      (g := fun choices => ofOnly c record choices rules) rfl (fun _ _ => by rw [ofOnly]) choices
    rw [ofType, honly, hone]

/-- A type is derived as what is left of it without annotations and the permission to be absent. -/
theorem ofType_unwrap (t : Ty) (rules : List Rule) :
    ofType c record t.unwrap.1 rules = ofType c record t rules := (seesThrough_ofType c record rules).unwrap t

/-- Several choices are derived as anything. -/
theorem ofOnly_eq_anything {t : Ty} {choices : List Ty} (ht : t.unwrap.1 = .union choices) (rules : List Rule) :
    ofOnly c record choices rules = pure anything :=
  Ty.only_eq_of_unwrap (f := fun t => ofType c record t rules) (d := pure anything)
    (g := fun choices => ofOnly c record choices rules) rfl (fun _ _ => by rw [ofOnly]) ht

variable {c record}

/-- Properties that are put later leave the property of another key as it is. -/
theorem lookup_of_propertiesOf_of_ne {dialect : Dialect} {field : Descriptor → Registering Schema}
    {key : String} {fields : List Descriptor} (hother : ∀ e ∈ fields, dialect.keyOf e ≠ key)
    {found properties : List (String × Schema)} {r r' : Registry} {j j' : Journal}
    (hall : (propertiesOf dialect field fields found).outcome r j = ((.ok properties, r'), j')) :
    properties.lookup key = found.lookup key := by
  induction fields generalizing found r j with
  | nil =>
      rw [propertiesOf, Registering.outcome_pure] at hall
      cases hall
      rfl
  | cons e rest ih =>
      obtain ⟨s, r₁, j₁, -, hrest⟩ := Registering.of_outcome_bind hall
      have hne : key ≠ dialect.keyOf e := (hother e List.mem_cons_self).symm
      rw [ih (fun e he => hother e (List.mem_cons_of_mem _ he)) hrest,
        Registry.lookup_putInto_of_ne s found hne]

/-- Every field is derived, and the property of a key is what was derived for the last field of that
key. -/
theorem lookup_of_propertiesOf {dialect : Dialect} {field : Descriptor → Registering Schema}
    {before after : List Descriptor} {d : Descriptor}
    {found properties : List (String × Schema)} {r r' : Registry} {j j' : Journal}
    (hall : (propertiesOf dialect field (before ++ d :: after) found).outcome r j =
      ((.ok properties, r'), j')) :
    ∃ s r₁ j₁ r₂ j₂, (field d).outcome r₁ j₁ = ((.ok s, r₂), j₂) ∧
      ((∀ e ∈ after, dialect.keyOf e ≠ dialect.keyOf d) →
        properties.lookup (dialect.keyOf d) = some s) := by
  induction before generalizing found r j with
  | nil =>
      obtain ⟨s, r₁, j₁, hfield, hrest⟩ := Registering.of_outcome_bind hall
      refine ⟨s, r, j, r₁, j₁, hfield, fun hlast => ?_⟩
      rw [lookup_of_propertiesOf_of_ne hlast hrest, Registry.lookup_putInto_self]
  | cons e rest ih =>
      obtain ⟨s, r₁, j₁, -, hrest⟩ := Registering.of_outcome_bind hall
      exact ih hrest

theorem insert?_of_put {name : String} {s : Schema} {r r' : Registry} {j j' : Journal} {u : Unit}
    (hput : (Registering.put name s).outcome r j = ((.ok u, r'), j')) :
    r.insert? name s = .ok r' := by
  obtain ⟨r₁, r₂, j₂, hget, hput⟩ := Registering.of_outcome_bind hput
  cases hget
  obtain ⟨next, r₃, j₃, hinsert, hput⟩ := Registering.of_outcome_bind hput
  obtain ⟨_, r₄, j₄, hset, hnote⟩ := Registering.of_outcome_bind hput
  cases hset
  cases hnote
  exact congrArg (fun o => o.1.1) hinsert

/-- The component of a model that is not there yet is put as it is derived. -/
theorem get?_of_component? {dialect : Dialect} {fuel : Nat} {root : Option String} {name : String}
    {m : Model} (hmodel : c.model? name = some m) {r r' : Registry} {j j' : Journal} {s : Schema}
    (hfree : r.contains (dialect.componentName m) = false)
    (hdone : (component? c dialect (fuel + 1) root name).outcome r j = ((.ok s, r'), j')) :
    ∃ node, r'.get? (dialect.componentName m) = some node ∧ ∃ r₁ j₁ r₂ j₂,
      (nodeOf c dialect (component? c dialect fuel none) root m).outcome r₁ j₁ =
        ((.ok node, r₂), j₂) := by
  simp only [component?, hmodel] at hdone
  obtain ⟨r₁, r₂, j₂, hget, hdone⟩ := Registering.of_outcome_bind hdone
  cases hget
  rw [if_neg (by simp [hfree])] at hdone
  obtain ⟨_, r₃, j₃, -, hdone⟩ := Registering.of_outcome_bind hdone
  obtain ⟨node, r₄, j₄, hnode, hdone⟩ := Registering.of_outcome_bind hdone
  obtain ⟨_, r₅, j₅, hput, hdone⟩ := Registering.of_outcome_bind hdone
  cases hdone
  refine ⟨node, ?_, r₃, j₃, r₄, j₄, hnode⟩
  rw [Registry.get?_insert? (insert?_of_put hput), if_pos rfl]

/-- The node of a model in plain documents has the properties of the model's fields. -/
theorem properties_of_nodeOf {root : Option String} {m : Model} {fields : List Descriptor}
    (hfields : c.describe m = .ok fields) {r r' : Registry} {j j' : Journal} {node : Schema}
    (hnode : (nodeOf c .json record root m).outcome r j = ((.ok node, r'), j')) :
    ∃ facts properties, node = .node facts (some properties) none none ∧ ∃ r₁ j₁ r₂ j₂,
      (propertiesOf .json (ofField c .json record) fields []).outcome r₁ j₁ =
        ((.ok properties, r₂), j₂) := by
  obtain ⟨described, r₁, j₁, hdescribe, hnode⟩ := Registering.of_outcome_bind hnode
  obtain ⟨properties, r₂, j₂, hproperties, hnode⟩ := Registering.of_outcome_bind hnode
  cases hnode
  rw [Registering.outcome_liftM, Action.describe, hfields] at hdescribe
  cases hdescribe
  exact ⟨_, properties, rfl, _, _, _, _, hproperties⟩

/-- The plain component of a model that is not there yet is put with the properties of the model's
fields. -/
theorem get?_of_ofJson {name : String} {m : Model} (hmodel : c.model? name = some m)
    {fields : List Descriptor} (hfields : c.describe m = .ok fields) {r r' : Registry}
    {j j' : Journal} {s : Schema} (hfree : r.contains (Dialect.json.componentName m) = false)
    (hdone : (ofJson c (.record name)).outcome r j = ((.ok s, r'), j')) :
    ∃ facts properties, r'.get? (Dialect.json.componentName m) =
        some (.node facts (some properties) none none) ∧
      ∃ r₁ j₁ r₂ j₂,
        (propertiesOf .json (ofField c .json (component? c .json c.models.length none)) fields
          []).outcome r₁ j₁ = ((.ok properties, r₂), j₂) := by
  obtain ⟨derived, r₃, j₃, hcomponent, hnull⟩ := Registering.of_outcome_bind hdone
  cases hnull
  change (component? c .json (c.models.length + 1) none name).outcome r j = _ at hcomponent
  obtain ⟨node, hput, r₁, j₁, r₂, j₂, hnode⟩ := get?_of_component? hmodel hfree hcomponent
  obtain ⟨facts, properties, rfl, hproperties⟩ := properties_of_nodeOf hfields hnode
  exact ⟨facts, properties, hput, hproperties⟩

end Intake.Schema
