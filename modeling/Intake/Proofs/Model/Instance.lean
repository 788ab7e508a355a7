import Intake.Proofs.Shape.Document

/-!
Instances of models. An instance holds in every field a value that the field takes: a scalar, a record of
the very model that the type names, a list of such, or a map from texts to scalars. Records are inside
records to a depth that is given.
-/

namespace Intake

/-- What the values of a type are, for scalars and records that are given. -/
inductive Inhabits (scalar : Kind → Value → Prop) (record : String → Value → Prop) : Ty → Value → Prop where
  | scalar {t : Ty} {kind : Kind} {v : Value} (ht : t.scalarKind? = some kind) (hv : scalar kind v) :
    Inhabits scalar record t v
  | record {name : String} {v : Value} (hv : record name v) : Inhabits scalar record (.record name) v
  | scalars {item t : Ty} {kind : Kind} {xs : List Value} (hitem : item.unwrap = (t, false))
    (ht : t.scalarKind? = some kind) (hxs : ∀ x ∈ xs, scalar kind x) :
    Inhabits scalar record (.list item) (.list xs)
  | records {item : Ty} {name : String} {xs : List Value} (hitem : item.unwrap = (.record name, false))
    (hxs : ∀ x ∈ xs, record name x) : Inhabits scalar record (.list item) (.list xs)
  | map {key value t : Ty} {kind : Kind} {es : List (String × Value)} (hkey : key.unwrap = (.str, false))
    (hvalue : value.unwrap = (t, false)) (ht : t.scalarKind? = some kind)
    (hkeys : (es.map Prod.fst).Nodup) (hes : ∀ e ∈ es, scalar kind e.2) :
    Inhabits scalar record (.dict key value) (.dict (Value.textEntries es))

/-- A value that a field holds: nothing where the field may be absent or is so by default, or a value of
the type of the field, within its bounds. -/
def Field.Holds (c : Catalogue) (build : String → Value → Shape.Fitted) (scalar : Kind → Value → Prop)
    (record : String → Value → Prop) (f : Field) (v : Value) : Prop :=
  (v = .null ∧ (f.type.unwrap.2 = true ∨ ∃ d, f.default = some d ∧ d.get = .null)) ∨
    (Shape.Takes c build f v v ∧ Inhabits scalar record f.type.unwrap.1 v)

/-- An instance of a model, with scalars that are legible and records inside records to a depth. -/
def IsInstance (legible : Value → Prop) (c : Catalogue) : (depth : Nat) → String → Value → Prop
  | 0, _, _ => False
  | depth + 1, name, x =>
    ∃ (m : Model) (value : Field → Value), c.model? name = some m ∧
      x = .record m.name (m.fields.map fun f => (f.name, value f)) ∧
      ∀ f ∈ m.fields, f.Holds c (Shape.fitRecord c depth) (fun kind v => IsScalar kind v ∧ legible v)
        (IsInstance legible c depth) (value f)

/-- A field of a type that nothing else is said about. -/
def plainField (name : String) (type : Ty) : Field :=
  ⟨name, type, none, none, Annotations.none, none, ⟨none, none, none⟩⟩

/-- A field of a type with rules. -/
def ruledField (name : String) (type : Ty) (rules : String) : Field :=
  { plainField name type with annotations := { Annotations.none with rules := some rules } }

/-- A model of fields that nothing else is said about. -/
def plainModel (name : String) (fields : List Field) : Model :=
  ⟨name, "app", name, none, .strict, [], fields⟩

end Intake
