import Intake.Model.Descriptor
import Intake.Model.Zero
import Intake.Proofs.Outcome
import Mathlib.Data.List.Forall2

/-!
What is known about the fields of a model, field by field.
-/

namespace Intake

theorem Ty.eq_record_of_recordName? {t : Ty} {name : String} (h : t.recordName? = some name) : t = .record name := by
  cases t with
  | record other => rw [Option.some.inj h]
  | _ => cases h

namespace Catalogue

variable {c : Catalogue}

/-- The kind of an enumeration is that of the scalars that its members are. -/
theorem kindOf_enumeration (c : Catalogue) (name : String) :
    c.kindOf (.enumeration name) = .string ∨ c.kindOf (.enumeration name) = .integer ∨
      c.kindOf (.enumeration name) = .any := by
  simp only [kindOf]
  split
  · rename_i e _
    unfold Enumeration.kind
    cases e.base <;> simp
  · exact .inr (.inr rfl)

/-- Only records are of the kind of records. -/
theorem exists_record_of_kindOf {t : Ty} (h : c.kindOf t = .record) : ∃ name, t = .record name := by
  cases t with
  | record name => exact ⟨name, rfl⟩
  | enumeration name => rcases kindOf_enumeration c name with hkind | hkind | hkind <;> rw [hkind] at h <;> cases h
  | _ => cases h

/-- Only maps are of the kind of maps. -/
theorem eq_dict_of_kindOf {t : Ty} (h : c.kindOf t = .map) : t = .bareDict ∨ ∃ key value, t = .dict key value := by
  cases t with
  | bareDict => exact .inl rfl
  | dict key value => exact .inr ⟨key, value, rfl⟩
  | enumeration name => rcases kindOf_enumeration c name with hkind | hkind | hkind <;> rw [hkind] at h <;> cases h
  | _ => cases h

/-- The model that a name finds has that name. -/
theorem name_of_model? {name : String} {m : Model} (hm : c.model? name = some m) : m.name = name := by
  rw [model?] at hm
  have hname := List.find?_some hm
  exact eq_of_beq hname

theorem model?_self {name : String} {m : Model} (hm : c.model? name = some m) : c.model? m.name = some m := by
  rw [name_of_model? hm]
  exact hm

theorem forall₂_of_mapM {declared : List Field} {fields : List Descriptor}
    (hfields : declared.mapM c.describeField = .ok fields) :
    List.Forall₂ (fun f d => c.describeField f = .ok d) declared fields := by
  induction declared generalizing fields with
  | nil =>
      cases hfields
      exact List.Forall₂.nil
  | cons f rest ih =>
      rw [List.mapM_cons] at hfields
      cases hfirst : c.describeField f with
      | error e =>
          rw [hfirst] at hfields
          cases hfields
      | ok d =>
          cases hrest : rest.mapM c.describeField with
          | error e =>
              rw [hfirst, hrest] at hfields
              cases hfields
          | ok ds =>
              rw [hfirst, hrest] at hfields
              cases hfields
              exact List.Forall₂.cons hfirst (ih hrest)

/-- The fields of a model are described one by one, in their order. -/
theorem forall₂_of_describe {m : Model} {fields : List Descriptor}
    (hfields : c.describe m = .ok fields) :
    List.Forall₂ (fun f d => c.describeField f = .ok d) m.fields fields :=
  forall₂_of_mapM hfields

theorem exists_field_of_mem_describe {m : Model} {fields : List Descriptor}
    (hfields : c.describe m = .ok fields) {d : Descriptor} (hd : d ∈ fields) :
    ∃ f ∈ m.fields, c.describeField f = .ok d := by
  obtain ⟨i, hi, rfl⟩ := List.getElem_of_mem hd
  have hall := forall₂_of_describe hfields
  have hlength := hall.length_eq
  refine ⟨m.fields[i], List.getElem_mem _, ?_⟩
  exact (List.forall₂_iff_get.mp hall).2 i (by omega) hi

/-- The kinds of a field come from its type. -/
theorem kinds_of_describeField {f : Field} {d : Descriptor} (hd : c.describeField f = .ok d) :
    d.kind = c.kindOf d.type.unwrap.1 ∧ d.elementKind = d.type.unwrap.1.element?.map c.kindOf := by
  rw [describeField] at hd
  dsimp only at hd
  split at hd
  · cases hd
    exact ⟨rfl, rfl⟩
  · cases hd

/-- What the declaration of a field says, where it says anything. -/
def descriptorOf (c : Catalogue) (f : Field) : Descriptor :=
  match c.describeField f with
  | .ok d => d
  | .error _ => default

theorem descriptorOf_eq {f : Field} {d : Descriptor} (hd : c.describeField f = .ok d) :
    c.descriptorOf f = d := by
  simp [descriptorOf, hd]

/-- The fields of a model are described by what each of them says. -/
theorem describe_eq_map {m : Model} {fields : List Descriptor} (hfields : c.describe m = .ok fields) :
    fields = m.fields.map c.descriptorOf ∧
      ∀ f ∈ m.fields, c.describeField f = .ok (c.descriptorOf f) := by
  have hall := forall₂_of_describe hfields
  clear hfields
  generalize m.fields = declared at hall
  induction hall with
  | nil => exact ⟨rfl, by simp⟩
  | @cons f d declared fields hd _ ih =>
      have hf := descriptorOf_eq hd
      constructor
      · rw [List.map_cons, hf, ← ih.1]
      · intro g hg
        rcases List.mem_cons.mp hg with rfl | hlater
        · rw [hf, hd]
        · exact ih.2 g hlater

/-- The model of a field is the record that its type names, or that of its items. -/
theorem model_of_describeField {f : Field} {d : Descriptor} (hd : c.describeField f = .ok d) :
    d.model = match f.type.unwrap.1.recordName? with
      | some name => some name
      | none => f.type.unwrap.1.element?.bind Ty.recordName? := by
  rw [describeField] at hd
  dsimp only at hd
  split at hd
  · cases hd
    rfl
  · cases hd

/-- Where every field says what it is, the model is described by what they say. -/
theorem describe_of_forall {m : Model} (hfields : ∀ f ∈ m.fields, c.describeField f = .ok (c.descriptorOf f)) :
    c.describe m = .ok (m.fields.map c.descriptorOf) :=
  mapM_of_forall hfields

/-- The names of a field, the type, and whether it can be absent are its own. -/
theorem names_of_describeField {f : Field} {d : Descriptor} (hd : c.describeField f = .ok d) :
    d.name = f.name ∧ d.wireName = f.wireName ∧ d.type = f.type ∧ d.optional = f.type.unwrap.2 ∧
      d.hasDefault = f.default.isSome := by
  rw [describeField] at hd
  dsimp only at hd
  split at hd
  · cases hd
    exact ⟨rfl, rfl, rfl, rfl, rfl⟩
  · cases hd

/-- The rules of a field are those of its annotation. -/
theorem rules_of_describeField {f : Field} {d : Descriptor} (hd : c.describeField f = .ok d) :
    d.rules = (f.annotations.rules.map Rule.parse).getD [] := by
  rw [describeField] at hd
  dsimp only at hd
  split at hd
  · cases hd
    rfl
  · cases hd

/-- The kinds of a field come from the declared type. -/
theorem kinds_of_field {f : Field} {d : Descriptor} (hd : c.describeField f = .ok d) :
    d.kind = c.kindOf f.type.unwrap.1 ∧ d.elementKind = f.type.unwrap.1.element?.map c.kindOf := by
  have hkinds := kinds_of_describeField hd
  rwa [(names_of_describeField hd).2.2.1] at hkinds

/-- A missing key of a required field stands for the zero value of the kind. -/
theorem isFilled_of_required {f : Field} {d : Descriptor} (hd : c.describeField f = .ok d)
    (hrequired : f.type.unwrap.2 = false) (hdefault : f.default = none) (hkind : d.kind ≠ .any) :
    d.isFilled = true ∧ d.zero = d.kind.zero?.getD .null := by
  obtain ⟨-, -, -, hoptional, hnone⟩ := names_of_describeField hd
  rw [hrequired] at hoptional
  rw [hdefault] at hnone
  simp [Descriptor.isFilled, Descriptor.zero, hoptional, hnone, hkind]

/-- A missing key of a field that may be absent stands for nothing. -/
theorem isFilled_of_optional {f : Field} {d : Descriptor} (hd : c.describeField f = .ok d)
    (hoptional : f.type.unwrap.2 = true) (hdefault : f.default = none) :
    d.isFilled = true ∧ d.zero = .null := by
  obtain ⟨-, -, -, hmay, hnone⟩ := names_of_describeField hd
  rw [hoptional] at hmay
  rw [hdefault] at hnone
  simp [Descriptor.isFilled, Descriptor.zero, hmay, hnone]

/-- A missing key of a field with a default is not filled. -/
theorem isFilled_of_default {f : Field} {d : Descriptor} {value : Default} (hd : c.describeField f = .ok d)
    (hdefault : f.default = some value) : d.isFilled = false := by
  have hhas := (names_of_describeField hd).2.2.2.2
  simp [Descriptor.isFilled, hhas, hdefault]

end Catalogue
end Intake
