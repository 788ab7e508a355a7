import Intake.Proofs.Binding.Typing

/-!
Documents in which nothing is found wrong. Nothing is found wrong inside them either: not in the fields of their
records, nor in the items of rows and the values of maps that are looked into; and of every record that was looked
at the fields are described.
-/

namespace Intake.Binding

variable {c : Catalogue} {d : Descriptor} {kind : Kind} {m : Model} {name : String} {xs : List Value}
  {es : List (Value × Value)} {path : String}

/-- A value in which nothing is found wrong, wherever it stands. -/
def Passes (c : Catalogue) (d : Descriptor) (kind : Kind) (v : Value) : Prop :=
  ∃ path, check c v d kind path = .ok none

/-- A record in which nothing is found wrong: its fields are described, and what stands for them passes. -/
structure RecordPasses (c : Catalogue) (m : Model) (es : List (Value × Value)) : Prop where
  described : ∀ f ∈ m.fields, c.describeField f = .ok (c.descriptorOf f)
  field : ∀ f ∈ m.fields, ∀ v, Value.lookupText (keyOf (c.descriptorOf f) es) es = some v →
    Passes c (c.descriptorOf f) (c.descriptorOf f).kind v

/-- A strict model looks for a field under the key that stands for it. -/
theorem findField?_keyOf {f : Field} (hd : c.describeField f = .ok (c.descriptorOf f)) (es : List (Value × Value)) :
    Shape.findField? .strict f es = (Value.lookupText (keyOf (c.descriptorOf f) es) es).map
      (keyOf (c.descriptorOf f) es, ·) := by
  obtain ⟨hname, hwire, -⟩ := Catalogue.names_of_describeField hd
  rw [Shape.findField?_strict, keyOf, hname, hwire]
  cases hfound : Value.lookupText f.wireName es with
  | some v => simp [hfound]
  | none => simp

theorem RecordPasses.describe (h : RecordPasses c m es) : c.describe m = .ok (m.fields.map c.descriptorOf) :=
  Catalogue.describe_of_forall h.described

theorem orElse_eq_none {first second : Finding} (h : orElse first second = .ok none) :
    first = .ok none ∧ second = .ok none := by
  cases first with
  | error fault => cases h
  | ok found =>
      cases found with
      | none => exact ⟨rfl, h⟩
      | some reason => cases h

/-- Where nothing is found wrong in a value that is looked at, nothing is inside. -/
theorem inside_of_checkValue {v : Value} {inside : Check} (hthere : v.isNull = false) (hkind : kind ≠ .any)
    (h : checkValue v inside d kind path = .ok none) : inside d kind path = .ok none := by
  rw [checkValue, hthere, beq_false_of_ne hkind] at h
  simp only [Bool.or_self, Bool.false_eq_true, ↓reduceIte] at h
  split at h
  · cases h
  · exact h

theorem forall_of_checkItems {index : Nat} (h : checkItems c d kind path index xs = .ok none) :
    ∀ x ∈ xs, Passes c d kind x := by
  induction xs generalizing index with
  | nil => exact nofun
  | cons x rest ih =>
      rw [checkItems] at h
      obtain ⟨hfirst, hrest⟩ := orElse_eq_none h
      exact List.forall_mem_cons.mpr ⟨⟨_, hfirst⟩, ih hrest⟩

theorem forall_of_checkMembers (h : checkMembers c d kind path es = .ok none) : ∀ e ∈ es, Passes c d kind e.2 := by
  induction es with
  | nil => exact nofun
  | cons e rest ih =>
      rw [checkMembers] at h
      obtain ⟨hfirst, hrest⟩ := orElse_eq_none h
      exact List.forall_mem_cons.mpr ⟨⟨_, hfirst⟩, ih hrest⟩

theorem forall_of_checkFields {ds : List Descriptor} (h : checkFields es (checkEntries c es) path ds = .ok none) :
    ∀ d ∈ ds, ∀ v, Value.lookupText (keyOf d es) es = some v → Passes c d d.kind v := by
  induction ds with
  | nil => simp
  | cons d rest ih =>
      rw [checkFields, lookupCheck_checkEntries] at h
      cases hfound : Value.lookupText (keyOf d es) es with
      | none =>
          rw [hfound] at h
          refine List.forall_mem_cons.mpr ⟨fun v hv => ?_, ih h⟩
          rw [hfound] at hv
          cases hv
      | some w =>
          rw [hfound] at h
          obtain ⟨hfirst, hrest⟩ := orElse_eq_none h
          refine List.forall_mem_cons.mpr ⟨fun v hv => ?_, ih hrest⟩
          obtain rfl := Option.some.inj (hfound.symm.trans hv)
          exact ⟨_, hfirst⟩

theorem recordPasses_of_checkRecord (hm : c.model? name = some m)
    (h : checkRecord c es (checkEntries c es) name path = .ok none) : RecordPasses c m es := by
  rw [checkRecord, hm] at h
  obtain ⟨fields, hdescribe, hfields⟩ := exists_of_bind_eq_ok h
  obtain ⟨rfl, hdescribed⟩ := Catalogue.describe_eq_map (Action.of_describe_eq_ok hdescribe)
  exact ⟨hdescribed, fun f hf => forall_of_checkFields hfields _ (List.mem_map_of_mem hf)⟩

/-- In a document in which nothing is found wrong nothing is wrong with the record that it is. -/
theorem recordPasses_of_mismatch (hm : c.model? name = some m)
    (h : jsonTypeMismatch c name es path = .ok none) : RecordPasses c m es :=
  recordPasses_of_checkRecord hm h

/-- In a record that passes nothing is found wrong. -/
theorem Passes.record (hmodel : d.model = some name) (hm : c.model? name = some m)
    (h : Passes c d .record (.dict es)) : RecordPasses c m es := by
  obtain ⟨path, h⟩ := h
  rw [check] at h
  have hinside := inside_of_checkValue rfl (by decide) h
  simp only [hmodel] at hinside
  exact recordPasses_of_checkRecord hm hinside

/-- The items of a row that passes do. -/
theorem Passes.items {element : Kind} (hkind : d.kind = .array) (helement : d.elementKind = some element)
    (h : Passes c d .array (.list xs)) : ∀ x ∈ xs, Passes c d element x := by
  obtain ⟨path, h⟩ := h
  rw [check] at h
  have hinside := inside_of_checkValue rfl (by decide) h
  simp only [helement, hkind, beq_self_eq_true, ↓reduceIte] at hinside
  exact forall_of_checkItems hinside

/-- The values of a map that passes do. -/
theorem Passes.members {element : Kind} (hkind : d.kind = .map) (helement : d.elementKind = some element)
    (h : Passes c d .map (.dict es)) : ∀ e ∈ es, Passes c d element e.2 := by
  obtain ⟨path, h⟩ := h
  rw [check] at h
  have hinside := inside_of_checkValue rfl (by decide) h
  simp only [helement, hkind, beq_self_eq_true, ↓reduceIte] at hinside
  exact forall_of_checkMembers hinside

end Intake.Binding
