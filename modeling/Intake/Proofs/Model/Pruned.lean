import Intake.Proofs.Model.Description
import Intake.Proofs.Rule
import Intake.Schema.Mock
import Intake.Validation.Emptiness

/-!
Models without the rules that do not apply. A rule is dropped from the annotation of its field, and the others stay
as they are, in their order. Nothing that builds, writes or makes up values looks at rules, so all of it is the same
for a model and for what is left of it; so is whether a value is empty.
-/

namespace Intake

/-- What is left of a field's description when the rules that do not apply to it are dropped, if they are to be. -/
def Descriptor.pruned (drop : Bool) (d : Descriptor) : Descriptor :=
  { d with rules := if drop then d.applicable else d.rules }

/-- The rules of a field as they are written, and without those that do not apply if these are to be dropped. -/
def Catalogue.keptRules (c : Catalogue) (drop : Bool) (f : Field) : Option String :=
  if drop then f.annotations.rules.map fun _ => Rule.write (c.descriptorOf f).applicable else f.annotations.rules

/-- The field with the rules that are kept. -/
def Field.pruned (c : Catalogue) (drop : Bool) (f : Field) : Field :=
  { f with annotations := { f.annotations with rules := c.keptRules drop f } }

/-- The model with the rules of its fields that are kept. -/
def Model.pruned (c : Catalogue) (drop : Bool) (m : Model) : Model :=
  { m with fields := m.fields.map (Field.pruned c drop) }

/-- The catalogue in which rules that do not apply are dropped from the fields of the chosen models. -/
def Catalogue.pruned (c : Catalogue) (chosen : String → Bool) : Catalogue :=
  { c with models := c.models.map fun m => m.pruned c (chosen m.name) }

namespace Descriptor

variable (drop : Bool) (d : Descriptor)

theorem rules_pruned : (d.pruned drop).rules = d.rules.filter fun r => !drop || (d.mismatch? r).isNone := by
  cases drop with
  | false => exact (List.filter_true d.rules).symm
  | true => rfl

/-- The rules that apply are kept. -/
theorem applicable_pruned : (d.pruned drop).applicable = d.applicable := by
  cases drop with
  | false => rfl
  | true =>
      change d.applicable.filter (fun r => (d.mismatch? r).isNone) = d.applicable
      rw [applicable, List.filter_filter]
      simp only [Bool.and_self]

/-- A rule that applies wherever it stands is there if it was there. -/
theorem has_pruned {name : String} (happlies : ∀ r : Rule, r.name = name → d.mismatch? r = none) :
    Rule.has (d.pruned drop).rules name = Rule.has d.rules name := by
  rw [rules_pruned, Rule.has, Rule.has, List.any_filter]
  congr 1
  funext r
  cases hname : r.name == name with
  | false => rw [Bool.and_false]
  | true => rw [happlies r (eq_of_beq hname), Option.isNone_none, Bool.or_true, Bool.and_self]

end Descriptor

/-! ### What is left is described -/

theorem Descriptor.isLegible_of_mem_applicable {c : Catalogue} {f : Field} {d : Descriptor}
    (hd : c.describeField f = .ok d) {r : Rule} (hr : r ∈ d.applicable) : r.IsLegible := by
  have hrule : r ∈ (f.annotations.rules.map Rule.parse).getD [] := by
    rw [← Catalogue.rules_of_describeField hd]
    exact (List.mem_filter.mp hr).1
  cases hwritten : f.annotations.rules with
  | none => simp [hwritten] at hrule
  | some written => exact Rule.isLegible_of_mem_parse (by simpa [hwritten] using hrule)

namespace Catalogue

variable (c : Catalogue) (chosen : String → Bool)

theorem kindOf_pruned (t : Ty) : (c.pruned chosen).kindOf t = c.kindOf t := rfl

/-- The rules that are kept are read as they were. -/
theorem rules_of_keptRules {drop : Bool} {f : Field} {d : Descriptor} (hd : c.describeField f = .ok d) :
    ((c.keptRules drop f).map Rule.parse).getD [] = (d.pruned drop).rules := by
  have hrules := rules_of_describeField hd
  cases drop with
  | false => exact hrules.symm
  | true =>
      have hread : Rule.parse (Rule.write d.applicable) = d.applicable :=
        Rule.parse_write fun r hr => Descriptor.isLegible_of_mem_applicable hd hr
      cases hwritten : f.annotations.rules with
      | none =>
          rw [hwritten] at hrules
          simp [keptRules, hwritten, Descriptor.pruned, Descriptor.applicable, hrules]
      | some written =>
          simp [keptRules, hwritten, descriptorOf_eq hd, hread, Descriptor.pruned]

theorem describeField_pruned (drop : Bool) (f : Field) :
    (c.pruned chosen).describeField (f.pruned c drop) = (c.describeField f).map (Descriptor.pruned drop) := by
  have hshape : (c.pruned chosen).describeField (f.pruned c drop) = (c.describeField f).map fun d =>
      { d with rules := ((c.keptRules drop f).map Rule.parse).getD [] } := by
    rw [describeField, describeField]
    dsimp only [Field.pruned]
    cases Source.ofLabel? (f.annotations.source.getD Source.auto.label) <;> rfl
  rw [hshape]
  cases hd : c.describeField f with
  | error e => rfl
  | ok d =>
      simp only [Except.map, rules_of_keptRules c hd]
      rfl

theorem model?_pruned (name : String) :
    (c.pruned chosen).model? name = (c.model? name).map (Model.pruned c (chosen name)) := by
  have hfound : (c.pruned chosen).model? name = (c.model? name).map fun m => m.pruned c (chosen m.name) :=
    List.find?_map ..
  rw [hfound]
  cases hm : c.model? name with
  | none => rfl
  | some m => rw [Option.map_some, Option.map_some, name_of_model? hm]

theorem describe_pruned (drop : Bool) (m : Model) :
    (c.pruned chosen).describe (m.pruned c drop) = (c.describe m).map (List.map (Descriptor.pruned drop)) :=
  mapM_map_of_forall fun f _ => describeField_pruned c chosen drop f

theorem isA_pruned (name other : String) : (c.pruned chosen).isA name other = c.isA name other := by
  rw [isA, isA, model?_pruned]
  cases c.model? name <;> rfl

end Catalogue

theorem Action.describe_pruned (c : Catalogue) (chosen : String → Bool) (drop : Bool) (m : Model) :
    Action.describe (c.pruned chosen) (m.pruned c drop) =
      (Action.describe c m).map (List.map (Descriptor.pruned drop)) := by
  rw [Action.describe, Action.describe, Catalogue.describe_pruned]
  cases c.describe m <;> rfl

variable (c : Catalogue) (chosen : String → Bool)

namespace Shape

mutual

theorem label_pruned (t : Ty) : label (c.pruned chosen) t = label c t := by
  cases t with
  | record name =>
      rw [label, label, Catalogue.model?_pruned]
      cases c.model? name <;> rfl
  | list item => simp only [label, label_pruned item]
  | set frozen item => cases frozen <;> simp only [label, label_pruned item]
  | tuple items => simp only [label, labels_pruned items]
  | sequence item => simp only [label, label_pruned item]
  | dict key value => simp only [label, label_pruned key, label_pruned value]
  | union choices => simp only [label, labels_pruned choices]
  | annotated inner => simp only [label, label_pruned inner]
  | bareSet frozen => cases frozen <;> rfl
  | _ => rfl

theorem labels_pruned (ts : List Ty) : labels (c.pruned chosen) ts = labels c ts := by
  cases ts with
  | nil => rfl
  | cons t rest => simp only [labels, label_pruned t, labels_pruned rest]

end

variable (record : String → Value → Fitted)

mutual

theorem fit_pruned (t : Ty) : fit (c.pruned chosen) record t = fit c record t := by
  funext v
  cases t with
  | annotated inner => simp only [fit, fit_pruned inner]
  | list item | set frozen item | sequence item => simp only [fit, fit_pruned item]
  | tuple items => simp only [fit, fitEach_pruned items]
  | dict key value => cases v <;> simp only [fit, fit_pruned key, fit_pruned value]
  | union choices => simp only [fit, fitOnly_pruned choices, choose_pruned choices]
  | _ => rfl

theorem fitOnly_pruned (choices : List Ty) (v : Value) :
    fitOnly (c.pruned chosen) record choices v = fitOnly c record choices v := by
  cases choices with
  | nil => rfl
  | cons t rest => simp only [fitOnly, fit_pruned t, fitOnly_pruned rest]

theorem choose_pruned (choices : List Ty) (v : Value) (s : Choosing) :
    choose (c.pruned chosen) record choices v s = choose c record choices v s := by
  cases choices with
  | nil => rfl
  | cons t rest => simp only [choose, fit_pruned t, choose_pruned rest, label_pruned]

theorem fitEach_pruned (types : List Ty) (most found index : Nat) (vs : List Value) :
    fitEach (c.pruned chosen) record most found index types vs = fitEach c record most found index types vs := by
  cases types with
  | nil => cases vs <;> rfl
  | cons t rest => cases vs <;> simp only [fitEach, fit_pruned t, fitEach_pruned rest]

end

theorem fitField_pruned (drop : Bool) (f : Field) (v : Value) :
    fitField (c.pruned chosen) record (f.pruned c drop) v = fitField c record f v := by
  simp only [fitField, fit_pruned]
  rfl

/-- A field adds to a record what it added. -/
theorem add_pruned (drop : Bool) (strictness : Strictness) (entries : List (Value × Value)) (s : Filling) (f : Field) :
    Filling.add (c.pruned chosen) record strictness entries s (f.pruned c drop) =
      Filling.add c record strictness entries s f := by
  simp only [Filling.add, fitField_pruned]
  rfl

theorem fillRecord_pruned (drop : Bool) (m : Model) (entries : List (Value × Value)) :
    fillRecord (c.pruned chosen) record (m.pruned c drop) entries = fillRecord c record m entries := by
  have hfold : (m.pruned c drop).fields.foldl
      (Filling.add (c.pruned chosen) record (m.pruned c drop).strictness entries) ⟨[], [], []⟩ =
        m.fields.foldl (Filling.add c record m.strictness entries) ⟨[], [], []⟩ := by
    simp only [Model.pruned, List.foldl_map, add_pruned]
  simp only [fillRecord, hfold]
  rfl

theorem withZeroValues_pruned (drop : Bool) (fields : List Descriptor) (entries : List (Value × Value)) :
    withZeroValues (fields.map (Descriptor.pruned drop)) entries = withZeroValues fields entries := by
  simp only [withZeroValues, List.foldl_map]
  rfl

theorem completed_pruned (drop : Bool) (m : Model) (entries : List (Value × Value)) :
    completed (c.pruned chosen) (m.pruned c drop) entries = completed c m entries := by
  simp only [completed, Catalogue.describe_pruned]
  cases c.describe m with
  | error e => rfl
  | ok fields => simp only [Except.map, withZeroValues_pruned, Model.pruned]

theorem fitRecord_pruned (fuel : Nat) : fitRecord (c.pruned chosen) fuel = fitRecord c fuel := by
  induction fuel with
  | zero => rfl
  | succ fuel ih =>
      funext name v
      unfold fitRecord
      rw [Catalogue.model?_pruned]
      cases hm : c.model? name with
      | none => cases v <;> simp only [Option.map_none, Catalogue.isA_pruned]
      | some m =>
          cases v <;> simp only [Option.map_some, Catalogue.isA_pruned, completed_pruned, fillRecord_pruned, ih]

theorem build_pruned (model : String) (v : Value) : build (c.pruned chosen) model v = build c model v := by
  rw [build, build, fitRecord_pruned]

end Shape

namespace Mock

section

variable (record : String → Except Fault Value) (stack : List String)

mutual

theorem value_pruned (t : Ty) : value (c.pruned chosen) record stack t = value c record stack t := by
  cases t with
  | annotated inner => simp only [value, value_pruned inner]
  | union choices => simp only [value, valueOfOnly_pruned choices]
  | list item | set frozen item | sequence item | dict key item => simp only [value, value_pruned item]
  | tuple items => simp only [value, valuesOfFirst_pruned items]
  | _ => rfl

theorem valueOfOnly_pruned (choices : List Ty) :
    valueOfOnly (c.pruned chosen) record stack choices = valueOfOnly c record stack choices := by
  cases choices with
  | nil => rfl
  | cons t rest => simp only [valueOfOnly, value_pruned t, valueOfOnly_pruned rest]

theorem valuesOfFirst_pruned (items : List Ty) :
    valuesOfFirst (c.pruned chosen) record stack items = valuesOfFirst c record stack items := by
  cases items with
  | nil => rfl
  | cons t rest => simp only [valuesOfFirst, value_pruned t]

end

end

theorem document_pruned (fuel : Nat) (stack : List String) (name : String) :
    document (c.pruned chosen) fuel stack name = document c fuel stack name := by
  induction fuel generalizing stack name with
  | zero => rfl
  | succ fuel ih =>
      have hrecord : document (c.pruned chosen) fuel = document c fuel := funext fun stack => funext (ih stack)
      rw [document, document, Catalogue.model?_pruned]
      cases c.model? name with
      | none => rfl
      | some m =>
          simp only [Option.map_some, Action.describe_pruned, hrecord, fieldValue, value_pruned]
          cases Action.describe c m with
          | error e => rfl
          | ok fields =>
              simp only [Except.map, ok_bind, List.mapM_map]
              rfl

theorem ofType_pruned (t : Ty) : ofType (c.pruned chosen) t = ofType c t := by
  have hrecord : document (c.pruned chosen) = document c :=
    funext fun fuel => funext fun stack => funext (document_pruned c chosen fuel stack)
  rw [ofType, ofType, value_pruned, hrecord]
  simp only [Catalogue.pruned, List.length_map]

theorem written?_pruned (model : String) (write : Value → Except Fault String) :
    written? (c.pruned chosen) model write = written? c model write := by
  simp only [written?, record?, givenEntries, ofType_pruned, Shape.build_pruned]

end Mock

namespace Markup

theorem writeRecord_pruned (model : String) (attributes : List (String × Writing)) (name : String) :
    writeRecord (c.pruned chosen) model attributes name = writeRecord c model attributes name := by
  rw [writeRecord, writeRecord, Catalogue.model?_pruned]
  cases c.model? model with
  | none => rfl
  | some m =>
      simp only [Option.map_some, Action.describe_pruned]
      cases Action.describe c m with
      | error e => rfl
      | ok fields =>
          simp only [Except.map, ok_bind, writeFields, List.foldlM_map]
          rfl

mutual

theorem writing_pruned (v : Value) : writing (c.pruned chosen) v = writing c v := by
  cases v with
  | record model attributes =>
      simp only [writing, writingEach_pruned attributes]
      congr 1
      funext name
      exact writeRecord_pruned c chosen model _ name
  | list xs | tuple xs | set frozen xs => simp only [writing, funext (writeItems_pruned xs)]
  | dict entries => simp only [writing, writeEntries_pruned entries]
  | _ => rfl

theorem writingEach_pruned (attributes : List (String × Value)) :
    writingEach (c.pruned chosen) attributes = writingEach c attributes := by
  cases attributes with
  | nil => rfl
  | cons a rest =>
      obtain ⟨name, v⟩ := a
      simp only [writingEach, writing_pruned v, writingEach_pruned rest]

theorem writeItems_pruned (xs : List Value) (name : String) :
    writeItems (c.pruned chosen) xs name = writeItems c xs name := by
  cases xs with
  | nil => rfl
  | cons v rest => simp only [writeItems, writing_pruned v, writeItems_pruned rest]

theorem writeEntries_pruned (entries : List (Value × Value)) :
    writeEntries (c.pruned chosen) entries = writeEntries c entries := by
  cases entries with
  | nil => rfl
  | cons e rest =>
      obtain ⟨k, v⟩ := e
      simp only [writeEntries, writing_pruned v, writeEntries_pruned rest]

end

theorem encode_pruned (v : Value) (root : Option String) (indent : Bool) :
    encode (c.pruned chosen) v root indent = encode c v root indent := by
  rw [encode, encode, ofRecord, ofRecord, writing_pruned]

theorem encodeAll_pruned (vs : List Value) (root : String) (indent : Bool) :
    encodeAll (c.pruned chosen) vs root indent = encodeAll c vs root indent := by
  simp only [encodeAll, ofRecord, writing_pruned]

end Markup

namespace Validation

theorem allEmpty_pruned (drop : Bool) (members : List Member) (fields : List Descriptor) :
    allEmpty members (fields.map (Descriptor.pruned drop)) = allEmpty members fields := by
  induction fields with
  | nil => rfl
  | cons d rest ih =>
      rw [List.map_cons, allEmpty, allEmpty, ih]
      rfl

mutual

theorem isZero_pruned (v : Value) : isZero (c.pruned chosen) v = isZero c v := by
  funext kind
  cases v with
  | record name attributes =>
      rw [isZero, isZero, Catalogue.model?_pruned, membersOf_pruned attributes]
      cases c.model? name with
      | none => rfl
      | some m =>
          simp only [Option.map_some, Action.describe_pruned]
          cases Action.describe c m with
          | error e => rfl
          | ok fields => simp only [Except.map, ok_bind, allEmpty_pruned]
  | _ => rfl

theorem membersOf_pruned (attributes : List (String × Value)) :
    membersOf (c.pruned chosen) attributes = membersOf c attributes := by
  cases attributes with
  | nil => rfl
  | cons a rest =>
      obtain ⟨name, v⟩ := a
      simp only [membersOf, isZero_pruned v, membersOf_pruned rest]

end

end Validation
end Intake
