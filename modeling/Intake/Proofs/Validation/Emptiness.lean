import Intake.Proofs.Binding.Reading
import Intake.Proofs.Validation.Return

/-!
Emptiness as equality. A record counts as nothing field by field. Where every field takes values of kinds with one
zero value, a record of the very models that its fields name is equal to an empty one exactly if it is empty, too.
-/

namespace Intake

/-- The kinds of which all zero values are equal. Zero moments are not: one may have an offset and another none. -/
def Kind.hasOneZero : Kind → Bool
  | .string | .integer | .boolean | .uuid | .array | .map | .record => true
  | .float | .moment | .any => false

/-- The sorts of rows that differ from each other even if they are empty. -/
inductive RowSort where
  | list
  | tuple
  | set
deriving DecidableEq, Repr

def Value.rowSort? : Value → Option RowSort
  | .list _ => some .list
  | .tuple _ => some .tuple
  | .set _ _ => some .set
  | _ => none

def Ty.rowSort? : Ty → Option RowSort
  | .list _ | .bareList => some .list
  | .tuple _ | .sequence _ | .bareTuple => some .tuple
  | .set _ _ | .bareSet _ => some .set
  | _ => none

/-- A value of the type of a field: nothing, if the field may be absent, or else a value of the kind of the type,
which for a row is a row of the sort of the type. -/
def Field.Fits (c : Catalogue) (f : Field) (v : Value) : Prop :=
  (v = .null ∧ f.type.unwrap.2 = true) ∨
    (Validation.IsOfKind (c.kindOf f.type.unwrap.1) v ∧
      (c.kindOf f.type.unwrap.1 = .array → v.rowSort? = f.type.unwrap.1.rowSort?))

/-- A record of exactly the model of a name. All its attributes are set, to values of the types of the fields, and the
records in fields that may not be absent are of exactly the models that the fields name. -/
inductive IsExact (c : Catalogue) : String → Value → Prop where
  | record {name : String} {m : Model} {value : Field → Value} (hm : c.model? name = some m)
      (hfits : ∀ f ∈ m.fields, f.Fits c (value f))
      (hinner : ∀ f ∈ m.fields, ∀ inner, f.type.unwrap = (.record inner, false) → IsExact c inner (value f)) :
      IsExact c name (.record m.name (m.fields.map fun f => (f.name, value f)))

/-- A model that a document without any key is filled for, unambiguously: no field has a default, the kind of each
has one zero value, and the zero value of a field that may not be absent stands under no key of one that may. -/
structure Model.IsFillable (c : Catalogue) (m : Model) : Prop where
  strict : m.strictness = .strict
  names : (m.fields.map Field.name).Nodup
  bare : ∀ f ∈ m.fields, f.default = none
  kinds : ∀ f ∈ m.fields, (c.kindOf f.type.unwrap.1).hasOneZero = true
  apart : ∀ f ∈ m.fields, ∀ g ∈ m.fields, f.type.unwrap.2 = true → g.type.unwrap.2 = false →
    g.wireName ≠ f.wireName ∧ g.wireName ≠ f.name

/-- A model that can be filled, and so can those of the records in its records. -/
def IsFillableThrough (c : Catalogue) (root : String) : Prop :=
  ∀ name m, Relation.ReflTransGen (Binding.Encloses c) root name → c.model? name = some m → m.IsFillable c

theorem IsFillableThrough.inside {c : Catalogue} {name inner : String} {m : Model} {f : Field}
    (hc : IsFillableThrough c name) (hm : c.model? name = some m) (hf : f ∈ m.fields)
    (ht : f.type.unwrap.1 = .record inner) : IsFillableThrough c inner := fun other _ hreach =>
  hc other _ (.head ⟨m, f, hm, hf, ht⟩ hreach)

namespace Value

/-- Only nothing is equal to nothing. -/
theorem same_null (v : Value) : v.same .null = v.isNull := by
  have hscalar : ∀ v : Value, v.isNull = false → sameScalar v .null = false := by
    intro v hv
    unfold sameScalar
    have hsize : (Value.null).size? = none := by simp [size?]
    rw [hsize]
    cases v.size? with
    | some n => rfl
    | none =>
        cases v.text? with
        | some s => rfl
        | none =>
            cases v with
            | null => cases hv
            | _ => rfl
  cases v with
  | null => simp [same, sameScalar, size?, text?, isNull]
  | list | tuple | set | dict | record => simp [same, isNull]
  | _ => exact (by simp only [same]; exact hscalar _ rfl)

/-- A row is equal to one of its sort without items exactly if it has none. -/
theorem same_of_no_items {v w : Value} {xs : List Value} (hv : v.items? = some xs) (hw : w.items? = some [])
    (hsort : v.rowSort? = w.rowSort?) : v.same w = (xs.length == 0) := by
  cases v with
  | list ys | tuple ys | set frozen ys =>
      obtain rfl := Option.some.inj hv
      cases w with
      | list zs | tuple zs | set _ zs =>
          first
            | (cases hsort; done)
            | (obtain rfl := Option.some.inj hw; cases ys <;> simp [same, sameList, eachIn])
      | _ => cases hw
  | _ => cases hv

/-- Records of one model whose fields have different names are equal if all their attributes are. -/
theorem same_record {fields : List Field} {value other : Field → Value} (model : String)
    (hnames : (fields.map Field.name).Nodup) :
    (Value.record model (fields.map fun f => (f.name, value f))).same
      (.record model (fields.map fun f => (f.name, other f))) =
      fields.all fun f => (value f).same (other f) := by
  have hany : ∀ f ∈ fields, ((fields.map fun f => (f.name, other f)).any fun e =>
      f.name == e.1 && (value f).same e.2) = (value f).same (other f) := by
    intro f hf
    rw [Bool.eq_iff_iff, List.any_eq_true]
    constructor
    · rintro ⟨e, he, hsame⟩
      obtain ⟨g, hg, rfl⟩ := List.mem_map.mp he
      rw [Bool.and_eq_true, beq_iff_eq] at hsame
      rw [List.inj_on_of_nodup_map hnames hf hg hsame.1]
      rw [List.inj_on_of_nodup_map hnames hf hg hsame.1] at hsame
      exact hsame.2
    · intro hsame
      exact ⟨(f.name, other f), List.mem_map.mpr ⟨f, hf, rfl⟩, by simp [hsame]⟩
  have heach : ∀ fs : List Field, (∀ f ∈ fs, f ∈ fields) →
      eachAttributeIn (fs.map fun f => (f.name, value f)) (fields.map fun f => (f.name, other f)) =
        fs.all fun f => (value f).same (other f) := by
    intro fs
    induction fs with
    | nil => exact fun _ => by simp [eachAttributeIn]
    | cons f rest ih =>
        intro hfs
        rw [List.map_cons, eachAttributeIn, hany f (hfs f List.mem_cons_self),
          ih fun g hg => hfs g (List.mem_cons_of_mem f hg), List.all_cons]
  rw [same, heach fields fun f hf => hf]
  simp

end Value

namespace Validation

variable {c : Catalogue}

/-- Whether the value of a field counts as nothing in its record. -/
def isZeroMember (c : Catalogue) (d : Descriptor) (v : Value) : Except Fault Bool :=
  if d.optional && !v.isNull then .ok false else isZero c v d.kind

/-- Where it can be told of each field whether it is empty, a record is if all are. -/
theorem allEmpty_eq {attributes : List (String × Value)} {fields : List Field} {empty : Field → Bool}
    (hall : ∀ f ∈ fields, ∃ v, attributes.lookup (c.descriptorOf f).name = some v ∧
      isZeroMember c (c.descriptorOf f) v = .ok (empty f)) :
    allEmpty (membersOf c attributes) (fields.map c.descriptorOf) = .ok (fields.all empty) := by
  induction fields with
  | nil => rfl
  | cons f rest ih =>
      obtain ⟨v, hv, hempty⟩ := hall f List.mem_cons_self
      have hrest := ih fun g hg => hall g (List.mem_cons_of_mem f hg)
      rw [List.map_cons, allEmpty, find?_membersOf, hv, List.all_cons]
      simp only [Option.map_some]
      unfold isZeroMember at hempty
      split at hempty
      · rename_i hthere
        rw [if_pos hthere, ← Except.ok.inj hempty]
        rfl
      · rename_i hthere
        rw [if_neg hthere, hempty, ok_bind, hrest]
        cases empty f <;> rfl

/-- In a record that is empty every field is. -/
theorem isZeroMember_of_allEmpty {attributes : List (String × Value)} {ds : List Descriptor}
    (hempty : allEmpty (membersOf c attributes) ds = .ok true) :
    ∀ d ∈ ds, ∀ v, attributes.lookup d.name = some v → isZeroMember c d v = .ok true := by
  induction ds with
  | nil => exact fun d hd => absurd hd List.not_mem_nil
  | cons first rest ih =>
      rw [allEmpty, find?_membersOf] at hempty
      cases hfirst : attributes.lookup first.name with
      | none =>
          rw [hfirst] at hempty
          intro d hd v hv
          rcases List.mem_cons.mp hd with rfl | hlater
          · rw [hfirst] at hv
            cases hv
          · exact ih hempty d hlater v hv
      | some w =>
          rw [hfirst] at hempty
          simp only [Option.map_some] at hempty
          by_cases hthere : (first.optional && !w.isNull) = true
          · rw [if_pos hthere] at hempty
            cases hempty
          rw [if_neg hthere] at hempty
          obtain ⟨zero, hzero, hempty⟩ := exists_of_bind_eq_ok hempty
          cases zero with
          | false => cases hempty
          | true =>
              intro d hd v hv
              rcases List.mem_cons.mp hd with rfl | hlater
              · obtain rfl : w = v := Option.some.inj (hfirst.symm.trans hv)
                rw [isZeroMember, if_neg hthere]
                exact hzero
              · exact ih hempty d hlater v hv

/-- A value that is no record is equal to a zero value of its kind exactly if it is one. -/
theorem isZeroScalar_eq_same {kind : Kind} {v w : Value} (hkind : kind.hasOneZero = true) (hrecord : kind ≠ .record)
    (hv : IsOfKind kind v) (hw : IsOfKind kind w) (hrows : kind = .array → v.rowSort? = w.rowSort?)
    (hzero : isZeroScalar kind w = .ok true) : isZeroScalar kind v = .ok (v.same w) := by
  have hlength : ∀ s : String, (s.length == 0) = (s == "") := by
    intro s
    rw [Bool.eq_iff_iff]
    simp
  cases hw with
  | text t | textMember _ _ t =>
      obtain rfl : t = "" := by simpa [isZeroScalar, Value.isNull, length, Value.text?, Except.map] using hzero
      cases hv <;> simp [isZeroScalar, Value.isNull, length, Value.text?, Except.map, Value.same, Value.sameScalar,
        Value.size?, hlength]
  | int j | intMember _ _ j =>
      obtain rfl : j = 0 := by
        simpa [isZeroScalar, Value.isNull, Value.same, Value.sameScalar, Value.size?, Value.Size.same] using hzero
      cases hv <;> simp [isZeroScalar, Value.isNull, Value.same, Value.sameScalar, Value.size?, Value.Size.same]
  | bool b =>
      obtain rfl : b = false := by simpa [isZeroScalar, Value.isNull] using hzero
      cases hv with
      | bool a =>
          cases a <;>
            simp [isZeroScalar, Value.isNull, Value.same, Value.sameScalar, Value.size?, Value.Size.same]
  | uuid u =>
      obtain rfl : u = Uuid.nil := by
        simpa [isZeroScalar, Value.isNull, Value.same, Value.sameScalar, Value.size?, Value.text?] using hzero
      cases hv
      simp [isZeroScalar, Value.isNull]
  | @row _ ys hys =>
      cases hv with
      | @row _ xs hxs =>
          have hsort := hrows rfl
          have hnone : ys = [] := by
            have hnull : w.isNull = false := by cases w <;> first | rfl | cases hys
            rw [isZeroScalar, hnull] at hzero
            simpa [length_of_items? hys, Except.map] using hzero
          subst hnone
          have hnull : v.isNull = false := by cases v <;> first | rfl | cases hxs
          rw [isZeroScalar, hnull]
          simp only [length_of_items? hxs, Except.map, Value.same_of_no_items hxs hys hsort]
          rfl
  | map entries =>
      obtain rfl : entries = [] := by simpa [isZeroScalar, Value.isNull, length, Except.map] using hzero
      cases hv with
      | map es => cases es <;> simp [isZeroScalar, Value.isNull, length, Except.map, Value.same, Value.eachEntryIn]
  | record => exact absurd rfl hrecord
  | float | moment | any => cases hkind

/-- What a field holds counts as nothing exactly if it is equal to what the field of an empty record holds, as far as
that is so of a record that it has to hold. -/
theorem isZeroMember_eq_same {f : Field} {v w : Value} (hf : c.describeField f = .ok (c.descriptorOf f))
    (hkind : (c.kindOf f.type.unwrap.1).hasOneZero = true) (hv : f.Fits c v) (hw : f.Fits c w)
    (hinner : ∀ inner, f.type.unwrap = (.record inner, false) → isZero c w .record = .ok true →
      isZero c v .record = .ok (v.same w))
    (hzero : isZeroMember c (c.descriptorOf f) w = .ok true) :
    isZeroMember c (c.descriptorOf f) v = .ok (v.same w) := by
  obtain ⟨-, -, -, hmay, -⟩ := Catalogue.names_of_describeField hf
  have hkinds := (Catalogue.kinds_of_field hf).1
  unfold isZeroMember at hzero ⊢
  rw [hmay, hkinds] at hzero ⊢
  cases hoptional : f.type.unwrap.2 with
  | true =>
      -- A field that may be absent counts as nothing only if it is.
      rw [hoptional] at hzero
      have hnull : w = .null := by
        cases w with
        | null => rfl
        | _ => cases hzero
      rw [hnull, Value.same_null]
      cases v with
      | null => simp [Value.isNull, isZero, isZeroScalar]
      | _ => rfl
  | false =>
      rw [hoptional] at hzero
      simp only [Bool.false_and, Bool.false_eq_true, ↓reduceIte] at hzero ⊢
      have hthere : ∀ {u : Value}, f.Fits c u → IsOfKind (c.kindOf f.type.unwrap.1) u ∧
          (c.kindOf f.type.unwrap.1 = .array → u.rowSort? = f.type.unwrap.1.rowSort?) := fun hu =>
        hu.resolve_left fun hnull => Bool.noConfusion (hoptional.symm.trans hnull.2)
      by_cases hrecord : c.kindOf f.type.unwrap.1 = .record
      · obtain ⟨inner, ht⟩ := Catalogue.exists_record_of_kindOf hrecord
        rw [hrecord] at hzero ⊢
        exact hinner inner (Prod.ext ht hoptional) hzero
      · rw [isZero_of_not_record (.inl hrecord)] at hzero ⊢
        exact isZeroScalar_eq_same hkind hrecord (hthere hv).1 (hthere hw).1
          (fun harray => ((hthere hv).2 harray).trans ((hthere hw).2 harray).symm) hzero

/-- The emptiness test of records is the comparison with an empty one. -/
theorem isZero_eq_same {name : String} {x z : Value} (hc : IsFillableThrough c name) (hx : IsExact c name x)
    (hz : IsExact c name z) (hzero : isZero c z .record = .ok true) : isZero c x .record = .ok (x.same z) := by
  induction hx generalizing z with
  | @record name m value hm hfits _ ih =>
      cases hz with
      | @record _ m' other hm' hothers hinner =>
          obtain rfl : m = m' := Option.some.inj (hm.symm.trans hm')
          have hmodel := hc name m .refl hm
          have hself := Catalogue.model?_self hm
          simp only [isZero, hself, beq_self_eq_true, ↓reduceIte] at hzero ⊢
          obtain ⟨ds, hds, hzero⟩ := exists_of_bind_eq_ok hzero
          obtain ⟨rfl, hdescribed⟩ := Catalogue.describe_eq_map (Action.of_describe_eq_ok hds)
          have hnamed : ∀ f ∈ m.fields, (c.descriptorOf f).name = f.name := fun f hf =>
            (Catalogue.names_of_describeField (hdescribed f hf)).1
          rw [hds, ok_bind, Value.same_record m.name hmodel.names]
          refine allEmpty_eq fun f hf => ⟨value f, ?_, ?_⟩
          · rw [hnamed f hf]
            exact lookup_fields value hmodel.names hf
          · have hother : isZeroMember c (c.descriptorOf f) (other f) = .ok true := by
              refine isZeroMember_of_allEmpty hzero _ (List.mem_map_of_mem hf) _ ?_
              rw [hnamed f hf]
              exact lookup_fields other hmodel.names hf
            refine isZeroMember_eq_same (hdescribed f hf) (hmodel.kinds f hf) (hfits f hf) (hothers f hf) ?_ hother
            intro inner ht hzero
            exact ih f hf inner ht (hc.inside hm hf (congrArg Prod.fst ht)) (hinner f hf inner ht) hzero

end Validation
end Intake
