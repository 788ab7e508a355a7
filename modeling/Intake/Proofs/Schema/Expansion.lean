import Intake.Proofs.Model.Instance
import Intake.Proofs.Model.Unwrapping
import Intake.Proofs.Schema.Example
import Intake.Proofs.Value.Entries
import Mathlib.Data.List.Permutation

/-!
What is expanded in mock values. Models may contain themselves, through records, rows, maps and choices; a mock
value comes to an end all the same, because a record that is being expanded is not expanded again. On every way
into a mock value each record is expanded at most once, and where it comes up again nothing is in it.
-/

namespace Intake

namespace Mock

open Schema (Reaches)

variable {c : Catalogue} {record record' : String → Except Fault Value} {stack way : List String} {t t' : Ty}
  {v v' : Value} {name : String} {m : Model} {fields : List Descriptor}

/-! ### Types by their kinds -/

theorem isOpen_iff : isOpen stack t = true ↔ ∃ name ∈ stack, t.unwrap.1 = .record name := by
  unfold isOpen
  split
  · rename_i name ht
    simp [ht]
  · rename_i hnone
    simp only [Bool.false_eq_true, false_iff, not_exists, not_and]
    exact fun name _ ht => hnone name ht

theorem isOpen_unwrap (stack : List String) (t : Ty) : isOpen stack t.unwrap.1 = isOpen stack t := by
  rw [isOpen, isOpen, Ty.unwrap_unwrap]

theorem values_unwrap (item : Ty) :
    value.values stack item.unwrap.1 (value c record stack item.unwrap.1) =
      value.values stack item (value c record stack item) := by
  rw [value.values, value.values, isOpen_unwrap, (seesThrough_value stack).unwrap]

/-- The kinds of values that hold others: the value of the kind that holds nothing, and the one that holds one. -/
inductive Holds : Kind → Value → (Value → Value) → Prop where
  | array : Holds .array (.list []) fun v => .list [v]
  | map : Holds .map (.dict []) fun v => .dict [(.text "key", v)]

/-- A type whose values hold no others: neither rows nor maps nor records. -/
structure IsSingle (c : Catalogue) (t : Ty) : Prop where
  holds : ∀ empty full, ¬ Holds (c.kindOf t.unwrap.1) empty full
  record : ∀ name, t.unwrap.1 ≠ .record name

theorem holds_or_record_or_single (c : Catalogue) (t : Ty) :
    (∃ empty full, Holds (c.kindOf t.unwrap.1) empty full) ∨ (∃ name, t.unwrap.1 = .record name) ∨ IsSingle c t := by
  by_cases hholds : ∃ empty full, Holds (c.kindOf t.unwrap.1) empty full
  · exact .inl hholds
  by_cases hname : ∃ name, t.unwrap.1 = .record name
  · exact .inr (.inl hname)
  · exact .inr (.inr ⟨fun empty full h => hholds ⟨empty, full, h⟩, fun name h => hname ⟨name, h⟩⟩)

/-- A mock value that holds others holds one, or none if that is being expanded. -/
theorem value_of_holds {kind : Kind} {empty : Value} {full : Value → Value} (hkind : c.kindOf t.unwrap.1 = kind)
    (h : Holds kind empty full) :
    value c record stack t =
      match t.unwrap.1.element? with
      | none => .ok empty
      | some e => if isOpen stack e then .ok empty else (value c record stack e).map full := by
  rw [← (seesThrough_value stack).unwrap t]
  cases h with
  | array =>
      cases hu : t.unwrap.1 with
      | list item | set frozen item | sequence item => exact (values_unwrap item).symm
      | tuple items =>
          cases items with
          | nil => rfl
          | cons item rest => exact (values_unwrap item).symm
      | enumeration name =>
          rw [hu] at hkind
          rcases Catalogue.kindOf_enumeration c name with h | h | h <;> cases h.symm.trans hkind
      | bareList | bareTuple | bareSet frozen => rfl
      | _ =>
          rw [hu] at hkind
          cases hkind
  | map =>
      rcases Catalogue.eq_dict_of_kindOf hkind with hu | ⟨key, item, hu⟩
      · rw [hu]
        rfl
      · rw [hu]
        dsimp only [Ty.element?]
        rw [isOpen_unwrap, (seesThrough_value stack).unwrap, value]

theorem value_of_record (ht : t.unwrap.1 = .record name) :
    value c record stack t = if stack.contains name then .ok (.dict []) else record name := by
  rw [← (seesThrough_value stack).unwrap t, ht, value]

/-- The mock value of anything else is the one that stands for its kind. -/
theorem value_of_single (hsingle : IsSingle c t) :
    value c record stack t = .ok (scalar (c.kindOf t.unwrap.1)) := by
  obtain ⟨hholds, hrecord⟩ := hsingle
  rw [← (seesThrough_value stack).unwrap t]
  cases hu : t.unwrap.1 with
  | annotated inner => exact absurd hu (t.unwrap_ne_annotated inner)
  | union choices =>
      rw [value, valueOfOnly_eq_null stack hu]
      rfl
  | list item | set frozen item | sequence item | tuple items | bareList | bareTuple | bareSet frozen =>
      rw [hu] at hholds
      exact absurd .array (hholds _ _)
  | dict key item | bareDict =>
      rw [hu] at hholds
      exact absurd .map (hholds _ _)
  | record name => exact absurd hu (hrecord name)
  | _ => rfl

/-! ### Values that are made by rules -/

/-- A mock value of a type inside the records that are being expanded: what the kind of the type says, without a
bound on the depth. -/
inductive Makes (c : Catalogue) : List String → Ty → Value → Prop where
  | single {stack : List String} {t : Ty} (hsingle : IsSingle c t) : Makes c stack t (scalar (c.kindOf t.unwrap.1))
  | empty {stack : List String} {t : Ty} {empty : Value} {full : Value → Value}
      (hholds : Holds (c.kindOf t.unwrap.1) empty full) (hopen : ∀ e ∈ t.unwrap.1.element?, isOpen stack e = true) :
      Makes c stack t empty
  | full {stack : List String} {t e : Ty} {empty v : Value} {full : Value → Value}
      (hholds : Holds (c.kindOf t.unwrap.1) empty full) (he : t.unwrap.1.element? = some e)
      (hclosed : isOpen stack e = false) (hv : Makes c stack e v) : Makes c stack t (full v)
  | again {stack : List String} {t : Ty} {name : String} (ht : t.unwrap.1 = .record name) (hopen : name ∈ stack) :
      Makes c stack t (if t.unwrap.2 then .null else .dict [])
  | unknown {stack : List String} {t : Ty} {name : String} (ht : t.unwrap.1 = .record name) (hclosed : name ∉ stack)
      (hm : c.model? name = none) : Makes c stack t (.dict [])
  | record {stack : List String} {t : Ty} {name : String} {m : Model} {fields : List Descriptor}
      {values : Descriptor → Value} (ht : t.unwrap.1 = .record name) (hclosed : name ∉ stack)
      (hm : c.model? name = some m) (hfields : c.describe m = .ok fields)
      (hvalues : ∀ d ∈ fields, Makes c (name :: stack) d.type (values d)) :
      Makes c stack t (.dict (Value.dictOf (fields.map fun d => (.text d.wireName, values d))))

/-- What is made for a type is made by the rules, if what is made for the records is. -/
theorem makes_value
    (hrecord : ∀ name v (t : Ty), name ∉ stack → t.unwrap.1 = .record name → record name = .ok v → Makes c stack t v)
    (t : Ty) (hopen : isOpen stack t = true → t.unwrap.2 = false) {v : Value}
    (hv : value c record stack t = .ok v) : Makes c stack t v := by
  rcases holds_or_record_or_single c t with ⟨empty, full, hholds⟩ | ⟨name, ht⟩ | hsingle
  · rw [value_of_holds rfl hholds] at hv
    cases he : t.unwrap.1.element? with
    | none =>
        rw [he] at hv
        cases hv
        exact .empty hholds fun e hsome => absurd (he.symm.trans hsome) (by simp)
    | some e =>
        rw [he] at hv
        dsimp only at hv
        split at hv
        · rename_i hagain
          cases hv
          refine .empty hholds fun e' hsome => ?_
          obtain rfl := Option.some.inj (he.symm.trans hsome)
          exact hagain
        · rename_i hclosed
          obtain ⟨w, hw, rfl⟩ := exists_of_map_eq_ok hv
          have hfalse := Bool.eq_false_iff.mpr hclosed
          exact .full hholds he hfalse (makes_value hrecord e (fun hagain => absurd hagain hclosed) hw)
  · rw [value_of_record ht] at hv
    split at hv
    · rename_i hagain
      cases hv
      have hname : name ∈ stack := by simpa using hagain
      have hgiven := hopen (isOpen_iff.mpr ⟨name, hname, ht⟩)
      have hmade : Makes c stack t (if t.unwrap.2 then .null else .dict []) := .again ht hname
      rwa [hgiven] at hmade
    · rename_i hnew
      exact hrecord name v t (by simpa using hnew) ht hv
  · rw [value_of_single hsingle] at hv
    cases hv
    exact .single hsingle
termination_by sizeOf t
decreasing_by
  have hlt := Ty.sizeOf_element_lt he
  have hle := Ty.sizeOf_unwrap_le t
  omega

/-- Mock values are equal if they make the records equally that are not being expanded. -/
theorem value_congr (hsame : ∀ name, name ∉ stack → record name = record' name) (t : Ty) :
    value c record stack t = value c record' stack t := by
  rcases holds_or_record_or_single c t with ⟨empty, full, hholds⟩ | ⟨name, ht⟩ | hsingle
  · rw [value_of_holds rfl hholds, value_of_holds rfl hholds]
    cases he : t.unwrap.1.element? with
    | none => rfl
    | some e =>
        dsimp only
        rw [value_congr hsame e]
  · rw [value_of_record ht, value_of_record ht]
    split
    · rfl
    · rename_i hnew
      exact hsame name (by simpa using hnew)
  · rw [value_of_single hsingle, value_of_single hsingle]
termination_by sizeOf t
decreasing_by
  have hlt := Ty.sizeOf_element_lt he
  have hle := Ty.sizeOf_unwrap_le t
  omega

theorem fieldValue_congr (hsame : ∀ name, name ∉ stack → record name = record' name) (t : Ty) :
    fieldValue c record stack t = fieldValue c record' stack t := by
  rw [fieldValue, fieldValue, value_congr hsame]

theorem makes_fieldValue
    (hrecord : ∀ name v (t : Ty), name ∉ stack → t.unwrap.1 = .record name → record name = .ok v → Makes c stack t v)
    (hv : fieldValue c record stack t = .ok v) : Makes c stack t v := by
  rw [fieldValue] at hv
  split at hv
  · rename_i habsent
    cases hv
    obtain ⟨hagain, hoptional⟩ := Bool.and_eq_true_iff.mp habsent
    obtain ⟨name, hname, ht⟩ := isOpen_iff.mp hagain
    have hmade : Makes c stack t (if t.unwrap.2 then .null else .dict []) := .again ht hname
    rwa [if_pos hoptional] at hmade
  · rename_i hgiven
    refine makes_value hrecord t (fun hagain => ?_) hv
    rw [hagain, Bool.true_and] at hgiven
    exact Bool.eq_false_iff.mpr hgiven

/-! ### The depth -/

/-- Whether a depth leaves room below the records that are being expanded: each is a model, so there are no more
of them than models. -/
structure Room (c : Catalogue) (depth : Nat) (stack : List String) : Prop where
  nodup : stack.Nodup
  known : ∀ name ∈ stack, ∃ m, c.model? name = some m
  deep : c.models.length < stack.length + depth

theorem Room.start {depth : Nat} (hdepth : c.models.length < depth) : Room c depth [] where
  nodup := List.nodup_nil
  known := List.forall_mem_nil _
  deep := by simpa using hdepth

theorem Room.inside {depth : Nat} (h : Room c (depth + 1) stack) (hnew : name ∉ stack)
    (hm : c.model? name = some m) : Room c depth (name :: stack) where
  nodup := List.nodup_cons.mpr ⟨hnew, h.nodup⟩
  known := List.forall_mem_cons.mpr ⟨⟨m, hm⟩, h.known⟩
  deep := by
    have hdeep := h.deep
    rw [List.length_cons]
    omega

/-- There is no room without depth. -/
theorem Room.pos {depth : Nat} (h : Room c depth stack) : depth ≠ 0 := by
  rintro rfl
  have hsub : stack ⊆ c.models.map Model.name := by
    intro name hname
    obtain ⟨m, hm⟩ := h.known name hname
    exact List.mem_map.mpr ⟨m, List.mem_of_find?_eq_some hm, Catalogue.name_of_model? hm⟩
  have hle := (List.subperm_of_subset h.nodup hsub).length_le
  have hdeep := h.deep
  rw [List.length_map] at hle
  omega

theorem document_of_none {depth : Nat} (hm : c.model? name = none) :
    document c (depth + 1) stack name = .ok (.dict []) := by
  rw [document, hm]

theorem document_of_fault {depth : Nat} {fault : UnknownSource} (hm : c.model? name = some m)
    (hfields : c.describe m = .error fault) :
    document c (depth + 1) stack name = .error (.unknownSource fault) := by
  have hundescribed : Action.describe c m = .error (.unknownSource fault) := by
    rw [Action.describe, hfields]
    rfl
  rw [document, hm]
  dsimp only
  rw [hundescribed]
  rfl

/-- What stands in the document of a model, field by field. -/
theorem document_of_model {depth : Nat} (hm : c.model? name = some m) (hfields : c.describe m = .ok fields) :
    document c (depth + 1) stack name =
      (fields.mapM fun d => (fieldValue c (document c depth (name :: stack)) (name :: stack) d.type).map
        (Value.text d.wireName, ·)).map fun entries => .dict (Value.dictOf entries) := by
  have hdescribed : Action.describe c m = .ok fields := by
    rw [Action.describe, hfields]
    rfl
  rw [document, hm]
  dsimp only
  rw [hdescribed]
  rfl

/-- The document of a model is made by the rules: the depth does not run out. -/
theorem makes_document {depth : Nat} (hroom : Room c depth stack) (hnew : name ∉ stack) (ht : t.unwrap.1 = .record name)
    (hv : document c depth stack name = .ok v) : Makes c stack t v := by
  induction depth generalizing stack name t v with
  | zero => exact absurd rfl hroom.pos
  | succ depth ih =>
      cases hm : c.model? name with
      | none =>
          rw [document_of_none hm] at hv
          cases hv
          exact .unknown ht hnew hm
      | some m =>
          cases hfields : c.describe m with
          | error fault =>
              rw [document_of_fault hm hfields] at hv
              cases hv
          | ok fields =>
              rw [document_of_model hm hfields] at hv
              obtain ⟨entries, hentries, rfl⟩ := exists_of_map_eq_ok hv
              obtain ⟨values, rfl, hvalues⟩ := exists_values_of_mapM hentries
              refine .record ht hnew hm hfields fun d hd => makes_fieldValue ?_ (hvalues d hd)
              exact fun inner w s hinner hs hw => ih (hroom.inside hnew hm) hinner hs hw

/-- More depth makes no other document. -/
theorem document_congr {depth depth' : Nat} (hroom : Room c depth stack) (hroom' : Room c depth' stack)
    (hnew : name ∉ stack) : document c depth stack name = document c depth' stack name := by
  induction depth generalizing depth' stack name with
  | zero => exact absurd rfl hroom.pos
  | succ depth ih =>
      obtain ⟨depth', rfl⟩ := Nat.exists_eq_succ_of_ne_zero hroom'.pos
      cases hm : c.model? name with
      | none => rw [document_of_none hm, document_of_none hm]
      | some m =>
          cases hfields : c.describe m with
          | error fault => rw [document_of_fault hm hfields, document_of_fault hm hfields]
          | ok fields =>
              have hrecords : ∀ inner, inner ∉ name :: stack →
                  document c depth (name :: stack) inner = document c depth' (name :: stack) inner :=
                fun inner hinner => ih (hroom.inside hnew hm) (hroom'.inside hnew hm) hinner
              rw [document_of_model hm hfields, document_of_model hm hfields]
              congr 2
              funext d
              rw [fieldValue_congr hrecords]

/-! ### Ways into mock values -/

/-- The ways from a value of a type to the values inside it, with the records that are passed: from a record to the
value of a field, which is that of the last field under its key, and from a row or a map to the value that it holds. -/
inductive Leads (c : Catalogue) : List String → Ty → Value → Ty → Value → Prop where
  | here {t : Ty} {v : Value} : Leads c [] t v t v
  | field {way : List String} {t t' : Ty} {v v' : Value} {name : String} {m : Model} {fields : List Descriptor}
      {d : Descriptor} {entries : List (Value × Value)} (ht : t.unwrap.1 = .record name) (hm : c.model? name = some m)
      (hfields : c.describe m = .ok fields)
      (hd : (fields.reverse.find? fun e => e.wireName == d.wireName) = some d)
      (hv : Value.lookupText d.wireName entries = some v) (hrest : Leads c way d.type v t' v') :
      Leads c (name :: way) t (.dict entries) t' v'
  | held {way : List String} {t e t' : Ty} {v v' empty : Value} {full : Value → Value}
      (hholds : Holds (c.kindOf t.unwrap.1) empty full) (he : t.unwrap.1.element? = some e)
      (hrest : Leads c way e v t' v') : Leads c way t (full v) t' v'

theorem Holds.unique {kind : Kind} {empty empty' : Value} {full full' : Value → Value} (h : Holds kind empty full)
    (h' : Holds kind empty' full') : empty = empty' ∧ full = full' := by
  cases h <;> cases h' <;> exact ⟨rfl, rfl⟩

theorem Holds.full_injective {kind : Kind} {empty : Value} {full : Value → Value} (h : Holds kind empty full)
    (hsame : full v = full v') : v = v' := by
  cases h <;> simpa using hsame

theorem Holds.full_ne_empty {kind : Kind} {empty : Value} {full : Value → Value} (h : Holds kind empty full) :
    full v ≠ empty := by
  cases h <;> simp

/-- No record is of a kind that holds others in this way. -/
theorem Holds.unwrap_ne_record {empty : Value} {full : Value → Value} (h : Holds (c.kindOf t.unwrap.1) empty full)
    (name : String) : t.unwrap.1 ≠ .record name := by
  intro ht
  rw [ht] at h
  nomatch h

/-- How a record is made: it is being expanded already, or unknown, or expanded now. -/
theorem Makes.of_record (h : Makes c stack t v) (ht : t.unwrap.1 = .record name) :
    (name ∈ stack ∧ v = if t.unwrap.2 then .null else .dict []) ∨
      (name ∉ stack ∧ c.model? name = none ∧ v = .dict []) ∨
      (name ∉ stack ∧ ∃ m fields, c.model? name = some m ∧ c.describe m = .ok fields ∧ ∃ values : Descriptor → Value,
        (∀ d ∈ fields, Makes c (name :: stack) d.type (values d)) ∧
          v = .dict (Value.dictOf (fields.map fun d => (.text d.wireName, values d)))) := by
  cases h with
  | single hsingle => exact absurd ht (hsingle.record name)
  | empty hholds hopen => exact absurd ht (hholds.unwrap_ne_record name)
  | full hholds he hclosed hv => exact absurd ht (hholds.unwrap_ne_record name)
  | again ht' hopen =>
      cases ht.symm.trans ht'
      exact .inl ⟨hopen, rfl⟩
  | unknown ht' hclosed hm =>
      cases ht.symm.trans ht'
      exact .inr (.inl ⟨hclosed, hm, rfl⟩)
  | record ht' hclosed hm hfields hvalues =>
      cases ht.symm.trans ht'
      exact .inr (.inr ⟨hclosed, _, _, hm, hfields, _, hvalues, rfl⟩)

/-- How a row or a map is made: with nothing in it if what it would hold is being expanded, or with one value. -/
theorem Makes.of_holds {empty : Value} {full : Value → Value} (h : Makes c stack t v)
    (hholds : Holds (c.kindOf t.unwrap.1) empty full) :
    ((∀ e ∈ t.unwrap.1.element?, isOpen stack e = true) ∧ v = empty) ∨
      ∃ e w, t.unwrap.1.element? = some e ∧ isOpen stack e = false ∧ Makes c stack e w ∧ v = full w := by
  cases h with
  | single hsingle => exact absurd hholds (hsingle.holds _ _)
  | empty hholds' hopen => exact .inl ⟨hopen, (hholds'.unique hholds).1⟩
  | full hholds' he hclosed hv =>
      obtain ⟨-, rfl⟩ := hholds'.unique hholds
      exact .inr ⟨_, _, he, hclosed, hv, rfl⟩
  | again ht hopen => exact absurd ht (hholds.unwrap_ne_record _)
  | unknown ht hclosed hm => exact absurd ht (hholds.unwrap_ne_record _)
  | record ht hclosed hm hfields hvalues => exact absurd ht (hholds.unwrap_ne_record _)

/-- What a way leads to is made by the rules, inside the records that are passed on the way; and none of these was
being expanded when it was passed. -/
theorem Leads.makes (hway : Leads c way t v t' v') (hmade : Makes c stack t v) (hnodup : stack.Nodup) :
    Makes c (way.reverse ++ stack) t' v' ∧ (way.reverse ++ stack).Nodup := by
  induction hway generalizing stack with
  | here => exact ⟨hmade, hnodup⟩
  | @field way t t' v v' name m fields d entries ht hm hfields hd hv hrest ih =>
      rw [List.reverse_cons, List.append_assoc, List.singleton_append]
      rcases hmade.of_record ht with ⟨-, hempty⟩ | ⟨-, hunknown, -⟩ |
        ⟨hnew, m', fields', hm', hfields', values, hall, hdict⟩
      · split at hempty
        · cases hempty
        · cases hempty
          cases hv
      · cases hunknown.symm.trans hm
      · cases hm.symm.trans hm'
        cases hfields.symm.trans hfields'
        cases hdict
        rw [Value.lookupText_dictOf_map, hd] at hv
        cases hv
        have hmem : d ∈ fields := List.mem_reverse.mp (List.mem_of_find?_eq_some hd)
        exact ih (hall d hmem) (List.nodup_cons.mpr ⟨hnew, hnodup⟩)
  | held hholds he hrest ih =>
      rcases hmade.of_holds hholds with ⟨-, hempty⟩ | ⟨e', w, he', hclosed, hw, hfull⟩
      · exact absurd hempty hholds.full_ne_empty
      · cases he.symm.trans he'
        cases hholds.full_injective hfull
        exact ih hw hnodup

/-- How a value of a type stands inside the records that were passed on the way to it. A record that was passed is
not expanded again: it is nothing if it may be absent, and empty otherwise; a row or a map of such records is empty.
Any other record that has a model is expanded: it has an entry for each of its fields and no more. -/
structure StandsAt (c : Catalogue) (way : List String) (t : Ty) (v : Value) : Prop where
  again : ∀ name ∈ way, t.unwrap.1 = .record name → v = if t.unwrap.2 then .null else .dict []
  none : ∀ empty full, Holds (c.kindOf t.unwrap.1) empty full →
    ∀ name ∈ way, t.unwrap.1.element? = some (.record name) → v = empty
  expanded : ∀ name m fields, t.unwrap.1 = .record name → name ∉ way → c.model? name = some m →
    c.describe m = .ok fields →
      ∃ entries, v = .dict entries ∧ ∀ key, (Value.lookupText key entries).isSome ↔ ∃ d ∈ fields, d.wireName = key

theorem Makes.standsAt (h : Makes c stack t v) : StandsAt c stack t v where
  again name hname ht := by
    rcases h.of_record ht with ⟨-, hv⟩ | ⟨hnew, -, -⟩ | ⟨hnew, -⟩
    · exact hv
    · exact absurd hname hnew
    · exact absurd hname hnew
  none empty full hholds name hname he := by
    rcases h.of_holds hholds with ⟨-, hv⟩ | ⟨e, w, he', hclosed, -, -⟩
    · exact hv
    · cases he.symm.trans he'
      have hopen : isOpen stack (.record name) = true := isOpen_iff.mpr ⟨name, hname, rfl⟩
      exact absurd (hclosed.symm.trans hopen) Bool.false_ne_true
  expanded name m fields ht hnew hm hfields := by
    rcases h.of_record ht with ⟨hname, -⟩ | ⟨-, hunknown, -⟩ | ⟨-, m', fields', hm', hfields', values, -, hv⟩
    · exact absurd hname hnew
    · cases hunknown.symm.trans hm
    · cases hm.symm.trans hm'
      cases hfields.symm.trans hfields'
      refine ⟨_, hv, fun key => ?_⟩
      rw [Value.lookupText_dictOf_map, Option.isSome_map, List.find?_isSome]
      simp

theorem StandsAt.of_mem_iff (h : StandsAt c stack t v) (hsame : ∀ name, name ∈ stack ↔ name ∈ way) :
    StandsAt c way t v where
  again name hname := h.again name ((hsame name).mpr hname)
  none empty full hholds name hname := h.none empty full hholds name ((hsame name).mpr hname)
  expanded name m fields ht hnew := h.expanded name m fields ht (mt (hsame name).mp hnew)

/-- A mock value of any type comes to an end, though models may contain themselves: any depth above the number of
models makes the same, and where every model that is reached has a description there is one. On every way into it no
record is expanded twice, and what is reached stands inside the records that were passed as it has to: a record that
is being expanded is nothing if it may be absent, and rows and maps of it are empty. -/
theorem ofType_expands_once (c : Catalogue) (t : Ty) :
    (∀ depth, c.models.length < depth → value c (document c depth []) [] t = ofType c t) ∧
      ((∀ m, Reaches c .json t.leadsTo?.toList m → ∃ fields, c.describe m = .ok fields) → ∃ v, ofType c t = .ok v) ∧
      ∀ v, ofType c t = .ok v → ∀ way t' v', Leads c way t v t' v' → way.Nodup ∧ StandsAt c way t' v' := by
  have hstart : Room c (c.models.length + 1) [] := Room.start (Nat.lt_succ_self _)
  refine ⟨fun depth hdepth => ?_, fun hdescribe => ?_, fun v hv way t' v' hway => ?_⟩
  · exact value_congr (fun name hname => document_congr (Room.start hdepth) hstart hname) t
  · refine exists_value [] t fun name hname => exists_document hdescribe _ [] name fun m hm => ?_
    exact Reaches.root (by simpa using hname) hm
  · have hmade : Makes c [] t v := by
      refine makes_value (fun name v s hname hs hv => makes_document hstart hname hs hv) t (fun hopen => ?_) hv
      obtain ⟨name, hname, -⟩ := isOpen_iff.mp hopen
      cases hname
    obtain ⟨hfinal, hnodup⟩ := hway.makes hmade List.nodup_nil
    rw [List.append_nil] at hfinal hnodup
    exact ⟨List.nodup_reverse.mp hnodup, hfinal.standsAt.of_mem_iff fun _ => List.mem_reverse⟩

/-- A folder may be in a folder, has folders in a row and under names, and has an owner, who has a folder. -/
def folderCatalogue : Catalogue :=
  ⟨[plainModel "Folder" [plainField "label" .str, plainField "parent" (.union [.record "Folder", .null]),
      plainField "inside" (.list (.record "Folder")), plainField "named" (.dict .str (.annotated (.record "Folder"))),
      plainField "owner" (.record "Owner")],
    plainModel "Owner" [plainField "home" (.record "Folder")]], []⟩

/-- The mock value of an owner, inside a folder. -/
def ownerInside : Value := .dict [(.text "home", .dict [])]

/-- The mock value of a folder: whatever is a folder inside it is not expanded. -/
def folderMade : Value :=
  .dict [(.text "label", .text "example"), (.text "parent", .null), (.text "inside", .list []),
    (.text "named", .dict []), (.text "owner", ownerInside)]

theorem leads_home :
    Leads folderCatalogue ["Folder", "Owner"] (.list (.record "Folder")) (.list [folderMade]) (.record "Folder")
      (.dict []) := by
  have howner : Leads folderCatalogue ["Owner"] (.record "Owner") ownerInside (.record "Folder") (.dict []) :=
    .field (d := folderCatalogue.descriptorOf (plainField "home" (.record "Folder"))) rfl rfl rfl rfl (by cbv) .here
  have hfolder : Leads folderCatalogue ["Folder", "Owner"] (.record "Folder") folderMade (.record "Folder")
      (.dict []) :=
    .field (d := folderCatalogue.descriptorOf (plainField "owner" (.record "Owner"))) rfl rfl rfl rfl (by cbv) howner
  have hholds : Holds (folderCatalogue.kindOf (Ty.list (.record "Folder")).unwrap.1) (.list []) fun v => .list [v] :=
    .array
  exact .held hholds rfl hfolder

/-- In a row of folders there is one folder, with an owner, and the home of the owner is not expanded again. -/
theorem ofType_expands_once_folder :
    ofType folderCatalogue (.list (.record "Folder")) = .ok (.list [folderMade]) ∧
      ["Folder", "Owner"].Nodup ∧ StandsAt folderCatalogue ["Folder", "Owner"] (.record "Folder") (.dict []) := by
  have hmade : ofType folderCatalogue (.list (.record "Folder")) = .ok (.list [folderMade]) := by cbv
  exact ⟨hmade, (ofType_expands_once folderCatalogue (.list (.record "Folder"))).2.2 _ hmade _ _ _ leads_home⟩

end Mock
end Intake
