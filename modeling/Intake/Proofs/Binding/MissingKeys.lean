import Mathlib
import Intake.Proofs.Binding.Body
import Intake.Proofs.Binding.Clearing
import Intake.Proofs.Model.Instance
import Intake.Proofs.Shape.Built

/-!
Missing keys. A document in which nothing stands for a field is bound as the one in which the zero value of the
field stands there: the zero value passes the look at the types, is kept when unknown keys are dropped, and fits the
field as what the document is completed with, if that is not the very same.
-/

namespace Intake

/-- The zero value of a field as it stands in documents, where moments and identifiers are texts. -/
def Descriptor.zeroInDocument (d : Descriptor) : Value :=
  if d.optional then .null
  else match d.kind with
    | .string => .text ""
    | .integer => .int 0
    | .float => .float Binary64.zero
    | .boolean => .bool false
    | .moment => .text "0001-01-01T00:00:00Z"
    | .uuid => .text "00000000-0000-0000-0000-000000000000"
    | .array => .list []
    | .map | .record => .dict []
    | .any => .null

/-- A document in which nothing stands for a field, and the same with the zero value of the field under its key. -/
inductive AddsZero (d : Descriptor) : List (Value × Value) → List (Value × Value) → Prop where
  | intro (before after : List (Value × Value)) (hwire : Value.lookupText d.wireName (before ++ after) = none)
      (hname : Value.lookupText d.name (before ++ after) = none) :
      AddsZero d (before ++ after) (before ++ (.text d.wireName, d.zeroInDocument) :: after)

namespace AddsZero

variable {d e : Descriptor} {es es' : List (Value × Value)}

theorem lookup_own (h : AddsZero d es es') : Value.lookupText d.wireName es' = some d.zeroInDocument := by
  obtain ⟨before, after, hwire, -⟩ := h
  rw [Value.lookupText_append, Option.or_eq_none_iff] at hwire
  rw [Value.lookupText_append, hwire.1, Option.none_or]
  simp [Value.lookupText, Value.lookupKey]

theorem lookup_of_ne (h : AddsZero d es es') {key : String} (hkey : d.wireName ≠ key) :
    Value.lookupText key es' = Value.lookupText key es := by
  obtain ⟨before, after, -, -⟩ := h
  have hskip : Value.lookupText key ((.text d.wireName, d.zeroInDocument) :: after) = Value.lookupText key after := by
    simp [Value.lookupText, Value.lookupKey, hkey]
  rw [Value.lookupText_append, Value.lookupText_append, hskip]

theorem wire_missing (h : AddsZero d es es') : Value.lookupText d.wireName es = none := by
  obtain ⟨before, after, hwire, -⟩ := h
  exact hwire

theorem name_missing (h : AddsZero d es es') : Value.lookupText d.name es = none := by
  obtain ⟨before, after, -, hname⟩ := h
  exact hname

end AddsZero

namespace Shape

variable {c : Catalogue} {record : String → Value → Fitted} {m : Model} {f g : Field}
  {es es' : List (Value × Value)}

/-- Values of which the same comes by the type of a field come to the same in the field, if neither is a row. -/
theorem fitField_of_sameValue {v w : Value} {r s : Fit} (hv : v.items? = none) (hw : w.items? = none)
    (hr : fit c record f.type v = .ok r) (hs : fit c record f.type w = .ok s) (hsame : r.value = s.value) :
    (fitField c record f v).map Fit.value = (fitField c record f w).map Fit.value := by
  have hwhole : ∀ {x : Value} {t : Fit}, x.items? = none → fit c record f.type x = .ok t →
      fitField c record f x = checkBounds f.constraints t := by
    intro x t hx ht
    unfold fitField
    dsimp only
    split
    · rename_i hxs
      rw [hx] at hxs
      cases hxs
    · rw [ht]
      rfl
  rw [hwhole hv hr, hwhole hw hs, checkBounds_eq_map hsame]
  cases hbounds : checkBounds f.constraints s with
  | error rejections => rfl
  | ok t =>
      obtain rfl := eq_of_checkBounds hbounds
      exact congrArg Except.ok hsame

theorem fitMoment_zero : fitMoment (.text "0001-01-01T00:00:00Z") = .ok (.moment Calendar.Moment.first, .loose) := by
  cbv

theorem fitUuid_zero :
    fitUuid (.text "00000000-0000-0000-0000-000000000000") = .ok (.uuid Uuid.nil, .loose) := by
  have htext : "00000000-0000-0000-0000-000000000000" = Uuid.nil.text := by cbv
  rw [fitUuid, htext, Uuid.ofText?_text (by decide)]

theorem eq_moment_of_kindOf {t : Ty} (h : c.kindOf t = .moment) : t = .moment := by
  cases t with
  | moment => rfl
  | enumeration name =>
      rcases Catalogue.kindOf_enumeration c name with hkind | hkind | hkind <;> rw [hkind] at h <;> cases h
  | _ => cases h

theorem eq_uuid_of_kindOf {t : Ty} (h : c.kindOf t = .uuid) : t = .uuid := by
  cases t with
  | uuid => rfl
  | enumeration name =>
      rcases Catalogue.kindOf_enumeration c name with hkind | hkind | hkind <;> rw [hkind] at h <;> cases h
  | _ => cases h

/-- The zero value in a document comes to the same in its field as the one that a document is completed with. -/
theorem fitField_zeroInDocument (hd : c.describeField f = .ok (c.descriptorOf f)) :
    (fitField c record f (c.descriptorOf f).zeroInDocument).map Fit.value =
      (fitField c record f (c.descriptorOf f).zero).map Fit.value := by
  have hkind := (Catalogue.kinds_of_field hd).1
  have hoptional := (Catalogue.names_of_describeField hd).2.2.2.1
  unfold Descriptor.zeroInDocument Descriptor.zero
  split
  · rfl
  · rename_i hrequired
    have hnever : f.type.unwrap.2 = false := by
      rw [← hoptional]
      simpa using hrequired
    generalize (c.descriptorOf f).kind = kind at hkind
    cases kind with
    | moment =>
        have ht := eq_moment_of_kindOf hkind.symm
        refine fitField_of_sameValue rfl rfl (r := ⟨.moment Calendar.Moment.first, .loose, none⟩)
          (s := ⟨.moment Calendar.Moment.first, .exact, none⟩) ?_ ?_ rfl
        · rw [← fit_unwrap c record f.type (.inr hnever), ht, fit, fitMoment_zero]
          rfl
        · rw [← fit_unwrap c record f.type (.inr hnever), ht]
          rfl
    | uuid =>
        have ht := eq_uuid_of_kindOf hkind.symm
        refine fitField_of_sameValue rfl rfl (r := ⟨.uuid Uuid.nil, .loose, none⟩)
          (s := ⟨.uuid Uuid.nil, .exact, none⟩) ?_ ?_ rfl
        · rw [← fit_unwrap c record f.type (.inr hnever), ht, fit, fitUuid_zero]
          rfl
        · rw [← fit_unwrap c record f.type (.inr hnever), ht]
          rfl
    | _ => rfl

/-- What is found for a field in the one document and what is found for it in the other come to the same, where the
documents are completed. -/
theorem contribution_of_addsZero {fields : List Field} (hapart : fields.Pairwise Field.Apart)
    (hdescribed : ∀ g ∈ fields, c.describeField g = .ok (c.descriptorOf g)) (hf : f ∈ fields)
    (hfilled : (c.descriptorOf f).isFilled = true) (h : AddsZero (c.descriptorOf f) es es') (hg : g ∈ fields) :
    contribution c record .strict (withZeroValues (fields.map c.descriptorOf) es') g =
      contribution c record .strict (withZeroValues (fields.map c.descriptorOf) es) g := by
  obtain ⟨hname, hwire, -⟩ := Catalogue.names_of_describeField (hdescribed f hf)
  apply contribution_congr
  rw [findField?_withZeroValues hapart hdescribed hg, findField?_withZeroValues hapart hdescribed hg,
    zeroIn_eq (hdescribed g hg), zeroIn_eq (hdescribed g hg), findField?_strict, findField?_strict]
  by_cases hgf : g = f
  · subst hgf
    have hown := h.lookup_own
    have hnone := h.wire_missing
    have hnoName := h.name_missing
    rw [hwire] at hown hnone
    rw [hname] at hnoName
    simp [hown, hnone, hnoName, hfilled, fitField_zeroInDocument (hdescribed g hg)]
  · obtain ⟨hwires, hwireName, -, -⟩ := hapart.forall hf hg (Ne.symm hgf)
    rw [← hwire] at hwires hwireName
    rw [h.lookup_of_ne hwires, h.lookup_of_ne hwireName]

/-- Keys that are used are not left over. -/
theorem strayKeys_textEntries {used : List String} {zeros : List (String × Value)}
    (hused : ∀ e ∈ zeros, e.1 ∈ used) : strayKeys used (Value.textEntries zeros) = [] := by
  apply strayKeys_eq_nil
  intro e he
  obtain ⟨pair, hpair, rfl⟩ := List.mem_map.mp he
  exact ⟨pair.1, hused pair hpair, rfl⟩

theorem strayKeys_append (used : List String) (es fs : List (Value × Value)) :
    strayKeys used (es ++ fs) = strayKeys used es ++ strayKeys used fs := by
  simp [strayKeys]

/-- A zero value under a key that is used is no key that is left over. -/
theorem strayKeys_of_addsZero {d : Descriptor} {used : List String} (h : AddsZero d es es')
    (hused : d.wireName ∈ used) : strayKeys used es' = strayKeys used es := by
  obtain ⟨before, after, -, -⟩ := h
  have hzero : ∀ e ∈ [(d.wireName, d.zeroInDocument)], e.1 ∈ used := by simpa using hused
  have hown : strayKeys used [(.text d.wireName, d.zeroInDocument)] = [] := strayKeys_textEntries hzero
  rw [List.append_cons, strayKeys_append, strayKeys_append, strayKeys_append, hown, List.append_nil]

theorem any_isBrokenKey_of_addsZero {d : Descriptor} (h : AddsZero d es es') :
    (es'.any fun e => isBrokenKey e.1) = es.any fun e => isBrokenKey e.1 := by
  obtain ⟨before, after, -, -⟩ := h
  simp [isBrokenKey]

section completed

variable {fields : List Field} (hapart : fields.Pairwise Field.Apart)
  (hdescribed : ∀ g ∈ fields, c.describeField g = .ok (c.descriptorOf g))

include hapart hdescribed

theorem any_isBrokenKey_withZeroValues :
    ((withZeroValues (fields.map c.descriptorOf) es).any fun e => isBrokenKey e.1) =
      es.any fun e => isBrokenKey e.1 := by
  have hzeros : ((Value.textEntries (entriesFor fields (zeroIn c es))).any fun e => isBrokenKey e.1) = false :=
    List.any_eq_false.mpr fun e he => by simp [isBrokenKey_textEntries _ e he]
  rw [withZeroValues_descriptors hapart hdescribed, List.any_append, hzeros, Bool.or_false]

/-- A key that a document is completed with is used. -/
theorem strayKeys_withZeroValues {used : List String}
    (hused : ∀ g ∈ fields, ∀ key v,
      findField? .strict g (withZeroValues (fields.map c.descriptorOf) es) = some (key, v) → key ∈ used) :
    strayKeys used (withZeroValues (fields.map c.descriptorOf) es) = strayKeys used es := by
  have hzeros : strayKeys used (Value.textEntries (entriesFor fields (zeroIn c es))) = [] := by
    apply strayKeys_textEntries
    intro e he
    obtain ⟨g, hg, hkey, hzero⟩ := mem_entriesFor he
    refine hused g hg e.1 e.2 ?_
    rw [findField?_withZeroValues hapart hdescribed hg, hzero, hkey]
    rw [zeroIn_eq (hdescribed g hg)] at hzero
    split at hzero
    · rename_i hneeded
      rw [hneeded.2]
      rfl
    · cases hzero
  rw [withZeroValues_descriptors hapart hdescribed, strayKeys_append, hzeros, List.append_nil]

end completed

/-- Fields that contribute the same are filled into the same record, if the same keys are left over and the same are
broken. -/
theorem fillRecord_of_contributions (hstrict : m.strictness = .strict)
    (hcontributions : ∀ g ∈ m.fields, contribution c record .strict es' g = contribution c record .strict es g)
    (hbroken : (es'.any fun e => isBrokenKey e.1) = es.any fun e => isBrokenKey e.1)
    (hstray : ∀ used, (∀ key, key ∈ used ↔ ∃ g ∈ m.fields, ∃ v, findField? .strict g es = some (key, v)) →
      (∀ key, key ∈ used ↔ ∃ g ∈ m.fields, ∃ v, findField? .strict g es' = some (key, v)) →
      strayKeys used es' = strayKeys used es) :
    fillRecord c record m es' = fillRecord c record m es := by
  have hused := List.flatMap_congr fun g hg => congrArg Filling.used (hcontributions g hg)
  have hfilling := foldl_add_congr hcontributions
  have hkeys := hstray _ (fun key => mem_used_contributions) fun key => by rw [← hused]; exact mem_used_contributions
  have hfaults : strictFaults (m.fields.foldl (Filling.add c record .strict es) ⟨[], [], []⟩) es' =
      strictFaults (m.fields.foldl (Filling.add c record .strict es) ⟨[], [], []⟩) es := by
    rw [foldl_add_eq_contributions, strictFaults, strictFaults, hbroken]
    simp only [List.nil_append, hkeys]
  unfold fillRecord
  rw [hstrict]
  dsimp only
  rw [hfilling, hfaults]

/-- A document without a field and the one with its zero value are built into the same record, or refused for the
same faults. -/
theorem build_of_addsZero {name : String} (hm : c.model? name = some m) (hstrict : m.strictness = .strict)
    (hapart : m.fields.Pairwise Field.Apart)
    (hdescribed : ∀ g ∈ m.fields, c.describeField g = .ok (c.descriptorOf g)) (hf : f ∈ m.fields)
    (hfilled : (c.descriptorOf f).isFilled = true) (h : AddsZero (c.descriptorOf f) es es') :
    build c name (.dict es') = build c name (.dict es) := by
  have hfill : ∀ record, fillRecord c record m (withZeroValues (m.fields.map c.descriptorOf) es') =
      fillRecord c record m (withZeroValues (m.fields.map c.descriptorOf) es) := by
    intro record
    refine fillRecord_of_contributions hstrict
      (fun g hg => contribution_of_addsZero hapart hdescribed hf hfilled h hg) ?_ fun used hused hused' => ?_
    · rw [any_isBrokenKey_withZeroValues hapart hdescribed, any_isBrokenKey_withZeroValues hapart hdescribed,
        any_isBrokenKey_of_addsZero h]
    · have hown : (c.descriptorOf f).wireName ∈ used := by
        have hwire := (Catalogue.names_of_describeField (hdescribed f hf)).2.1
        have hfound := h.lookup_own
        rw [hwire] at hfound
        refine (hused' _).mpr ⟨f, hf, (c.descriptorOf f).zeroInDocument, ?_⟩
        rw [findField?_withZeroValues hapart hdescribed hf, findField?_strict, hfound, hwire]
        rfl
      rw [strayKeys_withZeroValues hapart hdescribed fun g hg key v hv => (hused key).mpr ⟨g, hg, v, hv⟩,
        strayKeys_withZeroValues hapart hdescribed fun g hg key v hv => (hused' key).mpr ⟨g, hg, v, hv⟩,
        strayKeys_of_addsZero h hown]
  have hcompleted : ∀ es, completed c m es = .ok (withZeroValues (m.fields.map c.descriptorOf) es) := by
    intro es
    rw [completed, hstrict]
    simp only [Catalogue.describe_of_forall hdescribed]
  unfold build maxDepth fitRecord
  simp only [hm, hcompleted, hfill]

end Shape

namespace Binding

open Shape

variable {c : Catalogue} {m : Model} {f g : Field} {fields : List Field} {d : Descriptor}
  {es es' kept : List (Value × Value)} {path : String}

/-- The fields of the model of a record that a field needs say what they are. -/
def IsDescribed (c : Catalogue) (d : Descriptor) : Prop :=
  d.optional = false → d.kind = .record → ∀ name inner, d.model = some name → c.model? name = some inner →
    ∃ ds, c.describe inner = .ok ds

/-- Nothing is found wrong in a record without entries. -/
theorem checkRecord_nil {name : String}
    (hinner : ∀ inner, c.model? name = some inner → ∃ ds, c.describe inner = .ok ds) :
    checkRecord c [] [] name path = .ok none := by
  have hnone : ∀ ds, checkFields [] [] path ds = .ok none := by
    intro ds
    induction ds with
    | nil => rfl
    | cons d rest ih => exact ih
  rw [checkRecord]
  split
  · rfl
  · rename_i inner hm
    obtain ⟨ds, hds⟩ := hinner inner hm
    rw [Action.describe_eq_ok hds, ok_bind, hnone]

/-- A record without entries is cleared of none. -/
theorem clearEntries_nil {name : String}
    (hinner : ∀ inner, c.model? name = some inner → ∃ ds, c.describe inner = .ok ds) :
    clearEntries c [] [] name = .ok [] := by
  have hnone : ∀ ds, clearFields [] [] ds = .ok [] := by
    intro ds
    induction ds with
    | nil => rfl
    | cons d rest ih => exact ih
  rw [clearEntries]
  split
  · rfl
  · rename_i inner hm
    obtain ⟨ds, hds⟩ := hinner inner hm
    rw [Action.describe_eq_ok hds, ok_bind, hnone]
    rfl

/-- The zero value of a field has the type of the field. -/
theorem check_zeroInDocument (hknown : IsDescribed c d) : check c d.zeroInDocument d d.kind path = .ok none := by
  unfold Descriptor.zeroInDocument
  split
  · rfl
  · rename_i hrequired
    have hinner := hknown (by simpa using hrequired)
    cases hkind : d.kind with
    | record =>
        cases hmodel : d.model with
        | none => simp [check, checkValue, hmodel, hasJsonType, jsonType, Value.isNull]
        | some name =>
            have hrecord : checkRecord c [] [] name (path ++ ".") = .ok none :=
              checkRecord_nil fun inner hm => hinner hkind name inner hmodel hm
            simp [check, checkEntries, checkValue, hmodel, hrecord, hasJsonType, jsonType, Value.isNull]
    | array =>
        cases helement : d.elementKind with
        | none => simp [check, checkValue, helement, hasJsonType, jsonType, Value.isNull]
        | some element => simp [check, checkValue, helement, hasJsonType, jsonType, Value.isNull, checkItems]
    | map =>
        cases helement : d.elementKind with
        | none => simp [check, checkValue, helement, hasJsonType, jsonType, Value.isNull]
        | some element => simp [check, checkValue, helement, hasJsonType, jsonType, Value.isNull, checkMembers]
    | _ => rfl

/-- The zero value of a field stays what it is when it is cleared. -/
theorem clearField_zeroInDocument (hknown : IsDescribed c d) :
    clearField d (clear c d.zeroInDocument) = .ok d.zeroInDocument := by
  unfold Descriptor.zeroInDocument
  split
  · unfold clearField
    split <;> rfl
  · rename_i hrequired
    have hinner := hknown (by simpa using hrequired)
    unfold clearField
    cases hmodel : d.model with
    | none => cases d.kind <;> rfl
    | some name =>
        cases hkind : d.kind with
        | record =>
            dsimp only
            rw [whole_clear_dict, clearEach, clearEntries_nil fun inner hm => hinner hkind name inner hmodel hm]
            rfl
        | _ => rfl

/-- A field that is called otherwise stands under the same key in both documents. -/
theorem keyOf_of_addsZero {e : Descriptor} (h : AddsZero d es es') (hwire : d.wireName ≠ e.wireName)
    (hname : d.wireName ≠ e.name) :
    keyOf e es' = keyOf e es ∧ Value.lookupText (keyOf e es) es' = Value.lookupText (keyOf e es) es := by
  have hkey : keyOf e es = e.wireName ∨ keyOf e es = e.name := by
    unfold keyOf
    split
    · exact .inl rfl
    · exact .inr rfl
  constructor
  · unfold keyOf
    rw [h.lookup_of_ne hwire]
  · rcases hkey with hkey | hkey <;> rw [hkey]
    · exact h.lookup_of_ne hwire
    · exact h.lookup_of_ne hname

/-- Without a field nothing stands under its name, and with its zero value that stands under its key. -/
theorem keyOf_own_of_addsZero (h : AddsZero d es es') :
    Value.lookupText (keyOf d es) es = none ∧ keyOf d es' = d.wireName ∧
      Value.lookupText (keyOf d es') es' = some d.zeroInDocument := by
  have hkey : keyOf d es' = d.wireName := by simp [keyOf, h.lookup_own]
  refine ⟨?_, hkey, ?_⟩
  · simp [keyOf, h.wire_missing, h.name_missing]
  · rw [hkey]
    exact h.lookup_own

/-- Where the zero value of a field is looked at, nothing is found wrong, and elsewhere the same is found. -/
theorem checkFields_of_addsZero {ds : List Descriptor} (h : AddsZero d es es') (hknown : IsDescribed c d)
    (hothers : ∀ e ∈ ds, e = d ∨ d.wireName ≠ e.wireName ∧ d.wireName ≠ e.name) :
    checkFields es' (checkEntries c es') path ds = checkFields es (checkEntries c es) path ds := by
  induction ds with
  | nil => rfl
  | cons e rest ih =>
      have hrest := ih fun other hother => hothers other (List.mem_cons_of_mem e hother)
      rw [checkFields, checkFields, lookupCheck_checkEntries, lookupCheck_checkEntries, hrest]
      rcases hothers e List.mem_cons_self with rfl | ⟨hwire, hname⟩
      · obtain ⟨hmissing, -, hgiven⟩ := keyOf_own_of_addsZero h
        rw [hmissing, hgiven]
        simp only [Option.map_some, Option.map_none, check_zeroInDocument hknown, orElse, ok_bind]
      · obtain ⟨hkey, hsame⟩ := keyOf_of_addsZero h hwire hname
        rw [hkey, hsame]

section apart

variable (hapart : fields.Pairwise Field.Apart) (hdescribed : ∀ g ∈ fields, c.describeField g = .ok (c.descriptorOf g))
  (hf : f ∈ fields)

include hapart hdescribed hf

/-- The other fields of a model are called otherwise. -/
theorem calledOtherwise (hg : g ∈ fields) (hne : g ≠ f) :
    (c.descriptorOf f).wireName ≠ (c.descriptorOf g).wireName ∧
      (c.descriptorOf f).wireName ≠ (c.descriptorOf g).name := by
  obtain ⟨hwires, hwireName, -, -⟩ := hapart.forall hf hg (Ne.symm hne)
  obtain ⟨-, hwire, -⟩ := Catalogue.names_of_describeField (hdescribed f hf)
  obtain ⟨hname, hwire', -⟩ := Catalogue.names_of_describeField (hdescribed g hg)
  rw [hwire, hwire', hname]
  exact ⟨hwires, hwireName⟩

/-- What is kept of the other fields is the same. -/
theorem keptIn_of_addsZero {gs : List Field} (h : AddsZero (c.descriptorOf f) es es')
    (hgs : ∀ g ∈ gs, g ∈ fields ∧ g ≠ f) : keptIn c gs es' = keptIn c gs es := by
  apply List.filterMap_congr
  intro g hg
  obtain ⟨hg, hne⟩ := hgs g hg
  obtain ⟨hwires, hwireName⟩ := calledOtherwise hapart hdescribed hf hg hne
  obtain ⟨hsameKey, hsame⟩ := keyOf_of_addsZero h hwires hwireName
  rw [clearedIn, clearedIn, hsameKey, hsame]

/-- What is kept of the two documents differs by the same zero value. -/
theorem addsZero_keptIn (h : AddsZero (c.descriptorOf f) es es') (hknown : IsDescribed c (c.descriptorOf f)) :
    AddsZero (c.descriptorOf f) (Value.textEntries (keptIn c fields es)) (Value.textEntries (keptIn c fields es')) := by
  obtain ⟨hname, hwire, -⟩ := Catalogue.names_of_describeField (hdescribed f hf)
  obtain ⟨hmissing, hkey, hgiven⟩ := keyOf_own_of_addsZero h
  have hnone : clearedIn c es f = none := by rw [clearedIn, hmissing, Option.bind_none]
  have hzero : clearedIn c es' f = some (c.descriptorOf f).zeroInDocument := by
    rw [clearedIn, hgiven, Option.bind_some, clearField_zeroInDocument hknown]
    rfl
  have hlookup : ∀ key, key = f.wireName ∨ key = f.name → (keptIn c fields es).lookup key = none := by
    intro key hcalled
    rw [lookup_keptIn hapart hdescribed hf hcalled, hnone]
    split <;> rfl
  have hothers : ∀ gs, (∀ g ∈ gs, g ∈ fields ∧ g ≠ f) → keptIn c gs es' = keptIn c gs es :=
    fun _ => keptIn_of_addsZero hapart hdescribed hf h
  obtain ⟨front, behind, rfl⟩ := List.append_of_mem hf
  have hnodup : (front ++ f :: behind).Nodup := hapart.imp fun hne heq => hne.1 (by rw [heq])
  rw [List.nodup_middle, List.nodup_cons, List.mem_append, not_or] at hnodup
  have hfront := hothers front fun g hg => ⟨List.mem_append_left _ hg, fun heq => hnodup.1.1 (heq ▸ hg)⟩
  have hbehind := hothers behind fun g hg =>
    ⟨List.mem_append_right _ (List.mem_cons_of_mem f hg), fun heq => hnodup.1.2 (heq ▸ hg)⟩
  have hsplit : keptIn c (front ++ f :: behind) es = keptIn c front es ++ keptIn c behind es := by
    simp [keptIn, hnone]
  have hsplit' : keptIn c (front ++ f :: behind) es' =
      keptIn c front es ++ ((c.descriptorOf f).wireName, (c.descriptorOf f).zeroInDocument) :: keptIn c behind es := by
    rw [← hfront, ← hbehind]
    simp [keptIn, hzero, hkey]
  rw [hsplit, hsplit', Value.textEntries_append, Value.textEntries_append, Value.textEntries_cons]
  rw [hsplit] at hlookup
  refine .intro _ _ ?_ ?_
  · rw [← Value.textEntries_append, Value.lookupText_textEntries, hwire]
    exact hlookup _ (.inl rfl)
  · rw [← Value.textEntries_append, Value.lookupText_textEntries, hname]
    exact hlookup _ (.inr rfl)

end apart

/-- In a document with the zero value of a field the same is found wrong as in the one without. -/
theorem jsonTypeMismatch_of_addsZero (hm : c.model? m.name = some m) (hapart : m.fields.Pairwise Field.Apart)
    (hdescribed : ∀ g ∈ m.fields, c.describeField g = .ok (c.descriptorOf g)) (hf : f ∈ m.fields)
    (hknown : IsDescribed c (c.descriptorOf f)) (h : AddsZero (c.descriptorOf f) es es') :
    jsonTypeMismatch c m.name es' "" = jsonTypeMismatch c m.name es "" := by
  unfold jsonTypeMismatch checkRecord
  simp only [hm, Action.describe_eq_ok (Catalogue.describe_of_forall hdescribed), ok_bind]
  refine checkFields_of_addsZero h hknown fun e he => ?_
  obtain ⟨g, hg, rfl⟩ := List.mem_map.mp he
  by_cases hgf : g = f
  · exact .inl (by rw [hgf])
  · exact .inr (calledOtherwise hapart hdescribed hf hg hgf)

/-- A document without a field is bound as the one with its zero value. -/
theorem outcome_bindDocument_of_addsZero {o : BodyOptions} (hjson : o.jsonTypes = true)
    (hm : c.model? m.name = some m) (hstrict : m.strictness = .strict) (hapart : m.fields.Pairwise Field.Apart)
    (hdescribed : ∀ g ∈ m.fields, c.describeField g = .ok (c.descriptorOf g)) (hf : f ∈ m.fields)
    (hfilled : (c.descriptorOf f).isFilled = true) (hknown : IsDescribed c (c.descriptorOf f))
    (h : AddsZero (c.descriptorOf f) es es') (j : Journal) :
    (bindDocument c m o (.dict es')).outcome j = (bindDocument c m o (.dict es)).outcome j := by
  have hmismatch := jsonTypeMismatch_of_addsZero hm hapart hdescribed hf hknown h
  cases hfound : jsonTypeMismatch c m.name es "" with
  | error fault =>
      simp only [bindDocument, hjson, ↓reduceIte, hmismatch, hfound]
      rfl
  | ok mismatch =>
      cases mismatch with
      | some reason =>
          simp only [bindDocument, hjson, ↓reduceIte, hmismatch, hfound]
          rfl
      | none =>
          rw [hfound] at hmismatch
          by_cases hall : o.strict = true
          · have hbuilt : ∀ es, builtFrom c m o es = .ok es := fun es => by rw [builtFrom, if_pos hall]
            rw [outcome_bindDocument hjson hmismatch (hbuilt es'), outcome_bindDocument hjson hfound (hbuilt es),
              build_of_addsZero hm hstrict hapart hdescribed hf hfilled h]
          · obtain ⟨kept, hkept⟩ := exists_knownKeys hfound
            obtain ⟨kept', hkept'⟩ := exists_knownKeys hmismatch
            have hbuilt : ∀ es, builtFrom c m o es = knownKeys c m.name es := fun es => by rw [builtFrom, if_neg hall]
            rw [outcome_bindDocument hjson hmismatch ((hbuilt es').trans hkept'),
              outcome_bindDocument hjson hfound ((hbuilt es).trans hkept)]
            obtain ⟨-, -, -, rfl⟩ := clearEntries_eq_ok hm hapart hkept
            obtain ⟨-, -, -, rfl⟩ := clearEntries_eq_ok hm hapart hkept'
            rw [build_of_addsZero hm hstrict hapart hdescribed hf hfilled
              (addsZero_keptIn hapart hdescribed hf h hknown)]

/-- Where the fields of a model do not say what they are, no document is bound. -/
theorem outcome_bindDocument_of_undescribed {o : BodyOptions} {e : UnknownSource} (hjson : o.jsonTypes = true)
    (hm : c.model? m.name = some m) (hundescribed : c.describe m = .error e) (j : Journal) :
    (bindDocument c m o (.dict es)).outcome j = (.error (.unknownSource e), j) := by
  have hmismatch : jsonTypeMismatch c m.name es "" = .error (.unknownSource e) := by
    simp only [jsonTypeMismatch, checkRecord, hm, Action.describe, hundescribed]
    rfl
  simp only [bindDocument, hjson, ↓reduceIte, hmismatch]
  rfl

/-- A body in which a field is missing is bound as the body with its zero value, in every way: to the same record and
errors or to the same refusal, with the same notes. -/
theorem bindJson_of_missing {r r' : Request} (hm : c.model? m.name = some m) (hstrict : m.strictness = .strict)
    (hapart : m.fields.Pairwise Field.Apart) (hf : f ∈ m.fields) (hd : c.describeField f = .ok d)
    (hfilled : d.isFilled = true) (hknown : IsDescribed c d) (h : AddsZero d es es')
    (hbody : Json.ofBytes r.body = .ok (.dict es)) (hbody' : Json.ofBytes r'.body = .ok (.dict es'))
    (validate : Bool) (strict : Except Fault Bool) (j : Journal) :
    (bindJson c m r' validate strict).outcome j = (bindJson c m r validate strict).outcome j := by
  obtain rfl := Catalogue.descriptorOf_eq hd
  cases strict with
  | error fault =>
      simp only [bindJson, hbody, hbody']
      rfl
  | ok strict =>
      rw [outcome_bindJson hbody', outcome_bindJson hbody]
      cases hds : c.describe m with
      | error e => rw [outcome_bindDocument_of_undescribed rfl hm hds, outcome_bindDocument_of_undescribed rfl hm hds]
      | ok ds =>
          have hdescribed := (Catalogue.describe_eq_map hds).2
          exact outcome_bindDocument_of_addsZero rfl hm hstrict hapart hdescribed hf hfilled hknown h j

/-! ### A meeting, and a meeting at a place that cannot be described -/

def meetingModel : Model := plainModel "Meeting" [plainField "id" .int, plainField "place" (.record "Place")]

/-- Meetings at places. -/
def meetingCatalogue : Catalogue := ⟨[meetingModel, plainModel "Place" [plainField "street" .str]], []⟩

def meeting : Value := .record "Meeting" [("id", .int 7), ("place", .record "Place" [("street", .text "")])]

/-- A meeting without a place is bound as one at the empty place, with and without unknown keys. -/
theorem bindJson_of_missing_meeting :
    (bindJson meetingCatalogue meetingModel (posting r#"{"id":7}"#) true (.ok true)).outcome .empty =
        (.ok (.ok ⟨meeting, []⟩), .empty) ∧
      ∀ strict,
        (bindJson meetingCatalogue meetingModel (posting r#"{"id":7,"place":{}}"#) true (.ok strict)).outcome .empty =
          (bindJson meetingCatalogue meetingModel (posting r#"{"id":7}"#) true (.ok strict)).outcome .empty := by
  have hbody : Json.ofBytes (posting r#"{"id":7}"#).body = .ok (.dict (Value.textEntries [("id", .int 7)])) :=
    ofBytes_posting (by decide +kernel) (by cbv)
  have hbody' : Json.ofBytes (posting r#"{"id":7,"place":{}}"#).body =
      .ok (.dict (Value.textEntries [("id", .int 7), ("place", .dict [])])) :=
    ofBytes_posting (by decide +kernel) (by cbv)
  have hadds : AddsZero (meetingCatalogue.descriptorOf (plainField "place" (.record "Place")))
      (Value.textEntries [("id", .int 7)]) (Value.textEntries [("id", .int 7), ("place", .dict [])]) :=
    .intro (Value.textEntries [("id", .int 7)]) [] (by cbv) (by cbv)
  refine ⟨by rw [outcome_bindJson hbody]; cbv, fun strict => ?_⟩
  refine bindJson_of_missing rfl rfl (by decide) (List.mem_cons_of_mem _ List.mem_cons_self) rfl rfl ?_ hadds hbody
    hbody' true (.ok strict) .empty
  rintro - - name inner hname hinner
  obtain rfl := Option.some.inj hname
  obtain rfl := Option.some.inj hinner
  exact ⟨_, rfl⟩

/-- A place whose street is read from a part of the request that there is not. -/
def lostModel : Model := plainModel "Lost" [plainField "place" (.record "Nowhere")]

def lostCatalogue : Catalogue :=
  ⟨[lostModel, plainModel "Nowhere"
    [{ plainField "street" .str with annotations := { Annotations.none with source := some "nowhere" } }]], []⟩

theorem build_lost : build lostCatalogue "Lost" (.dict []) =
    .error [⟨[.key "place"], .valueError "'nowhere' is not a valid BindSource"⟩] := by
  cbv

/-- Where the place cannot be described, a document without it is refused, and one with an empty place is a fault. -/
theorem bindJson_differs_on_undescribed :
    ((bindJson lostCatalogue lostModel (posting "{}") true (.ok true)).outcome .empty).1 =
        .ok (.error (shapeFailure lostModel "bind.json"
          [⟨[.key "place"], .valueError "'nowhere' is not a valid BindSource"⟩])) ∧
      ((bindJson lostCatalogue lostModel (posting r#"{"place":{}}"#) true (.ok true)).outcome .empty).1 =
        .error (.unknownSource ⟨"nowhere"⟩) := by
  have hbody : Json.ofBytes (posting "{}").body = .ok (.dict []) := ofBytes_posting (by decide +kernel) (by cbv)
  have hbody' : Json.ofBytes (posting r#"{"place":{}}"#).body = .ok (.dict (Value.textEntries [("place", .dict [])])) :=
    ofBytes_posting (by decide +kernel) (by cbv)
  have hmismatch : jsonTypeMismatch lostCatalogue lostModel.name [] "" = .ok none := by cbv
  constructor
  · have hbuild : build lostCatalogue lostModel.name (.dict []) = _ := build_lost
    rw [outcome_bindJson hbody, outcome_bindDocument rfl hmismatch (rfl : builtFrom _ _ _ [] = .ok []), hbuild]
    rfl
  · rw [outcome_bindJson hbody']
    cbv

end Binding
end Intake
