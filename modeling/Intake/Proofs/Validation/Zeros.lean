import Intake.Proofs.Validation.Emptiness
import Intake.Proofs.Validation.Kinds

/-!
Zero values in documents. A document is completed for every field of which it holds nothing, though what is found
for the field then may stand there for another one. Whichever zero value that is, a field takes it as the zero value
of its own kind or not at all.
-/

namespace Intake

open Shape

variable {c : Catalogue}

/-! ### What is found for a field -/

/-- What is found for a field stands under a key of the field. -/
theorem Shape.lookup_of_findField? {strictness : Strictness} {f : Field} {es : List (Value × Value)} {key : String}
    {v : Value} (h : findField? strictness f es = some (key, v)) :
    key ∈ keysOf strictness f ∧ Value.lookupText key es = some v := by
  obtain ⟨other, hother, hfound⟩ := List.exists_of_findSome?_eq_some h
  obtain ⟨w, hw, hpair⟩ := Option.map_eq_some_iff.mp hfound
  obtain ⟨rfl, rfl⟩ := Prod.mk.inj hpair
  exact ⟨hother, hw⟩

/-- What stands under a key of a completed document stands there anyway, or it is the zero value of a field with the
key. -/
theorem lookup_withZeroValues {ds : List Descriptor} {es : List (Value × Value)} {key : String} {v : Value}
    (h : Value.lookupText key (withZeroValues ds es) = some v) :
    Value.lookupText key es = some v ∨ ∃ d ∈ ds, d.wireName = key ∧ d.zero = v := by
  rw [withZeroValues_eq_append, Value.lookupText_append] at h
  rcases Option.or_eq_some_iff.mp h with hgiven | ⟨-, hfilled⟩
  · exact .inl hgiven
  · obtain ⟨e, he, hkey, hvalue⟩ := Value.exists_mem_of_lookupText hfilled
    obtain ⟨d, hd, rfl⟩ := List.mem_map.mp he
    have hlacking := (Descriptor.uncovered_sublist _).subset hd
    exact .inr ⟨d, (List.mem_filter.mp hlacking).1, Option.some.inj hkey, hvalue⟩

/-- Where a completed document holds something for a field and the document does not, it is the zero value of a field
with a key of that field. -/
theorem exists_zero_of_missing {fields : List Field} {f : Field} {es : List (Value × Value)} {key : String} {w : Value}
    (hdescribed : ∀ g ∈ fields, c.describeField g = .ok (c.descriptorOf g)) (hnone : findField? .strict f es = none)
    (hfound : findField? .strict f (withZeroValues (fields.map c.descriptorOf) es) = some (key, w)) :
    ∃ g ∈ fields, (g.wireName = f.wireName ∨ g.wireName = f.name) ∧ (c.descriptorOf g).zero = w := by
  obtain ⟨hkey, hw⟩ := lookup_of_findField? hfound
  rcases lookup_withZeroValues hw with hgiven | ⟨d, hd, hwire, hzero⟩
  · have hmissing := List.findSome?_eq_none_iff.mp hnone key hkey
    rw [hgiven] at hmissing
    cases hmissing
  · obtain ⟨g, hg, rfl⟩ := List.mem_map.mp hd
    rw [(Catalogue.names_of_describeField (hdescribed g hg)).2.1] at hwire
    refine ⟨g, hg, ?_, hzero⟩
    rw [hwire]
    unfold keysOf at hkey
    dsimp only at hkey
    split at hkey
    · exact .inr (List.mem_singleton.mp hkey)
    · simpa using hkey

/-- A field without a default and without a fault holds what it takes of something that is found for it. -/
theorem exists_taken {record : String → Value → Fitted} {strictness : Strictness} {whole : List (Value × Value)}
    {f : Field} (hrecord : ∀ name v, SaysWhy (record name v)) (hbare : f.default = none)
    (hfaults : (contribution c record strictness whole f).faults = []) :
    ∃ v key w, settled c record strictness whole f = some v ∧ findField? strictness f whole = some (key, w) ∧
      Takes c record f w v := by
  cases hfound : findField? strictness f whole with
  | none => simp [contribution, Filling.add, hfound, hbare] at hfaults
  | some found =>
      obtain ⟨key, w⟩ := found
      obtain ⟨v, fit, hfit, hv⟩ := (faults_eq_nil_iff_of_found hrecord hfound).mp hfaults
      refine ⟨v, key, w, ?_, rfl, fit, hfit, hv⟩
      simp [settled, hfound, hfit, Except.toOption, hv]

/-- A record that is built by a model without defaults has all attributes, and each is what comes of something that is
found for the field in the completed document. -/
theorem exists_values_of_fitRecord {m : Model} {fuel : Nat} {name : String} {es : List (Value × Value)} {r : Fit}
    (hm : c.model? name = some m) (hmodel : m.IsFillable c) (h : fitRecord c (fuel + 1) name (.dict es) = .ok r) :
    c.describe m = .ok (m.fields.map c.descriptorOf) ∧
      ∃ value : Field → Value, r.value = .record m.name (m.fields.map fun f => (f.name, value f)) ∧
        ∀ f ∈ m.fields, ∃ key w,
          findField? .strict f (withZeroValues (m.fields.map c.descriptorOf) es) = some (key, w) ∧
            Takes c (fitRecord c fuel) f w (value f) := by
  simp only [fitRecord, hm, completed, hmodel.strict] at h
  cases hdescribe : c.describe m with
  | error e =>
      rw [hdescribe] at h
      cases h
  | ok ds =>
      obtain ⟨rfl, -⟩ := Catalogue.describe_eq_map hdescribe
      rw [hdescribe] at h
      dsimp only at h
      obtain ⟨hvalue, hfaults⟩ := contributions_of_fillRecord h
      rw [hmodel.strict] at hvalue hfaults
      generalize withZeroValues (m.fields.map c.descriptorOf) es = whole at hvalue hfaults ⊢
      have hsettled : ∀ f ∈ m.fields, ∃ v key w, settled c (fitRecord c fuel) .strict whole f = some v ∧
          findField? .strict f whole = some (key, w) ∧ Takes c (fitRecord c fuel) f w v := fun f hf =>
        exists_taken (saysWhy_fitRecord fuel) (hmodel.bare f hf) (hfaults f hf)
      refine ⟨rfl, fun f => (settled c (fitRecord c fuel) .strict whole f).getD .null, ?_, ?_⟩
      · rw [hvalue]
        congr 1
        simp only [attributes_contribution]
        rw [← List.filterMap_eq_flatMap_toList, ← List.filterMap_eq_map]
        apply List.filterMap_congr
        intro f hf
        obtain ⟨v, -, -, hv, -⟩ := hsettled f hf
        simp [hv]
      · intro f hf
        obtain ⟨v, key, w, hv, hfound, htakes⟩ := hsettled f hf
        exact ⟨key, w, hfound, by simpa [hv] using htakes⟩

/-! ### What a zero value is taken as -/

/-- What a missing key stands for where the kinds of fields have one zero value. -/
inductive IsPlainZero : Value → Prop where
  | null : IsPlainZero .null
  | text : IsPlainZero (.text "")
  | int : IsPlainZero (.int 0)
  | bool : IsPlainZero (.bool false)
  | uuid : IsPlainZero (.uuid Uuid.nil)
  | list : IsPlainZero (.list [])
  | dict : IsPlainZero (.dict [])

theorem Descriptor.isPlainZero_zero {d : Descriptor} (hkind : d.kind.hasOneZero = true) : IsPlainZero d.zero := by
  unfold zero
  split
  · exact .null
  · cases hd : d.kind with
    | string => exact .text
    | integer => exact .int
    | boolean => exact .bool
    | uuid => exact .uuid
    | array => exact .list
    | map | record => exact .dict
    | float | moment | any =>
        rw [hd] at hkind
        cases hkind

variable {v w : Value} {fitness : Fitness}

theorem fitText_of_isPlainZero (hw : IsPlainZero w) (h : fitText w = .ok (v, fitness)) : v = .text "" := by
  cases hw <;> first | cases h; rfl | cases h

theorem fitInt_of_isPlainZero (hw : IsPlainZero w) (h : fitInt w = .ok (v, fitness)) : v = .int 0 := by
  cases hw <;> first | cases h; rfl | cases h

theorem fitBool_of_isPlainZero (hw : IsPlainZero w) (h : fitBool w = .ok (v, fitness)) : v = .bool false := by
  cases hw <;> first | cases h; rfl | cases h

theorem fitUuid_of_isPlainZero (hw : IsPlainZero w) (h : fitUuid w = .ok (v, fitness)) : v = .uuid Uuid.nil := by
  cases hw <;> first | cases h; rfl | cases h

/-- What is found among the values of an enumeration is a member with the value that was looked for. -/
theorem exists_member_of_find? {e : Enumeration} {p : Value → Bool} {value found : Value}
    (hp : ∀ m ∈ e.members, p (.member e.name m.1 e.base m.2) = isChoice value m.2)
    (hfind : e.values.find? p = some found) :
    ∃ m ∈ e.members, found = .member e.name m.1 e.base m.2 ∧ value.same m.2 = true := by
  obtain ⟨m, hm, rfl⟩ := List.mem_map.mp (List.mem_of_find?_eq_some hfind)
  have hchoice : isChoice value m.2 = true := by
    rw [← hp m hm]
    exact List.find?_some hfind
  exact ⟨m, hm, rfl, (Bool.and_eq_true_iff.mp hchoice).2⟩

/-- A zero value that is taken as a member of an enumeration is taken as one that counts as nothing. -/
theorem isZero_of_fitMember {e : Enumeration} (he : e.IsSound) (hkind : e.kind ≠ .any) (hw : IsPlainZero w)
    (h : fitMember e w = .ok (v, fitness)) : Validation.isZeroScalar e.kind v = .ok true := by
  unfold fitMember at h
  dsimp only at h
  split at h
  · cases hw
  · split at h
    · rename_i hbase
      split at h
      · rename_i hfit
        rw [fitText_of_isPlainZero hw hfit] at h
        split at h
        · obtain ⟨m, hm, rfl, hsame⟩ := exists_member_of_find? (fun _ _ => rfl) ‹_›
          obtain ⟨s, hs⟩ : ∃ s, m.2 = .text s := by simpa [hbase] using he m hm
          rw [hs, Value.same_text] at hsame
          obtain rfl := congrArg Prod.fst (Except.ok.inj h)
          rw [hs, hbase, ← eq_of_beq hsame]
          simp [Enumeration.kind, hbase, Validation.isZeroScalar, Value.isNull, Validation.length, Value.text?,
            Except.map]
        · cases h
      · cases h
    · rename_i hbase
      split at h
      · rename_i hfit
        rw [fitInt_of_isPlainZero hw hfit] at h
        split at h
        · obtain ⟨m, hm, rfl, hsame⟩ := exists_member_of_find? (fun _ _ => rfl) ‹_›
          obtain ⟨i, hi⟩ : ∃ i, m.2 = .int i := by simpa [hbase] using he m hm
          rw [hi] at hsame
          simp only [Value.same, Value.sameScalar, Value.size?, Value.Size.same, beq_iff_eq] at hsame
          obtain rfl := congrArg Prod.fst (Except.ok.inj h)
          rw [hi, hbase, ← hsame]
          simp [Enumeration.kind, hbase, Validation.isZeroScalar, Value.isNull, Value.same, Value.sameScalar,
            Value.size?, Value.Size.same]
        · cases h
      · cases h
    · rename_i hbase
      exact absurd (by rw [Enumeration.kind, hbase]) hkind

variable {fuel : Nat} {t : Ty}

theorem exists_of_ofScalar {outcome : Outcome} {r : Fit} (h : ofScalar outcome = .ok r) :
    ∃ fitness, outcome = .ok (r.value, fitness) := by
  cases outcome with
  | ok found =>
      obtain rfl := Except.ok.inj h
      exact ⟨found.2, rfl⟩
  | error problem => cases h

/-- The items of a row without items, taken as another row, are none. -/
theorem items_of_no_items {record : String → Value → Fitted} (hkind : c.kindOf t = .array) (hw : w.items? = some [])
    (h : FitsAs c record t w v) : v.items? = some [] := by
  obtain ⟨r, hr, rfl⟩ := h
  cases t with
  | bareList | bareTuple | list | sequence =>
      simp only [fit, hw, fitItems] at hr
      obtain rfl := Except.ok.inj hr
      rfl
  | bareSet frozen | set frozen item =>
      simp only [fit, hw, fitItems] at hr
      obtain rfl := Except.ok.inj hr
      rfl
  | tuple items =>
      simp only [fit, hw] at hr
      obtain ⟨fits, hfits, rfl⟩ := exists_of_map_eq_ok hr
      cases items with
      | nil =>
          simp only [fitEach] at hfits
          obtain rfl := Except.ok.inj hfits
          rfl
      | cons first rest =>
          simp only [fitEach] at hfits
          split at hfits <;> cases hfits
  | enumeration name => rcases Catalogue.kindOf_enumeration c name with h | h | h <;> rw [h] at hkind <;> cases hkind
  | _ => cases hkind

/-- A zero value that is taken as a row is taken as one without items. -/
theorem isZero_of_row {record : String → Value → Fitted} (harray : c.kindOf t = .array) (hw : IsPlainZero w)
    (h : FitsAs c record t w v) : Validation.isZero c v (c.kindOf t) = .ok true := by
  obtain ⟨xs, -, hxs, -⟩ := row_of_fitsAs harray h
  obtain rfl : xs = [] := by
    cases hw <;> cases hxs
    rfl
  have hnone := items_of_no_items harray hxs h
  have hnull : v.isNull = false := by cases v <;> first | rfl | cases hnone
  rw [Validation.isZero_of_not_record (.inl (by simp [harray])), harray, Validation.isZeroScalar, hnull]
  simp [Validation.length_of_items? hnone, Except.map]

theorem isZero_of_enumeration {record : String → Value → Fitted} {name : String} (hc : c.HasSoundEnumerations)
    (hkind : (c.kindOf (.enumeration name)).hasOneZero = true) (hw : IsPlainZero w)
    (h : FitsAs c record (.enumeration name) w v) :
    Validation.isZero c v (c.kindOf (.enumeration name)) = .ok true := by
  obtain ⟨r, hr, rfl⟩ := h
  cases hfind : c.enumeration? name with
  | none => simp [Catalogue.kindOf, hfind, Kind.hasOneZero] at hkind
  | some e =>
      simp only [fit, hfind] at hr
      simp only [Catalogue.kindOf, hfind] at hkind ⊢
      obtain ⟨_, hfit⟩ := exists_of_ofScalar hr
      have hany : e.kind ≠ .any := fun h => by rw [h] at hkind; cases hkind
      have hrecord : e.kind ≠ .record := by
        unfold Enumeration.kind
        cases e.base <;> simp
      rw [Validation.isZero_of_not_record (.inl hrecord)]
      exact isZero_of_fitMember (hc e (List.mem_of_find?_eq_some hfind)) hany hw hfit

/-- A zero value, taken as a value of a type whose kind has one zero value, counts as nothing, if that is so of the
records that are built from nothing. -/
theorem isZero_of_fitsAs (hc : c.HasSoundEnumerations) (hkind : (c.kindOf t).hasOneZero = true) (hw : IsPlainZero w)
    (hinner : ∀ inner r, t = .record inner → fitRecord c fuel inner (.dict []) = .ok r →
      Validation.isZero c r.value .record = .ok true)
    (h : FitsAs c (fitRecord c fuel) t w v) : Validation.isZero c v (c.kindOf t) = .ok true := by
  have htaken := h
  obtain ⟨r, hr, rfl⟩ := h
  have hscalar : ∀ {kind : Kind} {zero : Value}, kind ≠ .record → r.value = zero →
      Validation.isZeroScalar kind zero = .ok true → Validation.isZero c r.value kind = .ok true := by
    rintro kind zero hkind rfl hzero
    rw [Validation.isZero_of_not_record (.inl hkind)]
    exact hzero
  cases t with
  | str =>
      obtain ⟨_, hfit⟩ := exists_of_ofScalar hr
      exact hscalar (by simp [Catalogue.kindOf]) (fitText_of_isPlainZero hw hfit) rfl
  | int =>
      obtain ⟨_, hfit⟩ := exists_of_ofScalar hr
      exact hscalar (by simp [Catalogue.kindOf]) (fitInt_of_isPlainZero hw hfit) (by
        simp [Catalogue.kindOf, Validation.isZeroScalar, Value.isNull, Value.same, Value.sameScalar, Value.size?,
          Value.Size.same])
  | bool =>
      obtain ⟨_, hfit⟩ := exists_of_ofScalar hr
      exact hscalar (by simp [Catalogue.kindOf]) (fitBool_of_isPlainZero hw hfit) rfl
  | uuid =>
      obtain ⟨_, hfit⟩ := exists_of_ofScalar hr
      exact hscalar (by simp [Catalogue.kindOf]) (fitUuid_of_isPlainZero hw hfit) (by
        simp [Catalogue.kindOf, Validation.isZeroScalar, Value.isNull, Value.same, Value.sameScalar, Value.size?,
          Value.text?])
  | record name =>
      simp only [fit] at hr
      obtain rfl : w = .dict [] := by
        cases fuel with
        | zero => cases hr
        | succ fuel => cases hw <;> first | rfl | (simp [fitRecord, refuse] at hr)
      exact hinner name r rfl hr
  | bareDict | dict key value =>
      cases hw <;> cases hr
      rfl
  | enumeration name => exact isZero_of_enumeration hc hkind hw htaken
  | bareList | bareTuple | bareSet | list | set | tuple | sequence => exact isZero_of_row rfl hw htaken
  | _ => cases hkind

end Intake
