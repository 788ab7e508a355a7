import Intake.Proofs.Model.Description
import Intake.Proofs.Model.Zero
import Intake.Proofs.Shape.Fit
import Mathlib.Data.List.Pairwise

/-!
Records built from documents, field by field. A document that holds something for some fields of a model
and nothing else is completed with the zero values of the others, and the record that is built from it
has in every field what comes of what stands there.
-/

namespace Intake

/-- No two fields are called by the same name, be it the key in documents or the attribute. -/
def Field.Apart (f g : Field) : Prop :=
  f.wireName ≠ g.wireName ∧ f.wireName ≠ g.name ∧ f.name ≠ g.wireName ∧ f.name ≠ g.name

instance (f g : Field) : Decidable (f.Apart g) := inferInstanceAs (Decidable (_ ∧ _ ∧ _ ∧ _))

theorem Field.Apart.symm {f g : Field} (h : f.Apart g) : g.Apart f :=
  ⟨h.1.symm, h.2.2.1.symm, h.2.1.symm, h.2.2.2.symm⟩

instance : Std.Symm Field.Apart := ⟨fun _ _ => Field.Apart.symm⟩

/-- What a record holds for a field, if the names of its fields are different. -/
theorem lookup_fields {fields : List Field} (value : Field → Value) (hnames : (fields.map Field.name).Nodup) {f : Field}
    (hf : f ∈ fields) : (fields.map fun f => (f.name, value f)).lookup f.name = some (value f) := by
  have hkeys : ((fields.map fun f => (f.name, value f)).map Prod.fst).Nodup := by
    rw [List.map_map]
    exact hnames
  exact (lookup_eq_some_iff_mem hkeys).mpr (List.mem_map.mpr ⟨f, hf, rfl⟩)

namespace Shape

/-- What a document holds for some of the fields, under their keys. -/
def entriesFor (fields : List Field) (found : Field → Option Value) : List (String × Value) :=
  fields.filterMap fun f => (found f).map (f.wireName, ·)

/-- What comes of what is found for a field: it fits as the value; where nothing is found, the zero value
does, or the value is the default. -/
def Settles (c : Catalogue) (record : String → Value → Fitted) (f : Field) (v : Value) : Option Value → Prop
  | some w => Takes c record f w v
  | none =>
    if (c.descriptorOf f).isFilled then Takes c record f (c.descriptorOf f).zero v
    else ∃ d, f.default = some d ∧ d.get = v

/-- A required field of which nothing is found gets what comes of the zero value of its kind. -/
theorem settles_of_required {c : Catalogue} {record : String → Value → Fitted} {f : Field} {v : Value} {kind : Kind}
    (hd : c.describeField f = .ok (c.descriptorOf f)) (hrequired : f.type.unwrap.2 = false)
    (hdefault : f.default = none) (hkind : (c.descriptorOf f).kind = kind) (hany : kind ≠ .any)
    (htakes : Takes c record f (kind.zero?.getD .null) v) : Settles c record f v none := by
  obtain ⟨hfilled, hzero⟩ := Catalogue.isFilled_of_required hd hrequired hdefault (by rw [hkind]; exact hany)
  simp only [Settles, hfilled, ↓reduceIte]
  rw [hzero, hkind]
  exact htakes

/-- A document completed with zero values: they follow what stands there, in the order of the fields. -/
theorem withZeroValues_eq {ds : List Descriptor}
    (hapart : ds.Pairwise fun d e => d.wireName ≠ e.wireName ∧ d.wireName ≠ e.name)
    (es : List (Value × Value)) :
    withZeroValues ds es = es ++ Value.textEntries ((ds.filter (needsZero es)).map fun d => (d.wireName, d.zero)) := by
  have hfree : (ds.filter (needsZero es)).Pairwise fun d e => ¬ d.Covers e :=
    (hapart.filter _).imp fun h => not_or.mpr h
  rw [withZeroValues_eq_append, Descriptor.uncovered_eq_self_iff.mpr hfree, Value.textEntries, List.map_map]
  rfl

variable {c : Catalogue} {fields : List Field} {found : Field → Option Value}

theorem entriesFor_cons_of_some {f : Field} {w : Value} (hw : found f = some w) :
    entriesFor (f :: fields) found = (f.wireName, w) :: entriesFor fields found := by
  simp [entriesFor, hw]

theorem entriesFor_cons_of_none {f : Field} (hw : found f = none) :
    entriesFor (f :: fields) found = entriesFor fields found := by
  simp [entriesFor, hw]

theorem mem_entriesFor {e : String × Value} (he : e ∈ entriesFor fields found) :
    ∃ f ∈ fields, e.1 = f.wireName ∧ found f = some e.2 := by
  obtain ⟨f, hf, hfound⟩ := List.mem_filterMap.mp he
  obtain ⟨w, hw, rfl⟩ := Option.map_eq_some_iff.mp hfound
  exact ⟨f, hf, rfl, hw⟩

theorem lookup_entriesFor_of_ne {key : String} (hkey : ∀ f ∈ fields, f.wireName ≠ key) :
    (entriesFor fields found).lookup key = none := by
  apply List.lookup_eq_none_iff.mpr
  intro e he
  obtain ⟨f, hf, hwire, -⟩ := mem_entriesFor he
  rw [hwire]
  exact bne_iff_ne.mpr fun h => hkey f hf h.symm

theorem nodup_wireNames (hapart : fields.Pairwise Field.Apart) : (fields.map Field.wireName).Nodup :=
  List.pairwise_map.mpr (hapart.imp fun h => h.1)

/-- Under the key of a field stands what was found for it. -/
theorem lookup_entriesFor {f : Field} (hapart : fields.Pairwise Field.Apart) (hf : f ∈ fields) :
    (entriesFor fields found).lookup f.wireName = found f :=
  lookup_filterMap (nodup_wireNames hapart) hf

/-- Under the attribute of a field stands nothing, unless it is its key. -/
theorem lookup_entriesFor_name {f : Field} (hapart : fields.Pairwise Field.Apart) (hf : f ∈ fields)
    (hname : f.name ≠ f.wireName) : (entriesFor fields found).lookup f.name = none := by
  apply lookup_entriesFor_of_ne
  intro g hg h
  by_cases hsame : g = f
  · exact hname (by rw [← h, hsame])
  · have happart := hapart.forall hg hf hsame
    exact happart.2.1 h

/-- The document that holds something for some fields has every key once. -/
theorem nodup_entriesFor (hapart : fields.Pairwise Field.Apart) : ((entriesFor fields found).map Prod.fst).Nodup :=
  sublist_keys_filterMap.nodup (nodup_wireNames hapart)

/-- The zero value that a document is completed with for a field, if it is. -/
def zeroIn (c : Catalogue) (es : List (Value × Value)) (f : Field) : Option Value :=
  if needsZero es (c.descriptorOf f) then some (c.descriptorOf f).zero else none

/-- A document completed for the fields of a model. -/
theorem withZeroValues_descriptors (hapart : fields.Pairwise Field.Apart)
    (hdescribed : ∀ f ∈ fields, c.describeField f = .ok (c.descriptorOf f)) (es : List (Value × Value)) :
    withZeroValues (fields.map c.descriptorOf) es = es ++ Value.textEntries (entriesFor fields (zeroIn c es)) := by
  have hnames : ∀ f ∈ fields, (c.descriptorOf f).name = f.name ∧ (c.descriptorOf f).wireName = f.wireName := by
    intro f hf
    have h := Catalogue.names_of_describeField (hdescribed f hf)
    exact ⟨h.1, h.2.1⟩
  have hpairs : (fields.map c.descriptorOf).Pairwise fun d e => d.wireName ≠ e.wireName ∧ d.wireName ≠ e.name := by
    rw [List.pairwise_map]
    apply hapart.imp_of_mem
    intro f g hf hg h
    rw [(hnames f hf).2, (hnames g hg).1, (hnames g hg).2]
    exact ⟨h.1, h.2.1⟩
  rw [withZeroValues_eq hpairs]
  clear hpairs hapart hdescribed
  congr 2
  induction fields with
  | nil => rfl
  | cons f rest ih =>
      have hrest := ih fun g hg => hnames g (List.mem_cons_of_mem f hg)
      rw [List.map_cons]
      by_cases hneed : needsZero es (c.descriptorOf f) = true
      · have hzero : zeroIn c es f = some (c.descriptorOf f).zero := if_pos hneed
        rw [List.filter_cons_of_pos hneed, List.map_cons, hrest, (hnames f List.mem_cons_self).2,
          entriesFor_cons_of_some hzero]
      · have hzero : zeroIn c es f = none := if_neg hneed
        rw [List.filter_cons_of_neg hneed, hrest, entriesFor_cons_of_none hzero]

/-- A plain model looks for a field under its key. -/
theorem findField?_plain (f : Field) (es : List (Value × Value)) :
    findField? .plain f es = (Value.lookupText f.wireName es).map (f.wireName, ·) := by
  rw [findField?, keysOf, List.findSome?_cons, List.findSome?_nil]
  cases Value.lookupText f.wireName es <;> rfl

/-- A strict model looks for a field under its key, and then under its name. -/
theorem findField?_strict (f : Field) (es : List (Value × Value)) :
    findField? .strict f es = ((Value.lookupText f.wireName es).map (f.wireName, ·)).or
      ((Value.lookupText f.name es).map (f.name, ·)) := by
  rw [findField?, keysOf]
  by_cases hsame : f.wireName = f.name
  · simp only [hsame, beq_self_eq_true, ↓reduceIte, List.findSome?_cons, List.findSome?_nil]
    cases Value.lookupText f.name es <;> rfl
  · simp only [beq_false_of_ne hsame, Bool.false_eq_true, ↓reduceIte, List.findSome?_cons, List.findSome?_nil]
    cases Value.lookupText f.wireName es <;> cases Value.lookupText f.name es <;> rfl

/-- In the completed document a model finds for a field what it finds in the document, or else its zero value. -/
theorem findField?_withZeroValues {f : Field} (hapart : fields.Pairwise Field.Apart)
    (hdescribed : ∀ g ∈ fields, c.describeField g = .ok (c.descriptorOf g)) (hf : f ∈ fields)
    (es : List (Value × Value)) :
    findField? .strict f (withZeroValues (fields.map c.descriptorOf) es) =
      (findField? .strict f es).or ((zeroIn c es f).map (f.wireName, ·)) := by
  obtain ⟨hname, hwire, -⟩ := Catalogue.names_of_describeField (hdescribed f hf)
  have hgiven : (Value.lookupText f.wireName es).isSome ∨ (Value.lookupText f.name es).isSome →
      zeroIn c es f = none := by
    intro hsome
    rw [zeroIn, needsZero, Descriptor.isGiven, hname, hwire, Bool.or_eq_true_iff.mpr hsome]
    simp
  have hzeroName : (entriesFor fields (zeroIn c es)).lookup f.name =
      if f.name = f.wireName then zeroIn c es f else none := by
    split
    · rename_i hsame
      rw [hsame, lookup_entriesFor hapart hf]
    · rename_i hother
      exact lookup_entriesFor_name hapart hf hother
  rw [withZeroValues_descriptors hapart hdescribed, findField?_strict, findField?_strict, Value.lookupText_append,
    Value.lookupText_append, Value.lookupText_textEntries, Value.lookupText_textEntries, lookup_entriesFor hapart hf,
    hzeroName]
  by_cases hsome : (Value.lookupText f.wireName es).isSome ∨ (Value.lookupText f.name es).isSome
  · rw [hgiven hsome]
    simp
  · rw [not_or, Option.not_isSome_iff_eq_none, Option.not_isSome_iff_eq_none] at hsome
    rw [hsome.1, hsome.2]
    cases zeroIn c es f <;> simp

/-- A document is completed with the zero value of a field that a strict model does not find in it. -/
theorem zeroIn_eq {f : Field} (hd : c.describeField f = .ok (c.descriptorOf f)) (es : List (Value × Value)) :
    zeroIn c es f = if (c.descriptorOf f).isFilled ∧ findField? .strict f es = none then
      some (c.descriptorOf f).zero else none := by
  obtain ⟨hname, hwire, -⟩ := Catalogue.names_of_describeField hd
  rw [zeroIn, needsZero, Descriptor.isGiven, hname, hwire, findField?_strict]
  cases Value.lookupText f.wireName es <;> cases Value.lookupText f.name es <;> simp

/-- The zero values that a document is completed with. -/
def zeroFound (c : Catalogue) (found : Field → Option Value) (f : Field) : Option Value :=
  if (found f).isNone ∧ (c.descriptorOf f).isFilled then some (c.descriptorOf f).zero else none

/-- A field is named where something was found for it. -/
theorem isGiven_descriptorOf {f : Field} (hapart : fields.Pairwise Field.Apart) (hf : f ∈ fields)
    (hd : c.describeField f = .ok (c.descriptorOf f)) :
    (c.descriptorOf f).isGiven (Value.textEntries (entriesFor fields found)) = (found f).isSome := by
  obtain ⟨hname, hwire, -⟩ := Catalogue.names_of_describeField hd
  rw [Descriptor.isGiven, hname, hwire, Value.lookupText_textEntries, Value.lookupText_textEntries,
    lookup_entriesFor hapart hf]
  by_cases hsame : f.name = f.wireName
  · rw [hsame, lookup_entriesFor hapart hf, Bool.or_self]
  · rw [lookup_entriesFor_name hapart hf hsame]
    simp

/-- The document that a model sees. -/
theorem completed_eq {m : Model} (hstrict : m.strictness = .strict) {ds : List Descriptor}
    (hds : c.describe m = .ok ds) (hapart : m.fields.Pairwise Field.Apart) :
    completed c m (Value.textEntries (entriesFor m.fields found)) =
      .ok (Value.textEntries (entriesFor m.fields found ++ entriesFor m.fields (zeroFound c found))) := by
  obtain ⟨hmap, hdescribed⟩ := Catalogue.describe_eq_map hds
  have hzeros : entriesFor m.fields (zeroIn c (Value.textEntries (entriesFor m.fields found))) =
      entriesFor m.fields (zeroFound c found) := by
    apply List.filterMap_congr
    intro f hf
    rw [zeroIn, zeroFound, needsZero, isGiven_descriptorOf hapart hf (hdescribed f hf)]
    cases found f <;> simp
  rw [completed, hstrict]
  simp only [hds]
  rw [hmap, withZeroValues_descriptors hapart hdescribed, hzeros, Value.textEntries_append]

/-- What the completed document holds for a field. -/
def given (c : Catalogue) (found : Field → Option Value) (f : Field) : Option Value :=
  (found f).or (zeroFound c found f)

/-- The key and the value under which a model finds a field in the completed document. -/
theorem findField?_completed {f : Field} (hapart : fields.Pairwise Field.Apart) (hf : f ∈ fields) :
    findField? .strict f
        (Value.textEntries (entriesFor fields found ++ entriesFor fields (zeroFound c found))) =
      (given c found f).map (f.wireName, ·) := by
  have hwire : (entriesFor fields found ++ entriesFor fields (zeroFound c found)).lookup f.wireName =
      given c found f := by
    rw [List.lookup_append, lookup_entriesFor hapart hf, lookup_entriesFor hapart hf]
    rfl
  unfold findField? keysOf
  by_cases hsame : f.wireName = f.name
  · simp only [hsame, beq_self_eq_true, ↓reduceIte, List.findSome?_cons, List.findSome?_nil]
    rw [Value.lookupText_textEntries, ← hsame, hwire]
    cases given c found f <;> rfl
  · have hname : (entriesFor fields found ++ entriesFor fields (zeroFound c found)).lookup f.name = none := by
      have hother : f.name ≠ f.wireName := fun h => hsame h.symm
      rw [List.lookup_append, lookup_entriesFor_name hapart hf hother, lookup_entriesFor_name hapart hf hother]
      rfl
    simp only [beq_false_of_ne hsame, Bool.false_eq_true, ↓reduceIte, List.findSome?_cons, List.findSome?_nil]
    rw [Value.lookupText_textEntries, Value.lookupText_textEntries, hwire, hname]
    cases given c found f <;> rfl

/-- Every key of the completed document is one of a field for which it holds something. -/
theorem exists_given_of_mem {e : String × Value}
    (he : e ∈ entriesFor fields found ++ entriesFor fields (zeroFound c found)) :
    ∃ f ∈ fields, e.1 = f.wireName ∧ (given c found f).isSome := by
  rcases List.mem_append.mp he with hfound | hzero
  · obtain ⟨f, hf, hwire, hw⟩ := mem_entriesFor hfound
    exact ⟨f, hf, hwire, by simp [given, hw]⟩
  · obtain ⟨f, hf, hwire, hw⟩ := mem_entriesFor hzero
    refine ⟨f, hf, hwire, ?_⟩
    rw [given, hw]
    cases found f <;> simp

/-- The completed document has no key that no field uses. -/
theorem strayKeys_completed (fields : List Field) (found : Field → Option Value) :
    strayKeys (fields.flatMap fun f => ((given c found f).map fun _ => f.wireName).toList)
      (Value.textEntries (entriesFor fields found ++ entriesFor fields (zeroFound c found))) = [] := by
  apply List.filterMap_eq_nil_iff.mpr
  intro entry hentry
  obtain ⟨e, he, rfl⟩ := List.mem_map.mp hentry
  obtain ⟨f, hf, hwire, hgiven⟩ := exists_given_of_mem he
  obtain ⟨w, hw⟩ := Option.isSome_iff_exists.mp hgiven
  have hused : ∃ g ∈ fields, (∃ w, given c found g = some w) ∧ g.wireName = e.1 :=
    ⟨f, hf, ⟨w, hw⟩, hwire.symm⟩
  simpa [Value.text?] using hused

variable {record : String → Value → Fitted} {value : Field → Value} {entries : List (Value × Value)}

/-- Where no key is broken, all faults are told. -/
theorem strictFaults_of_unbroken (hkeys : ∀ e ∈ entries, isBrokenKey e.1 = false) (s : Filling) :
    strictFaults s entries = s.faults ++ strayKeys s.used entries := by
  refine if_neg fun hbroken => ?_
  obtain ⟨e, he, hkey⟩ := List.any_eq_true.mp hbroken
  rw [hkeys e he] at hkey
  cases hkey

/-- Of a record with a broken key nothing else is told. -/
theorem strictFaults_of_broken {e : Value × Value} (he : e ∈ entries) (hbroken : isBrokenKey e.1 = true)
    (s : Filling) : strictFaults s entries = [⟨[], .stringUnicode⟩] :=
  if_pos (List.any_eq_true.mpr ⟨e, he, hbroken⟩)

/-- Either all faults of a record are told, or there is a broken key. -/
theorem unbroken_or_exists (entries : List (Value × Value)) :
    (∀ e ∈ entries, isBrokenKey e.1 = false) ∨ ∃ e ∈ entries, isBrokenKey e.1 = true := by
  by_cases h : ∃ e ∈ entries, isBrokenKey e.1 = true
  · exact .inr h
  · exact .inl fun e he => Bool.eq_false_iff.mpr fun hbroken => h ⟨e, he, hbroken⟩

theorem isBrokenKey_textEntries (es : List (String × Value)) :
    ∀ e ∈ Value.textEntries es, isBrokenKey e.1 = false := by
  intro e he
  obtain ⟨pair, -, rfl⟩ := List.mem_map.mp he
  rfl

/-- One field is filled with its value, and the key under which something stands for it is used. -/
theorem add_of_settles {f : Field} (s : Filling)
    (hfind : findField? .strict f entries = (given c found f).map (f.wireName, ·))
    (hsettles : Settles c record f (value f) (found f)) :
    s.add c record .strict entries f =
      { s with
        attributes := s.attributes ++ [(f.name, value f)]
        used := s.used ++ ((given c found f).map fun _ => f.wireName).toList } := by
  rw [Filling.add, hfind]
  unfold given zeroFound
  rcases hw : found f with _ | w
  · rw [hw] at hsettles
    by_cases hfilled : (c.descriptorOf f).isFilled = true
    · simp only [Settles, hfilled, ↓reduceIte] at hsettles
      obtain ⟨fit, hfit, hvalue⟩ := hsettles
      simp [hfilled, hfit, hvalue]
    · simp only [Settles, hfilled] at hsettles
      obtain ⟨d, hd, hvalue⟩ := hsettles
      simp [hfilled, hd, hvalue]
  · rw [hw] at hsettles
    obtain ⟨fit, hfit, hvalue⟩ := hsettles
    simp [hfit, hvalue]

/-- All fields are filled with their values. -/
theorem foldl_add {fs : List Field} (s : Filling)
    (hfind : ∀ f ∈ fs, findField? .strict f entries = (given c found f).map (f.wireName, ·))
    (hsettles : ∀ f ∈ fs, Settles c record f (value f) (found f)) :
    fs.foldl (Filling.add c record .strict entries) s =
      { s with
        attributes := s.attributes ++ fs.map fun f => (f.name, value f)
        used := s.used ++ fs.flatMap fun f => ((given c found f).map fun _ => f.wireName).toList } := by
  induction fs generalizing s with
  | nil => simp
  | cons f rest ih =>
      rw [List.foldl_cons, add_of_settles s (hfind f List.mem_cons_self) (hsettles f List.mem_cons_self),
        ih _ (fun g hg => hfind g (List.mem_cons_of_mem f hg)) fun g hg => hsettles g (List.mem_cons_of_mem f hg)]
      simp

/-- A document that holds something for some fields of a model is built into a record whose fields have
what comes of that. -/
theorem fitRecord_of_settles {m : Model} {name : String} {fuel : Nat} {ds : List Descriptor}
    (hm : c.model? name = some m) (hstrict : m.strictness = .strict) (hds : c.describe m = .ok ds)
    (hapart : m.fields.Pairwise Field.Apart)
    (hsettles : ∀ f ∈ m.fields, Settles c (fitRecord c fuel) f (value f) (found f)) :
    ∃ fit, fitRecord c (fuel + 1) name (.dict (Value.textEntries (entriesFor m.fields found))) = .ok fit ∧
      fit.value = .record m.name (m.fields.map fun f => (f.name, value f)) := by
  have hfind : ∀ f ∈ m.fields, findField? .strict f
      (Value.textEntries (entriesFor m.fields found ++ entriesFor m.fields (zeroFound c found))) =
        (given c found f).map (f.wireName, ·) := fun f hf => findField?_completed hapart hf
  have hfold := foldl_add ⟨[], [], []⟩ hfind hsettles
  have hstray := strayKeys_completed (c := c) m.fields found
  simp only [fitRecord, hm, completed_eq hstrict hds hapart, fillRecord, hstrict, hfold,
    strictFaults_of_unbroken (isBrokenKey_textEntries _)]
  simp [hstray]

end Shape
end Intake
