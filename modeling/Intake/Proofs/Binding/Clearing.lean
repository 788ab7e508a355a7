import Intake.Binding.KnownKeys
import Intake.Proofs.Binding.Passing
import Intake.Proofs.Shape.Document

/-!
Documents cleared of the keys that their models do not have. What a model finds for a field in the cleared document
is what it finds in the document itself, cleared in turn; where it finds nothing, both are completed by the same
zero value; and no key of the cleared document is left over. A document in which nothing is found wrong can be
cleared.
-/

namespace Intake.Binding

open Shape

variable {c : Catalogue} {f : Field} {m : Model} {name : String} {fields : List Field} {v w : Value}
  {es kept : List (Value × Value)}

@[simp] theorem value_clear (v : Value) : (clear c v).value = v := by cases v <;> rfl

theorem whole_clear_dict (name : String) (es : List (Value × Value)) :
    (clear c (.dict es)).whole name = (clearEntries c es (clearEach c es) name).map .dict := rfl

theorem items_clear_list (name : String) (xs : List Value) :
    (clear c (.list xs)).items name = (clearItems c name xs).map .list := rfl

/-- Only documents are cleared as records. -/
theorem whole_clear_of_not_dict (hv : ∀ es, v ≠ .dict es) : (clear c v).whole name = .ok v := by
  cases v with
  | dict es => exact absurd rfl (hv es)
  | _ => rfl

/-- Only rows are cleared item by item. -/
theorem items_clear_of_not_list (hv : ∀ xs, v ≠ .list xs) : (clear c v).items name = .ok v := by
  cases v with
  | list xs => exact absurd rfl (hv xs)
  | _ => rfl

/-- A type of records of a model, or of rows whose first item is one: what is in a document is cleared by the
model. -/
def ClearsAs (c : Catalogue) (t : Ty) (name : String) : Prop :=
  t = .record name ∨ c.kindOf t = .array ∧ t.element? = some (.record name)

/-- How the value of a field is cleared: as the record that it is, item by item, or not at all. -/
inductive ClearingOf (c : Catalogue) (f : Field) : Prop where
  | record (name : String) (htype : f.type.unwrap.1 = .record name) (hkind : (c.descriptorOf f).kind = .record)
      (hmodel : (c.descriptorOf f).model = some name) (hclear : ∀ v, clearField (c.descriptorOf f) v = v.whole name)
  | row (name : String) (harray : c.kindOf f.type.unwrap.1 = .array)
      (hitem : f.type.unwrap.1.element? = some (.record name)) (hkind : (c.descriptorOf f).kind = .array)
      (hmodel : (c.descriptorOf f).model = some name) (helement : (c.descriptorOf f).elementKind = some .record)
      (hclear : ∀ v, clearField (c.descriptorOf f) v = v.items name)
  | other (hnone : ∀ name, ¬ClearsAs c f.type.unwrap.1 name)
      (hclear : ∀ v, clearField (c.descriptorOf f) v = .ok v.value)

/-- The value of a row is cleared item by item if the items are records, and else not at all. -/
theorem clearingOf_array (hd : c.describeField f = .ok (c.descriptorOf f))
    (harray : c.kindOf f.type.unwrap.1 = .array) : ClearingOf c f := by
  obtain ⟨hkind, helement⟩ := Catalogue.kinds_of_field hd
  have hmodel := Catalogue.model_of_describeField hd
  have hnone : f.type.unwrap.1.recordName? = none := by
    cases ht : f.type.unwrap.1 with
    | record name =>
        rw [ht] at harray
        cases harray
    | _ => rfl
  rw [harray] at hkind
  rw [hnone] at hmodel
  cases hname : f.type.unwrap.1.element?.bind Ty.recordName? with
  | none =>
      rw [hname] at hmodel
      refine .other ?_ fun v => by rw [clearField, hmodel]
      rintro name (hrecord | ⟨-, hitems⟩)
      · rw [hrecord] at hnone
        cases hnone
      · rw [hitems] at hname
        cases hname
  | some name =>
      obtain ⟨inner, hinner, hrecord⟩ := Option.bind_eq_some_iff.mp hname
      obtain rfl := Ty.eq_record_of_recordName? hrecord
      rw [hname] at hmodel
      rw [hinner] at helement
      exact .row name harray hinner hkind hmodel helement fun v => by rw [clearField, hmodel, hkind]

/-- The value of every field is cleared in one of these ways. -/
theorem clearingOf (hd : c.describeField f = .ok (c.descriptorOf f)) : ClearingOf c f := by
  obtain ⟨hkind, -⟩ := Catalogue.kinds_of_field hd
  cases hk : c.kindOf f.type.unwrap.1 with
  | record =>
      obtain ⟨name, ht⟩ := Catalogue.exists_record_of_kindOf hk
      have hmodel := Catalogue.model_of_describeField hd
      rw [hk] at hkind
      rw [ht] at hmodel
      have hown : (c.descriptorOf f).model = some name := hmodel
      exact .record name ht hkind hown fun v => by rw [clearField, hown, hkind]
  | array => exact clearingOf_array hd hk
  | _ =>
      rw [hk] at hkind
      refine .other ?_ fun v => ?_
      · rintro name (hrecord | ⟨hrow, -⟩)
        · rw [hrecord] at hk
          cases hk
        · rw [hk] at hrow
          cases hrow
      · rw [clearField, hkind]
        cases (c.descriptorOf f).model <;> rfl

/-- The cleared value under a key is the value under the key, cleared. -/
theorem lookup_clearEach (key : String) (es : List (Value × Value)) :
    ((clearEach c es).find? fun e => e.1.same (.text key)).map (·.2) = (Value.lookupText key es).map (clear c) :=
  Value.find?_each rfl (fun _ _ _ => rfl) key es

/-- What stands for a field of a document, cleared. -/
def clearedIn (c : Catalogue) (es : List (Value × Value)) (f : Field) : Option Value :=
  (Value.lookupText (keyOf (c.descriptorOf f) es) es).bind fun v =>
    (clearField (c.descriptorOf f) (clear c v)).toOption

/-- The entries of a cleared document. -/
def keptIn (c : Catalogue) (fields : List Field) (es : List (Value × Value)) : List (String × Value) :=
  fields.filterMap fun f => (clearedIn c es f).map (keyOf (c.descriptorOf f) es, ·)

/-- What stands for the fields of a document can be cleared. -/
def CanClear (c : Catalogue) (fields : List Field) (es : List (Value × Value)) : Prop :=
  ∀ f ∈ fields, ∀ v, Value.lookupText (keyOf (c.descriptorOf f) es) es = some v →
    ∃ w, clearField (c.descriptorOf f) (clear c v) = .ok w

/-- The fields are cleared if what stands for them can be, and then they are kept. -/
theorem clearFields_eq_ok_iff : clearFields es (clearEach c es) (fields.map c.descriptorOf) = .ok kept ↔
    CanClear c fields es ∧ kept = Value.textEntries (keptIn c fields es) := by
  induction fields generalizing kept with
  | nil => simp [clearFields, CanClear, keptIn, Value.textEntries, eq_comm]
  | cons f rest ih =>
      have hsplit : CanClear c (f :: rest) es ↔ (∀ v, Value.lookupText (keyOf (c.descriptorOf f) es) es = some v →
          ∃ w, clearField (c.descriptorOf f) (clear c v) = .ok w) ∧ CanClear c rest es := by
        simp [CanClear]
      rw [hsplit, List.map_cons, clearFields, lookup_clearEach]
      cases hfound : Value.lookupText (keyOf (c.descriptorOf f) es) es with
      | none =>
          have hkept : keptIn c (f :: rest) es = keptIn c rest es := by simp [keptIn, clearedIn, hfound]
          rw [hkept]
          simpa using ih
      | some v =>
          have hkept : ∀ w, clearField (c.descriptorOf f) (clear c v) = .ok w → keptIn c (f :: rest) es =
              (keyOf (c.descriptorOf f) es, w) :: keptIn c rest es := by
            intro w hw
            simp [keptIn, clearedIn, hfound, hw, Except.toOption]
          cases hcleared : clearField (c.descriptorOf f) (clear c v) with
          | error fault => simp [hcleared, Bind.bind, Except.bind]
          | ok w =>
              rw [hkept w hcleared]
              cases hrest : clearFields es (clearEach c es) (rest.map c.descriptorOf) with
              | error fault =>
                  have hno : ¬CanClear c rest es := fun hall => by
                    have hok := ih.mpr ⟨hall, rfl⟩
                    rw [hrest] at hok
                    cases hok
                  simp [hcleared, hno, Bind.bind, Except.bind]
              | ok others =>
                  obtain ⟨hall, hothers⟩ := ih.mp hrest
                  simp [hcleared, hall, hothers, eq_comm]

theorem keyOf_descriptorOf (hd : c.describeField f = .ok (c.descriptorOf f)) (es : List (Value × Value)) :
    keyOf (c.descriptorOf f) es = if (Value.lookupText f.wireName es).isSome then f.wireName else f.name := by
  obtain ⟨hname, hwire, -⟩ := Catalogue.names_of_describeField hd
  rw [keyOf, hname, hwire]

/-- Fields that are called by different names stand under different keys. -/
theorem keyOf_ne {g : Field} (hf : c.describeField f = .ok (c.descriptorOf f))
    (hg : c.describeField g = .ok (c.descriptorOf g)) (h : f.Apart g) (es : List (Value × Value)) :
    keyOf (c.descriptorOf f) es ≠ g.wireName ∧ keyOf (c.descriptorOf f) es ≠ g.name ∧
      keyOf (c.descriptorOf f) es ≠ keyOf (c.descriptorOf g) es := by
  obtain ⟨hwires, hwireName, hnameWire, hnames⟩ := h
  rw [keyOf_descriptorOf hf, keyOf_descriptorOf hg]
  split <;> split <;> exact ⟨by assumption, by assumption, by assumption⟩

section kept

variable (hapart : fields.Pairwise Field.Apart) (hdescribed : ∀ g ∈ fields, c.describeField g = .ok (c.descriptorOf g))

include hapart hdescribed

theorem nodup_keys (es : List (Value × Value)) : (fields.map fun f => keyOf (c.descriptorOf f) es).Nodup := by
  rw [List.Nodup, List.pairwise_map]
  exact hapart.imp_of_mem fun hf hg h => (keyOf_ne (hdescribed _ hf) (hdescribed _ hg) h es).2.2

theorem nodup_keptIn (es : List (Value × Value)) : ((keptIn c fields es).map Prod.fst).Nodup :=
  sublist_keys_filterMap.nodup (nodup_keys hapart hdescribed es)

/-- Under a name of a field stands in the cleared document what stands for the field, if it stands there. -/
theorem lookup_keptIn (hf : f ∈ fields) {key : String} (hkey : key = f.wireName ∨ key = f.name)
    (es : List (Value × Value)) :
    (keptIn c fields es).lookup key = if keyOf (c.descriptorOf f) es = key then clearedIn c es f else none := by
  split
  · rename_i hown
    rw [← hown]
    exact lookup_filterMap (nodup_keys hapart hdescribed es) hf
  · rename_i hother
    apply List.lookup_eq_none_iff.mpr
    intro e he
    obtain ⟨g, hg, hfound⟩ := List.mem_filterMap.mp he
    obtain ⟨w, -, rfl⟩ := Option.map_eq_some_iff.mp hfound
    refine bne_iff_ne.mpr fun (hsame : key = keyOf (c.descriptorOf g) es) => ?_
    by_cases hgf : g = f
    · exact hother (by rw [← hgf, hsame])
    · have hne := keyOf_ne (hdescribed g hg) (hdescribed f hf) (hapart.forall hg hf hgf) es
      rcases hkey with rfl | rfl
      · exact hne.1 hsame.symm
      · exact hne.2.1 hsame.symm

/-- What a model finds for a field in the cleared document is what it finds in the document, cleared. -/
theorem findField?_keptIn (strictness : Strictness) (hf : f ∈ fields) (es : List (Value × Value)) :
    findField? strictness f (Value.textEntries (keptIn c fields es)) =
      (findField? strictness f es).bind fun e =>
        ((clearField (c.descriptorOf f) (clear c e.2)).toOption).map (e.1, ·) := by
  have hwire := lookup_keptIn hapart hdescribed hf (.inl rfl) es
  have hname := lookup_keptIn hapart hdescribed hf (.inr rfl) es
  rw [clearedIn, keyOf_descriptorOf (hdescribed f hf)] at hwire hname
  cases hfound : Value.lookupText f.wireName es with
  | some v =>
      simp only [hfound, Option.isSome_some, ↓reduceIte, Option.bind_some] at hwire hname
      generalize hcleared : (clearField (c.descriptorOf f) (clear c v)).toOption = cleared at hwire hname
      cases strictness with
      | plain => simp [findField?_plain, Value.lookupText_textEntries, hwire, hfound, hcleared]
      | strict =>
          simp only [findField?_strict, Value.lookupText_textEntries, hwire, hname, hfound]
          cases cleared with
          | some w => simp [hcleared]
          | none => simp [hcleared]
  | none =>
      simp only [hfound, Option.isSome_none, Bool.false_eq_true, ↓reduceIte] at hwire hname
      have hnone : (keptIn c fields es).lookup f.wireName = none := by
        rw [hwire]
        split
        · rename_i hsame
          rw [hsame, hfound, Option.bind_none]
        · rfl
      cases strictness with
      | plain => simp [findField?_plain, Value.lookupText_textEntries, hnone, hfound]
      | strict =>
          simp only [findField?_strict, Value.lookupText_textEntries, hnone, hname, hfound]
          cases Value.lookupText f.name es <;> simp

end kept

/-- What a model finds for a field in a document, and what it finds in the cleared one. -/
inductive Matches (c : Catalogue) (f : Field) : Option (String × Value) → Option (String × Value) → Prop where
  | none : Matches c f none none
  | cleared (key : String) {v w : Value} (h : clearField (c.descriptorOf f) (clear c v) = .ok w) :
      Matches c f (some (key, v)) (some (key, w))
  | zero (key : String) : Matches c f (some (key, (c.descriptorOf f).zero)) (some (key, (c.descriptorOf f).zero))

/-- A model finds for a field only what can be cleared. -/
theorem CanClear.of_findField? {strictness : Strictness} {key : String} (hcan : CanClear c fields es)
    (hd : c.describeField f = .ok (c.descriptorOf f)) (hf : f ∈ fields)
    (hfound : findField? strictness f es = some (key, v)) :
    ∃ w, clearField (c.descriptorOf f) (clear c v) = .ok w := by
  apply hcan f hf v
  cases strictness with
  | plain =>
      rw [findField?_plain] at hfound
      obtain ⟨w, hw, hpair⟩ := Option.map_eq_some_iff.mp hfound
      obtain ⟨-, rfl⟩ := Prod.mk.inj hpair
      rw [keyOf_descriptorOf hd, hw]
      exact hw
  | strict =>
      rw [findField?_keyOf hd] at hfound
      obtain ⟨w, hw, hpair⟩ := Option.map_eq_some_iff.mp hfound
      obtain ⟨-, rfl⟩ := Prod.mk.inj hpair
      exact hw

section kept

variable (hapart : fields.Pairwise Field.Apart) (hdescribed : ∀ g ∈ fields, c.describeField g = .ok (c.descriptorOf g))
  (hcan : CanClear c fields es)

include hapart hdescribed hcan

theorem matches_keptIn (strictness : Strictness) (hf : f ∈ fields) :
    Matches c f (findField? strictness f es)
      (findField? strictness f (Value.textEntries (keptIn c fields es))) := by
  rw [findField?_keptIn hapart hdescribed strictness hf es]
  cases hfound : findField? strictness f es with
  | none => exact .none
  | some e =>
      obtain ⟨key, v⟩ := e
      obtain ⟨w, hw⟩ := hcan.of_findField? (hdescribed f hf) hf hfound
      rw [Option.bind_some, hw]
      exact .cleared key hw

theorem matches_withZeroValues (hf : f ∈ fields) :
    Matches c f (findField? .strict f (withZeroValues (fields.map c.descriptorOf) es))
      (findField? .strict f
        (withZeroValues (fields.map c.descriptorOf) (Value.textEntries (keptIn c fields es)))) := by
  have hfound := matches_keptIn hapart hdescribed hcan .strict hf
  rw [findField?_withZeroValues hapart hdescribed hf, findField?_withZeroValues hapart hdescribed hf,
    zeroIn_eq (hdescribed f hf), zeroIn_eq (hdescribed f hf)]
  generalize findField? .strict f es = found at hfound ⊢
  generalize findField? .strict f (Value.textEntries (keptIn c fields es)) = kept at hfound ⊢
  cases hfound with
  | none =>
      by_cases hfilled : (c.descriptorOf f).isFilled = true
      · simp only [hfilled, and_self, ↓reduceIte, Option.map_some, Option.none_or]
        exact .zero _
      · simp only [hfilled, Bool.false_eq_true, false_and, ↓reduceIte, Option.map_none, Option.or_none]
        exact .none
  | cleared key h => exact .cleared key h
  | zero key => exact .zero key

omit hcan in
/-- No key of a cleared and completed document is left over. -/
theorem exists_found_of_mem {e : Value × Value}
    (he : e ∈ withZeroValues (fields.map c.descriptorOf) (Value.textEntries (keptIn c fields es))) :
    ∃ f ∈ fields, ∃ key w, e.1 = .text key ∧ findField? .strict f
      (withZeroValues (fields.map c.descriptorOf) (Value.textEntries (keptIn c fields es))) = some (key, w) := by
  have hfind : ∀ f ∈ fields, _ := fun f hf =>
    findField?_withZeroValues hapart hdescribed hf (Value.textEntries (keptIn c fields es))
  rw [withZeroValues_descriptors hapart hdescribed] at he
  rcases List.mem_append.mp he with hkept | hzero
  · obtain ⟨x, hx, rfl⟩ := List.mem_map.mp hkept
    obtain ⟨f, hf, hfound⟩ := List.mem_filterMap.mp hx
    obtain ⟨w, hw, rfl⟩ := Option.map_eq_some_iff.mp hfound
    refine ⟨f, hf, _, w, rfl, ?_⟩
    obtain ⟨v, hv, hclear⟩ := Option.bind_eq_some_iff.mp hw
    rw [hfind f hf, findField?_keptIn hapart hdescribed .strict hf, findField?_keyOf (hdescribed f hf), hv]
    simp [hclear]
  · obtain ⟨x, hx, rfl⟩ := List.mem_map.mp hzero
    obtain ⟨f, hf, hwire, hw⟩ := mem_entriesFor hx
    refine ⟨f, hf, f.wireName, x.2, by rw [hwire], ?_⟩
    rw [hfind f hf, hw]
    rw [zeroIn_eq (hdescribed f hf)] at hw
    split at hw
    · rename_i hnone
      rw [hnone.2]
      rfl
    · cases hw

end kept

/-- A document is cleared if its model is described and what stands for the fields can be cleared, and then it is
what is kept. -/
theorem clearEntries_eq_ok (hm : c.model? name = some m) (hapart : m.fields.Pairwise Field.Apart)
    (h : clearEntries c es (clearEach c es) name = .ok kept) :
    c.describe m = .ok (m.fields.map c.descriptorOf) ∧ (∀ f ∈ m.fields, c.describeField f = .ok (c.descriptorOf f)) ∧
      CanClear c m.fields es ∧ kept = Value.textEntries (keptIn c m.fields es) := by
  rw [clearEntries, hm] at h
  obtain ⟨ds, hdescribe, hfields⟩ := exists_of_bind_eq_ok h
  have hds := Action.of_describe_eq_ok hdescribe
  obtain ⟨rfl, hdescribed⟩ := Catalogue.describe_eq_map hds
  obtain ⟨all, hall, hdict⟩ := exists_of_bind_eq_ok hfields
  obtain ⟨hcan, rfl⟩ := clearFields_eq_ok_iff.mp hall
  refine ⟨hds, hdescribed, hcan, ?_⟩
  rw [← Except.ok.inj hdict, Value.dictOf_textEntries (nodup_keptIn hapart hdescribed es)]

/-- In the completed document and in the completed cleared one, a model finds for each field what matches, and in
the latter every key is that of a field. -/
theorem exists_completed (hm : c.model? name = some m) (hapart : m.fields.Pairwise Field.Apart)
    (h : clearEntries c es (clearEach c es) name = .ok kept) :
    ∃ whole cleared, completed c m es = .ok whole ∧ completed c m kept = .ok cleared ∧
      (∀ f ∈ m.fields, Matches c f (findField? m.strictness f whole) (findField? m.strictness f cleared)) ∧
      (m.strictness = .strict → ∀ e ∈ cleared, ∃ f ∈ m.fields, ∃ key w, e.1 = .text key ∧
        findField? m.strictness f cleared = some (key, w)) := by
  obtain ⟨hdescribe, hdescribed, hcan, rfl⟩ := clearEntries_eq_ok hm hapart h
  unfold completed
  rw [hdescribe]
  cases m.strictness with
  | plain => exact ⟨es, _, rfl, rfl, fun f hf => matches_keptIn hapart hdescribed hcan .plain hf, nofun⟩
  | strict =>
      exact ⟨_, _, rfl, rfl, fun f hf => matches_withZeroValues hapart hdescribed hcan hf,
        fun _ e he => exists_found_of_mem hapart hdescribed he⟩

/-- A value that can be cleared as what nothing is found wrong with, be it a record or a row of records. -/
def IsClearable (c : Catalogue) (v : Value) : Prop :=
  ∀ (d : Descriptor) (name : String), d.model = some name →
    (Passes c d .record v → ∃ w, (clear c v).whole name = .ok w) ∧
      (d.kind = .array → d.elementKind = some .record → Passes c d .array v → ∃ w, (clear c v).items name = .ok w)

theorem isClearable_of_leaf (hlist : ∀ xs, v ≠ .list xs) (hdict : ∀ es, v ≠ .dict es) : IsClearable c v := by
  intro d name _
  cases v with
  | list xs => exact absurd rfl (hlist xs)
  | dict es => exact absurd rfl (hdict es)
  | _ => exact ⟨fun _ => ⟨_, rfl⟩, fun _ _ _ => ⟨_, rfl⟩⟩

theorem exists_clearItems {xs : List Value} (hxs : ∀ x ∈ xs, ∃ w, (clear c x).whole name = .ok w) :
    ∃ ws, clearItems c name xs = .ok ws := by
  induction xs with
  | nil => exact ⟨[], rfl⟩
  | cons x rest ih =>
      obtain ⟨w, hw⟩ := hxs x List.mem_cons_self
      obtain ⟨ws, hws⟩ := ih fun y hy => hxs y (List.mem_cons_of_mem x hy)
      exact ⟨w :: ws, by rw [clearItems, hw, hws]; rfl⟩

theorem isClearable_list {xs : List Value} (hxs : ∀ x ∈ xs, IsClearable c x) : IsClearable c (.list xs) := by
  intro d name hmodel
  refine ⟨fun _ => ⟨_, rfl⟩, fun hkind helement hpasses => ?_⟩
  have hitems := hpasses.items hkind helement
  obtain ⟨ws, hws⟩ := exists_clearItems fun x hx => (hxs x hx d name hmodel).1 (hitems x hx)
  exact ⟨.list ws, by rw [items_clear_list, hws]; rfl⟩

theorem canClear_of_recordPasses (h : RecordPasses c m es) (hes : ∀ e ∈ es, IsClearable c e.2) :
    CanClear c m.fields es := by
  intro f hf v hv
  have hpasses := h.field f hf v hv
  obtain ⟨e, he, rfl⟩ := Option.map_eq_some_iff.mp hv
  have hclearable := hes e (List.mem_of_find?_eq_some he)
  rcases clearingOf (h.described f hf) with ⟨name, -, hkind, hmodel, hclear⟩ |
    ⟨name, -, -, hkind, hmodel, helement, hclear⟩ | ⟨-, hclear⟩
  · rw [hclear]
    rw [hkind] at hpasses
    exact (hclearable _ name hmodel).1 hpasses
  · rw [hclear]
    rw [hkind] at hpasses
    exact (hclearable _ name hmodel).2 hkind helement hpasses
  · exact ⟨_, hclear _⟩

theorem exists_clearEntries (h : ∀ m, c.model? name = some m → RecordPasses c m es)
    (hes : ∀ e ∈ es, IsClearable c e.2) : ∃ kept, clearEntries c es (clearEach c es) name = .ok kept := by
  rw [clearEntries]
  cases hm : c.model? name with
  | none => exact ⟨es, rfl⟩
  | some m =>
      have hpasses := h m hm
      have hfields := clearFields_eq_ok_iff.mpr ⟨canClear_of_recordPasses hpasses hes, rfl⟩
      exact ⟨_, by simp only [Action.describe_eq_ok hpasses.describe, ok_bind, hfields]; rfl⟩

theorem isClearable_dict (hes : ∀ e ∈ es, IsClearable c e.2) : IsClearable c (.dict es) := by
  intro d name hmodel
  refine ⟨fun hpasses => ?_, fun _ _ _ => ⟨_, rfl⟩⟩
  obtain ⟨kept, hkept⟩ := exists_clearEntries (fun m hm => hpasses.record hmodel hm) hes
  exact ⟨.dict kept, by rw [whole_clear_dict, hkept]; rfl⟩

/-- Every value that is found without fault can be cleared. -/
theorem isClearable (v : Value) : IsClearable c v := by
  induction v using Value.madeOf_induction with
  | step v hinside =>
      cases v with
      | list xs => exact isClearable_list hinside
      | dict es => exact isClearable_dict fun e he => hinside e.2 (Value.mem_madeOf_dict he)
      | _ => exact isClearable_of_leaf (by simp) (by simp)

/-- A document in which nothing is found wrong can be cleared. -/
theorem exists_knownKeys {path : String} (h : jsonTypeMismatch c name es path = .ok none) :
    ∃ kept, knownKeys c name es = .ok kept :=
  exists_clearEntries (fun _ hm => recordPasses_of_mismatch hm h) fun e _ => isClearable e.2

end Intake.Binding
