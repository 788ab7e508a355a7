import Intake.Proofs.Binding.FormFields
import Mathlib.Data.List.Perm.Subperm

/-!
Forms that are written and read. A form that offers exactly what the canonical form of an instance writes
is read without an error, and the record that is built from it equals the instance.
-/

namespace Intake.Binding

/-- A model that a form can hold: its fields are such, their names differ, and no record is inside a record
of the same model. -/
inductive IsFormModel (c : Catalogue) : (around : List String) → String → Prop where
  | intro {around : List String} {name : String} {m : Model} (hnew : name ∉ around)
    (hm : c.model? name = some m) (hstrict : m.strictness = .strict) (hapart : m.fields.Pairwise Field.Apart)
    (hforms : (m.fields.map fun f => (c.descriptorOf f).formName).Nodup)
    (hfields : ∀ f ∈ m.fields, IsFormField c f)
    (hinner : ∀ f ∈ m.fields, ∀ inner, f.type.unwrap.1 = .record inner → IsFormModel c (name :: around) inner) :
    IsFormModel c around name

variable {c : Catalogue} {o : Offer} {f : Field} {v : Value} {base path : String}
  {build : String → Value → Shape.Fitted}

/-- What reading a record leads to: no error, and a document from which an equal record of the model is
built. -/
def ReadsRecord (build : String → Value → Shape.Fitted) (name : String) (x : Value)
    (reading : Except Fault Decoded) : Prop :=
  ∃ es model attributes attributes', reading = .ok ⟨Value.textEntries es, []⟩ ∧
    x = .record model attributes ∧
    (∃ r, build name (.dict (Value.textEntries es)) = .ok r ∧ r.value = .record model attributes') ∧
    x.same (.record model attributes') = true

/-- A record is read from what is behind its key, and one of which nothing was read from nothing. -/
theorem readsAs_record {record : String → List Offer → String → String → Except Fault Decoded}
    {name : String} (hform : o.source = .form) (hf : IsFormField c f) (hrecord : f.type.unwrap.1 = .record name)
    (htakes : Shape.Takes c build f v v)
    (hread : ReadsRecord build name v (record name [o] (keyUnder base (c.descriptorOf f).formName)
      (Validation.join path (c.descriptorOf f).wireName))) :
    ReadsAs c build f v (readField c record [o] base path (c.descriptorOf f)) := by
  obtain ⟨es, model, attributes, attributes', hread, rfl, hbuild, hsame⟩ := hread
  have hkind : (c.descriptorOf f).kind = .record := by
    rw [hf.kinds.1, hrecord]
    rfl
  have hmodel : (c.descriptorOf f).model = some name := by
    rw [Catalogue.model_of_describeField hf.described, hrecord]
    rfl
  have hfits : Shape.Takes c build f (.dict (Value.textEntries es)) (.record model attributes') := by
    apply Shape.takes_of_fitsAs htakes (Shape.fitsAs_of_record hrecord rfl hbuild)
    · rfl
    · exact .inr (.inr ⟨_, _, rfl⟩)
  have hfield : readField c record [o] base path (c.descriptorOf f) =
      .ok ⟨if (Value.textEntries es).isEmpty then none else some (.dict (Value.textEntries es)), []⟩ := by
    rw [readField]
    simp [hkind, hmodel, admitted_of_form hf, hform, Source.isNested, hread]
  rw [hfield]
  cases es with
  | nil => exact ⟨none, .record model attributes', rfl, hf.settles_none hkind (by decide) hfits, hsame⟩
  | cons e rest => exact ⟨_, _, rfl, hfits, hsame⟩

/-- Whatever a field holds is read back from a form that offers, under the key of the field, what its value
writes there. -/
theorem readsAs_of_holds {record : String → List Offer → String → String → Except Fault Decoded}
    {recordValue : String → Value → Prop} (hform : o.source = .form) (hnodup : o.keys.Nodup)
    (hf : IsFormField c f)
    (hv : f.Holds c build (fun kind v => IsScalar kind v ∧ v.IsReadable) recordValue v)
    (hoffer : ∀ key, Under (keyUnder base (c.descriptorOf f).formName) key →
      o.Agrees (pairsAt c (keyUnder base (c.descriptorOf f).formName) v) key)
    (hrecord : ∀ name, f.type.unwrap.1 = .record name → recordValue name v →
      ReadsRecord build name v (record name [o] (keyUnder base (c.descriptorOf f).formName)
        (Validation.join path (c.descriptorOf f).wireName))) :
    ReadsAs c build f v (readField c record [o] base path (c.descriptorOf f)) := by
  rcases hv with ⟨-, hoptional | ⟨d, hd, -⟩⟩ | ⟨htakes, hinhabits⟩
  · rw [hf.required] at hoptional
    cases hoptional
  · rw [hf.undefaulted] at hd
    cases hd
  · have hself := (hoffer _ (under_refl _)).1
    generalize ht : f.type.unwrap.1 = t at hinhabits
    cases hinhabits with
    | scalar hkind hv =>
        rw [pairsAt_of_isScalar _ hv.1] at hself
        apply readsAs_scalar hform hf (by rw [ht]; exact hkind) hv.1 hv.2 htakes
        rw [hself]
        simp [Request.valuesOf]
    | record hv => exact readsAs_record hform hf ht htakes (hrecord _ ht hv)
    | scalars hitem hkind hxs =>
        apply readsAs_list hform hf ht hitem hkind hxs htakes
        rw [hself, valuesOf_pairsAt_list]
    | records hitem hxs => exact absurd (congrArg Prod.fst hitem) (hf.flat _ _ ht)
    | map hkey hvalue hkind hkeys hes =>
        apply readsAs_map hform hf ht hkey hvalue hkind hnodup hkeys hes htakes
        · intro entry
          rw [(hoffer _ (under_bracket _ entry)).2, mem_keys_pairsAt_dict]
        · intro e he
          rw [(hoffer _ (under_bracket _ e.1)).1, valuesOf_pairsAt_dict _ hkeys he]

/-- Fields of which all are read without an error make a document of what was found for each. -/
theorem readFields_of_forall {read : Descriptor → Except Fault Reading} {fields : List Field}
    {found : Field → Option Value}
    (hread : ∀ f ∈ fields, IsFormField c f ∧ read (c.descriptorOf f) = .ok ⟨found f, []⟩) :
    readFields read (fields.map c.descriptorOf) =
      .ok ⟨Value.textEntries (Shape.entriesFor fields found), []⟩ := by
  induction fields with
  | nil => rfl
  | cons f rest ih =>
      obtain ⟨hf, hfirst⟩ := hread f List.mem_cons_self
      have hrest := ih fun g hg => hread g (List.mem_cons_of_mem f hg)
      have hwire := (Catalogue.names_of_describeField hf.described).2.1
      rw [List.map_cons, readFields, hf.shown, hfirst, hrest]
      cases hw : found f with
      | none =>
          rw [Shape.entriesFor_cons_of_none hw]
          rfl
      | some w =>
          rw [Shape.entriesFor_cons_of_some hw, Value.textEntries_cons, ← hwire]
          rfl

/-- Records of one model whose fields have equal values are equal. -/
theorem same_record_of_forall {fields : List Field} {value value' : Field → Value} (model : String)
    (hsame : ∀ f ∈ fields, (value f).same (value' f) = true) :
    (Value.record model (fields.map fun f => (f.name, value f))).same
      (.record model (fields.map fun f => (f.name, value' f))) = true := by
  have heach : ∀ fs : List Field, (∀ f ∈ fs, f ∈ fields) →
      Value.eachAttributeIn (fs.map fun f => (f.name, value f)) (fields.map fun f => (f.name, value' f)) =
        true := by
    intro fs
    induction fs with
    | nil => simp [Value.eachAttributeIn]
    | cons f rest ih =>
        intro hfs
        have hf := hfs f List.mem_cons_self
        have hrest := ih fun g hg => hfs g (List.mem_cons_of_mem f hg)
        have hmem : (f.name, value' f) ∈ fields.map fun f => (f.name, value' f) := List.mem_map.mpr ⟨f, hf, rfl⟩
        rw [List.map_cons, Value.eachAttributeIn, hrest, Bool.and_true]
        refine List.any_eq_true.mpr ⟨_, hmem, ?_⟩
        simp [hsame f hf]
  rw [Value.same, heach fields fun f hf => hf]
  simp

/-- What the fields of a record write under the key of one of them is what that field writes. -/
theorem agrees_of_record {m : Model} {name : String} {value : Field → Value} {f : Field}
    (hm : c.model? name = some m) (hapart : m.fields.Pairwise Field.Apart)
    (hforms : (m.fields.map fun f => (c.descriptorOf f).formName).Nodup)
    (hfields : ∀ f ∈ m.fields, IsFormField c f) (hf : f ∈ m.fields)
    (hoffer : ∀ key, base = "" ∨ Under base key →
      o.Agrees (pairsAt c base (.record m.name (m.fields.map fun f => (f.name, value f)))) key) :
    ∀ key, Under (keyUnder base (c.descriptorOf f).formName) key →
      o.Agrees (pairsAt c (keyUnder base (c.descriptorOf f).formName) (value f)) key := by
  intro key hkey
  have hdescriptors : descriptorsOf c m.name = m.fields.map c.descriptorOf := by
    rw [descriptorsOf, Catalogue.name_of_model? hm, hm]
  have hnodup : m.fields.Nodup := by
    apply hapart.imp
    rintro g h happart rfl
    exact happart.1 rfl
  have hinside : base = "" ∨ Under base key := by
    by_cases hbase : base = ""
    · exact .inl hbase
    · exact .inr (hkey.of_keyUnder hbase)
  have hwhole := hoffer key hinside
  rw [pairsAt, hdescriptors, pairsOf_map] at hwhole
  apply agrees_of_flatMap hnodup hf _ hwhole
  -- What another field writes is under its own key, and no key is under both.
  rintro g hg hne p hp rfl
  have hplain := forall_of_isPlainName (hfields g hg).named
  have hunder := under_of_mem_pairsAt (keyUnder_ne_empty (.inr hplain.1)) (value g) p hp
  have hname := eq_of_under (hfields g hg).named (hfields f hf).named hunder hkey
  exact hne (List.inj_on_of_nodup_map hforms hg hf hname)

/-- The records around a record of a form are of different models, so there are fewer of them than models. -/
theorem length_lt_of_around {around : List String} {name : String} {m : Model} (hm : c.model? name = some m)
    (hnew : name ∉ around) (hnodup : around.Nodup) (hknown : ∀ n ∈ around, n ∈ c.models.map Model.name) :
    around.length < c.models.length := by
  have hname : name ∈ c.models.map Model.name := by
    rw [← Catalogue.name_of_model? hm]
    exact List.mem_map_of_mem (List.mem_of_find?_eq_some hm)
  have hall : (name :: around).Subperm (c.models.map Model.name) := by
    apply List.subperm_of_subset (List.nodup_cons.mpr ⟨hnew, hnodup⟩)
    intro n hn
    rcases List.mem_cons.mp hn with rfl | hlater
    · exact hname
    · exact hknown n hlater
  have hlength := List.Subperm.length_le hall
  rw [List.length_cons, List.length_map] at hlength
  omega

/-- A form that offers under the key of a record what the record writes there is read without an error, and
an equal record is built from what was read. -/
theorem readsRecord_of_isInstance (hform : o.source = .form) (hnodup : o.keys.Nodup) (depth : Nat) :
    ∀ (fuel : Nat) (around : List String) (name base path : String) (x : Value),
      IsFormModel c around name → around.Nodup → (∀ n ∈ around, n ∈ c.models.map Model.name) →
      c.models.length ≤ fuel + around.length → IsInstance Value.IsReadable c depth name x →
      (∀ key, base = "" ∨ Under base key → o.Agrees (pairsAt c base x) key) →
      ReadsRecord (Shape.fitRecord c depth) name x (readRecord c fuel name [o] base path) := by
  induction depth with
  | zero => exact fun _ _ _ _ _ _ _ _ _ _ hx => hx.elim
  | succ depth ih =>
      intro fuel around name base path x hmodel haround hknown hfuel hx hoffer
      obtain ⟨m, value, hm, rfl, hholds⟩ := hx
      obtain ⟨hnew, hm', hstrict, hapart, hforms, hfields, hinner⟩ := hmodel
      obtain rfl : m = _ := Option.some.inj (hm.symm.trans hm')
      have hlength := length_lt_of_around hm hnew haround hknown
      obtain ⟨fuel, rfl⟩ : ∃ k, fuel = k + 1 := ⟨fuel - 1, by omega⟩
      have hnext : ∀ n ∈ name :: around, n ∈ c.models.map Model.name := by
        intro n hn
        rcases List.mem_cons.mp hn with rfl | hlater
        · rw [← Catalogue.name_of_model? hm]
          exact List.mem_map_of_mem (List.mem_of_find?_eq_some hm)
        · exact hknown n hlater
      have hreads : ∀ f ∈ m.fields, ReadsAs c (Shape.fitRecord c depth) f (value f)
          (readField c (readRecord c fuel) [o] base path (c.descriptorOf f)) := by
        intro f hf
        have hown := agrees_of_record hm hapart hforms hfields hf hoffer
        apply readsAs_of_holds hform hnodup (hfields f hf) (hholds f hf) hown
        intro inner ht hv
        apply ih fuel (name :: around) inner _ _ _ (hinner f hf inner ht) (List.nodup_cons.mpr ⟨hnew, haround⟩)
          hnext _ hv
        · intro key hkey
          have hplain := forall_of_isPlainName (hfields f hf).named
          rcases hkey with hempty | hunder
          · exact absurd hempty (keyUnder_ne_empty (.inr hplain.1))
          · exact hown key hunder
        · rw [List.length_cons]
          omega
      choose! found value' hread hsettles hsame using hreads
      have hdescribe := Catalogue.describe_of_forall fun f hf => (hfields f hf).described
      have hentries := readFields_of_forall fun f hf => ⟨hfields f hf, hread f hf⟩
      have hdict : Value.dictOf (Value.textEntries (Shape.entriesFor m.fields found)) =
          Value.textEntries (Shape.entriesFor m.fields found) := Value.dictOf_textEntries (Shape.nodup_entriesFor hapart)
      have hbuild := Shape.fitRecord_of_settles hm hstrict hdescribe hapart hsettles
      refine ⟨Shape.entriesFor m.fields found, _, _, _, ?_, rfl, hbuild, same_record_of_forall m.name hsame⟩
      simp only [readRecord, hm, Action.describe_eq_ok hdescribe, ok_bind, hentries, hdict, pure_eq_ok]

/-- Binding a form inverts the canonical form of an instance: where a form offers exactly the names and texts
that write the instance, reading tells no error, and the record that is built equals the instance. -/
theorem form_round_trip {name : String} {x : Value} (hmodel : IsFormModel c [] name)
    (hx : IsInstance Value.IsReadable c Shape.maxDepth name x) (hform : o.source = .form)
    (hnodup : o.keys.Nodup) (hvalues : ∀ key, o.values key = Request.valuesOf (pairsAt c "" x) key)
    (hkeys : ∀ key, key ∈ o.keys ↔ key ∈ (pairsAt c "" x).map Prod.fst) :
    ∃ entries y, decodeStrings c name [o] = .ok ⟨entries, []⟩ ∧ buildValue c name entries = (y, []) ∧
      x.same y = true := by
  have hfuel : c.models.length ≤ Catalogue.depthBound c [o] + ([] : List String).length := by
    simp only [Catalogue.depthBound, List.length_cons, List.length_nil]
    omega
  obtain ⟨es, model, attributes, attributes', hread, -, ⟨r, hr, hvalue⟩, hsame⟩ :=
    readsRecord_of_isInstance hform hnodup Shape.maxDepth (Catalogue.depthBound c [o]) [] name "" "" x hmodel
      List.nodup_nil (by simp) hfuel hx fun key _ => ⟨hvalues key, hkeys key⟩
  refine ⟨Value.textEntries es, .record model attributes', hread, ?_, hsame⟩
  simp only [buildValue, Shape.build, hr, Except.map, hvalue]

/-- A letter with a title, pages, marks and a sender. -/
def letterCatalogue : Catalogue :=
  ⟨[plainModel "Letter" [plainField "title" .str, plainField "pages" (.list .int),
      plainField "marks" (.dict .str .bool), plainField "sender" (.record "Sender")],
    plainModel "Sender" [plainField "name" .str]], []⟩

/-- A letter with an empty title, and with a mark whose name has brackets in it. -/
def letter : Value :=
  .record "Letter" [("title", .text ""), ("pages", .list [.int 3, .int (-1)]),
    ("marks", .dict (Value.textEntries [("]a[", .bool true), ("", .bool false)])),
    ("sender", .record "Sender" [("name", .text "Ada")])]

/-- What a form offers in which some names and texts stand. -/
def offerOf (pairs : List (String × String)) : Offer :=
  ⟨.form, Request.valuesOf pairs, Request.namesOf pairs⟩

theorem isFormModel_letter : IsFormModel letterCatalogue [] "Letter" := by
  have hplain : ∀ m ∈ letterCatalogue.models, ∀ f ∈ m.fields, IsFormField letterCatalogue f := by
    intro m hm f hf
    simp only [letterCatalogue, plainModel, List.mem_cons, List.not_mem_nil, or_false] at hm
    rcases hm with rfl | rfl <;> simp only [List.mem_cons, List.not_mem_nil, or_false] at hf
    · rcases hf with rfl | rfl | rfl | rfl
      all_goals exact ⟨rfl, rfl, rfl, rfl, rfl, by decide +kernel, fun _ => rfl, by rintro _ _ ⟨⟩ ⟨⟩⟩
    · obtain rfl := hf
      exact ⟨rfl, rfl, rfl, rfl, rfl, by decide +kernel, fun _ => rfl, by rintro _ _ ⟨⟩ ⟨⟩⟩
  have hsender : IsFormModel letterCatalogue ["Letter"] "Sender" := by
    refine ⟨by decide, rfl, rfl, by decide, by decide +kernel, hplain _ (by simp [letterCatalogue]), ?_⟩
    intro f hf inner ht
    obtain rfl := List.mem_singleton.mp hf
    cases ht
  refine ⟨by decide, rfl, rfl, by decide, by decide +kernel, hplain _ (by simp [letterCatalogue]), ?_⟩
  intro f hf inner ht
  simp only [plainModel, List.mem_cons, List.not_mem_nil, or_false] at hf
  rcases hf with rfl | rfl | rfl | rfl <;> cases ht
  exact hsender

theorem isInstance_letter (depth : Nat) :
    IsInstance Value.IsReadable letterCatalogue (depth + 2) "Letter" letter := by
  have hsender : IsInstance Value.IsReadable letterCatalogue (depth + 1) "Sender"
      (.record "Sender" [("name", .text "Ada")]) := by
    refine ⟨_, fun _ => .text "Ada", rfl, rfl, ?_⟩
    intro f hf
    obtain rfl := List.mem_singleton.mp hf
    exact .inr ⟨⟨_, rfl, rfl⟩, .scalar rfl ⟨.text "Ada", trivial⟩⟩
  refine ⟨_, fun f => match f.type with
    | .str => .text ""
    | .list _ => .list [.int 3, .int (-1)]
    | .dict _ _ => .dict (Value.textEntries [("]a[", .bool true), ("", .bool false)])
    | _ => .record "Sender" [("name", .text "Ada")], rfl, rfl, ?_⟩
  intro f hf
  simp only [plainModel, List.mem_cons, List.not_mem_nil, or_false] at hf
  rcases hf with rfl | rfl | rfl | rfl
  · exact .inr ⟨⟨_, rfl, rfl⟩, .scalar rfl ⟨.text "", trivial⟩⟩
  · refine .inr ⟨⟨_, rfl, rfl⟩, .scalars rfl rfl ?_⟩
    intro x hx
    have hshort : ∀ i ∈ [3, -1], Number.digitCount i ≤ Number.maxDigits := by decide +kernel
    obtain ⟨i, hi, rfl⟩ := List.mem_map.mp (show x ∈ [3, -1].map Value.int from hx)
    exact ⟨.int i, hshort i hi⟩
  · have hkeys : ([("]a[", Value.bool true), ("", .bool false)].map Prod.fst).Nodup := by decide
    have hdict := congrArg Value.dict (Value.dictOf_textEntries hkeys)
    refine .inr ⟨⟨_, rfl, hdict⟩, .map rfl rfl rfl hkeys ?_⟩
    intro e he
    simp only [List.mem_cons, List.not_mem_nil, or_false] at he
    rcases he with rfl | rfl <;> exact ⟨.bool _, trivial⟩
  · exact .inr ⟨⟨_, rfl, rfl⟩, .record hsender⟩

/-- A letter is read back from what writes it. -/
theorem form_round_trip_letter :
    IsFormModel letterCatalogue [] "Letter" ∧
      IsInstance Value.IsReadable letterCatalogue Shape.maxDepth "Letter" letter ∧
      pairsAt letterCatalogue "" letter = [("title", ""), ("pages", "3"), ("pages", "-1"), ("marks[]a[]", "true"),
        ("marks[]", "false"), ("sender.name", "Ada")] ∧
      ∃ entries y, decodeStrings letterCatalogue "Letter" [offerOf (pairsAt letterCatalogue "" letter)] =
          .ok ⟨entries, []⟩ ∧
        buildValue letterCatalogue "Letter" entries = (y, []) ∧ letter.same y = true := by
  have hpairs : pairsAt letterCatalogue "" letter = [("title", ""), ("pages", "3"), ("pages", "-1"),
      ("marks[]a[]", "true"), ("marks[]", "false"), ("sender.name", "Ada")] := by decide +kernel
  have hnames : (Request.namesOf (pairsAt letterCatalogue "" letter)).Nodup ∧
      ∀ key, key ∈ Request.namesOf (pairsAt letterCatalogue "" letter) ↔
        key ∈ (pairsAt letterCatalogue "" letter).map Prod.fst := by
    rw [hpairs]
    have hnamed : Request.namesOf [("title", ""), ("pages", "3"), ("pages", "-1"), ("marks[]a[]", "true"),
      ("marks[]", "false"), ("sender.name", "Ada")] =
        ["title", "pages", "marks[]a[]", "marks[]", "sender.name"] := by decide +kernel
    rw [hnamed]
    exact ⟨by decide, by simp⟩
  have hx := isInstance_letter 253
  exact ⟨isFormModel_letter, hx, hpairs, form_round_trip isFormModel_letter hx rfl hnames.1 (fun _ => rfl) hnames.2⟩

/-- A model of one moment. -/
def momentCatalogue : Catalogue := ⟨[plainModel "Visit" [plainField "at" .moment]], []⟩

/-- A visit whose offset is one microsecond. -/
def visit : Value :=
  .record "Visit" [("at", .moment ⟨⟨2024, 1, 15⟩, ⟨10, 30, 0, 0⟩, some 1⟩)]

/-- An offset below one second is written in full but read as none, so what is read is another moment. -/
theorem form_round_trip_fails_on_offset :
    IsFormModel momentCatalogue [] "Visit" ∧
      IsInstance (fun v => ∃ m, v = .moment m ∧ m.offset = some 1) momentCatalogue Shape.maxDepth "Visit" visit ∧
      pairsAt momentCatalogue "" visit = [("at", "2024-01-15T10:30:00+00:00:00.000001")] ∧
      ¬ ∃ entries y, decodeStrings momentCatalogue "Visit" [offerOf (pairsAt momentCatalogue "" visit)] =
          .ok ⟨entries, []⟩ ∧
        buildValue momentCatalogue "Visit" entries = (y, []) ∧ visit.same y = true := by
  refine ⟨⟨by decide, rfl, rfl, by decide, by decide +kernel, ?_, ?_⟩, ?_, by decide +kernel, ?_⟩
  · intro f hf
    obtain rfl := List.mem_singleton.mp hf
    exact ⟨rfl, rfl, rfl, rfl, rfl, by decide +kernel, fun _ => rfl, by rintro _ _ ⟨⟩ ⟨⟩⟩
  · intro f hf inner ht
    obtain rfl := List.mem_singleton.mp hf
    cases ht
  · refine ⟨_, fun _ => .moment ⟨⟨2024, 1, 15⟩, ⟨10, 30, 0, 0⟩, some 1⟩, rfl, rfl, ?_⟩
    intro f hf
    obtain rfl := List.mem_singleton.mp hf
    exact .inr ⟨⟨_, rfl, rfl⟩, .scalar rfl ⟨.moment (by decide +kernel), _, rfl, rfl⟩⟩
  · rintro ⟨entries, y, hread, hbuild, hsame⟩
    have hother : (match decodeStrings momentCatalogue "Visit" [offerOf (pairsAt momentCatalogue "" visit)] with
        | .ok found => visit.same (buildValue momentCatalogue "Visit" found.entries).1
        | .error _ => false) = false := by decide +kernel
    rw [hread] at hother
    dsimp only at hother
    rw [hbuild, hsame] at hother
    cases hother

end Intake.Binding
