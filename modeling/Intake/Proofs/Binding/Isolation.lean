import Intake.Proofs.Binding.Termination

/-!
Which part of a request a field is read from. A leaf that is reached through records is read from the offers
that every field on the way to it admits, and from nothing else: other offers change neither what is bound
nor the errors that are told at its place. Of the offers that are admitted, the first one with a text under
the key of the leaf decides.
-/

namespace Intake.Binding

variable {c : Catalogue} {root : String} {way : List Descriptor} {leaf : Descriptor}

/-- A way from a model through fields that are records to a field that is none. -/
inductive LeadsTo (c : Catalogue) : String → List Descriptor → Descriptor → Prop where
  | leaf {name : String} {m : Model} {fields : List Descriptor} {d : Descriptor} (hm : c.model? name = some m)
      (hfields : c.describe m = .ok fields) (hd : d ∈ fields) (hkind : d.kind ≠ .record) : LeadsTo c name [] d
  | inside {name next : String} {m : Model} {fields way : List Descriptor} {d leaf : Descriptor}
      (hm : c.model? name = some m) (hfields : c.describe m = .ok fields) (hd : d ∈ fields)
      (hkind : d.kind = .record) (hmodel : d.model = some next) (hrest : LeadsTo c next way leaf) :
      LeadsTo c name (d :: way) leaf

/-- Whether a leaf at the end of a way may be read from a part of a request: no field on the way is left out,
each is bound to no part or to this one, and the part can offer what is inside records and maps, unless the
leaf is a scalar or an array of the outermost record. -/
def admits (way : List Descriptor) (leaf : Descriptor) (source : Source) : Bool :=
  (way ++ [leaf]).all (fun d => !d.formSkip && (d.source == .auto || d.source == source)) &&
    (source.isNested || (way.isEmpty && leaf.kind != .map))

/-- The offers that a leaf may be read from. -/
def offersFor (way : List Descriptor) (leaf : Descriptor) (offers : List Offer) : List Offer :=
  offers.filter fun o => admits way leaf o.source

/-- The key of the record at the end of a way. -/
def baseOf (base : String) (way : List Descriptor) : String :=
  way.foldl (fun base d => keyUnder base d.formName) base

/-- The place at which errors of a leaf are told. -/
def placeOf (path : String) (way : List Descriptor) (leaf : Descriptor) : String :=
  (way ++ [leaf]).foldl (fun path d => Validation.join path d.wireName) path

/-- The entry of a leaf, if there is one. -/
def entryAt (leaf : Descriptor) : List Descriptor → List (Value × Value) → Option Value
  | [], entries => Value.lookupText leaf.wireName entries
  | d :: way, entries =>
    match Value.lookupText d.wireName entries with
    | some (.dict inner) => entryAt leaf way inner
    | _ => none

theorem entryAt_nil (leaf : Descriptor) (way : List Descriptor) : entryAt leaf way [] = none := by
  cases way <;> rfl

/-- The errors that are told at a place. -/
def errorsAt (place : String) (errors : List FieldError) : List FieldError :=
  errors.filter fun e => e.field == place

/-- What is read for a leaf from offers that it admits. -/
def leafReading (c : Catalogue) (leaf : Descriptor) (base path : String) (offers : List Offer) :
    Except Fault Reading :=
  if leaf.kind = .map then readMaps c leaf base path offers else readLeaf leaf base path offers

/-- The errors at a place below that of one field are told for that field. -/
theorem errorsAt_flatMap {fields : List Descriptor} {reading : Descriptor → Reading} {path place : String}
    {d : Descriptor} (hnodup : (fields.map Descriptor.wireName).Nodup)
    (hplain : ∀ d ∈ fields, '.' ∉ d.wireName.toList)
    (htold : ∀ d ∈ fields, ToldBelow (Validation.join path d.wireName) (reading d).errors) (hd : d ∈ fields)
    (hplace : Below (Validation.join path d.wireName) place) :
    errorsAt place (fields.flatMap fun d => (reading d).errors) = errorsAt place (reading d).errors := by
  obtain ⟨before, after, hwhole, hothers⟩ : ∃ before after,
      (fields.flatMap fun d => (reading d).errors) = before ++ (reading d).errors ++ after ∧
        ∀ e ∈ before ++ after, ∃ other ∈ fields, other ≠ d ∧ e ∈ (reading other).errors :=
    exists_flatMap_eq (List.Nodup.of_map _ hnodup) hd
  have helsewhere : ∀ e ∈ before ++ after, ¬(e.field == place) = true := by
    intro e he hsame
    obtain ⟨other, hother, hne, heother⟩ := hothers e he
    have hbelow := htold other hother e heother
    rw [eq_of_beq hsame] at hbelow
    have hnames := eq_of_below (hplain other hother) (hplain d hd) hbelow hplace
    exact hne (List.inj_on_of_nodup_map hnodup hother hd hnames)
  have hbefore : errorsAt place before = [] :=
    List.filter_eq_nil_iff.mpr fun e he => helsewhere e (List.mem_append_left after he)
  have hafter : errorsAt place after = [] :=
    List.filter_eq_nil_iff.mpr fun e he => helsewhere e (List.mem_append_right before he)
  unfold errorsAt at hbefore hafter ⊢
  rw [hwhole, List.filter_append, List.filter_append, hbefore, hafter, List.nil_append, List.append_nil]

/-- What is read for one field of a record, as it is seen in the record: the entry under its key, and the errors
below its place. -/
theorem exists_reading (hnames : HasPlainNames c root) {name : String}
    (hreach : Relation.ReflTransGen (Encloses c) root name) {m : Model} {fields : List Descriptor} {depth : Nat}
    {offers : List Offer} {base path : String} {found : Decoded} {d : Descriptor} (hm : c.model? name = some m)
    (hfields : c.describe m = .ok fields) (hd : d ∈ fields)
    (hread : readRecord c depth name offers base path = .ok found) :
    ∃ (depth' : Nat) (reading : Reading), Value.lookupText d.wireName found.entries = reading.value ∧
      (∀ place, Below (Validation.join path d.wireName) place →
        errorsAt place found.errors = errorsAt place reading.errors) ∧
      ((d.formSkip = true ∧ reading = .nothing) ∨
        (d.formSkip = false ∧ readField c (readRecord c depth') offers base path d = .ok reading)) := by
  cases depth with
  | zero => cases hread
  | succ depth =>
      obtain ⟨hnodup, hplain⟩ := hnames.of_describe hreach hm hfields
      obtain ⟨reading, hentries, herrors, hskipped, hshown⟩ := exists_readings hm hfields hnodup hread
      refine ⟨depth, reading d, ?_, fun place hplace => ?_, ?_⟩
      · rw [hentries, Value.lookupText_textEntries]
        exact lookup_filterMap hnodup hd
      · rw [herrors]
        refine errorsAt_flatMap hnodup (fun d hd => (hplain d hd).2) (fun d hd => ?_) hd hplace
        cases hskip : d.formSkip with
        | true =>
            rw [hskipped d hd hskip]
            exact (toldAt_nil _).below
        | false =>
            have htold := toldBelow_readField hnames hreach hm hfields hd
              (fun model hmodel => toldBelow_readRecord hnames depth hmodel) offers base path
            rw [hshown d hd hskip] at htold
            exact htold
      · cases hskip : d.formSkip with
        | true => exact .inl ⟨rfl, hskipped d hd hskip⟩
        | false => exact .inr ⟨rfl, hshown d hd hskip⟩

theorem leafReading_nil (leaf : Descriptor) (base path : String) :
    leafReading c leaf base path [] = .ok .nothing := by
  unfold leafReading
  split <;> rfl

theorem gives_leafReading (leaf : Descriptor) (base path : String) (offers : List Offer) :
    Gives Fault.IsDeclared (fun found => ToldAt path found.errors) (leafReading c leaf base path offers) := by
  unfold leafReading
  split
  · exact gives_readMaps (readsBy_declared leaf offers) base path
  · exact gives_readLeaf (readsBy_declared leaf offers) base path

/-- A field that is left out admits nothing, for itself and for what is inside it. -/
theorem offersFor_of_skipped {d : Descriptor} (hd : d ∈ way ++ [leaf]) (hskip : d.formSkip = true)
    (offers : List Offer) : offersFor way leaf offers = [] := by
  apply List.filter_eq_nil_iff.mpr
  intro o _ hadmits
  have hall := List.all_eq_true.mp (Bool.and_eq_true_iff.mp hadmits).1 d hd
  simp [hskip] at hall

/-- What a leaf inside a field admits is what it admits of the nested offers that the field admits. -/
theorem offersFor_inside {d : Descriptor} (hshown : d.formSkip = false) (offers : List Offer) :
    offersFor way leaf (offersInside d offers) = offersFor (d :: way) leaf offers := by
  unfold offersFor offersInside admitted
  rw [List.filter_filter, List.filter_filter]
  apply List.filter_congr
  intro o _
  simp only [admits, List.cons_append, List.all_cons, hshown, List.isEmpty_cons]
  cases o.source.isNested <;> simp [Bool.and_comm, Bool.and_assoc]

/-- What is read for a leaf of the outermost record. -/
theorem readField_leaf (record : String → List Offer → String → String → Except Fault Decoded)
    (hkind : leaf.kind ≠ .record) (hshown : leaf.formSkip = false) (offers : List Offer) (base path : String) :
    readField c record offers base path leaf =
      leafReading c leaf base (Validation.join path leaf.wireName) (offersFor [] leaf offers) := by
  unfold readField leafReading
  dsimp only
  by_cases hmap : leaf.kind = .map
  · have hoffers : ((admitted leaf offers).filter fun o => o.source.isNested) =
        offersFor [] leaf offers := by
      unfold admitted
      rw [List.filter_filter]
      exact List.filter_congr fun o _ => by simp [admits, hshown, hmap, Bool.and_comm]
    simp [hmap, hoffers]
  · have hoffers : admitted leaf offers = offersFor [] leaf offers :=
      List.filter_congr fun o _ => by simp [admits, hshown, hmap]
    rw [if_neg hmap, hoffers]
    split
    · exact absurd ‹_› hkind
    · exact absurd ‹_› hkind
    · exact absurd ‹_› hmap
    · rfl

theorem below_placeOf {path : String} (hpath : path ≠ "") : Below path (placeOf path way leaf) := by
  induction way generalizing path with
  | nil => exact (below_refl (Validation.join path leaf.wireName)).of_join hpath
  | cons d rest ih =>
      have hinner : Validation.join path d.wireName ≠ "" := keyUnder_ne_empty (.inl hpath)
      exact (ih hinner).of_join hpath

/-- What a record has for a leaf, and the errors that it tells at the place of the leaf, are what is read for the
leaf from the offers that it admits. -/
theorem exists_leafReading (hnames : HasPlainNames c root) {name : String} (hway : LeadsTo c name way leaf)
    (hreach : Relation.ReflTransGen (Encloses c) root name) {depth : Nat} {offers : List Offer} {base path : String}
    {found : Decoded} (hread : readRecord c depth name offers base path = .ok found) :
    ∃ reading, leafReading c leaf (baseOf base way) (placeOf path way leaf) (offersFor way leaf offers) = .ok reading ∧
      entryAt leaf way found.entries = reading.value ∧
      errorsAt (placeOf path way leaf) found.errors = reading.errors := by
  induction hway generalizing depth offers base path found with
  | @leaf name m fields leaf hm hfields hd hkind =>
      obtain ⟨depth', reading, hentry, herrors, hskipped | hshown⟩ :=
        exists_reading hnames hreach hm hfields hd hread
      · obtain ⟨hskip, rfl⟩ := hskipped
        refine ⟨.nothing, ?_, hentry, herrors _ (below_refl _)⟩
        rw [offersFor_of_skipped (by simp) hskip, leafReading_nil]
      · obtain ⟨hskip, hfield⟩ := hshown
        rw [readField_leaf _ hkind hskip] at hfield
        refine ⟨reading, hfield, hentry, ?_⟩
        have htold := gives_leafReading (c := c) leaf base (Validation.join path leaf.wireName)
          (offersFor [] leaf offers)
        rw [hfield] at htold
        refine (herrors _ (below_refl _)).trans (List.filter_eq_self.mpr fun e he => ?_)
        exact beq_iff_eq.mpr (htold e he)
  | @inside name next m fields way d leaf hm hfields hd hkind hmodel hrest ih =>
      have hname := ((hnames.of_describe hreach hm hfields).2 d hd).1
      have hplace : Below (Validation.join path d.wireName) (placeOf path (d :: way) leaf) :=
        below_placeOf (Validation.join_ne_empty hname)
      have hnext := hreach.tail (encloses_of_describe hm hfields hd hkind hmodel)
      obtain ⟨depth', reading, hentry, herrors, hskipped | hshown⟩ :=
        exists_reading hnames hreach hm hfields hd hread
      · obtain ⟨hskip, rfl⟩ := hskipped
        refine ⟨.nothing, ?_, ?_, herrors _ hplace⟩
        · rw [offersFor_of_skipped (by simp) hskip, leafReading_nil]
        · rw [entryAt, hentry]
          rfl
      · obtain ⟨hskip, hfield⟩ := hshown
        rw [← offersFor_inside hskip]
        rcases readField_record hkind hmodel hfield with ⟨hnone, rfl⟩ | ⟨inner, hinner, rfl⟩
        · refine ⟨.nothing, ?_, ?_, herrors _ hplace⟩
          · rw [hnone, offersFor, List.filter_nil, leafReading_nil]
          · rw [entryAt, hentry]
            rfl
        · obtain ⟨reading, hreading, hvalue, hplaced⟩ := ih hnext hinner
          refine ⟨reading, hreading, ?_, (herrors _ hplace).trans hplaced⟩
          rw [entryAt, hentry]
          by_cases hempty : inner.entries.isEmpty
          · rw [List.isEmpty_iff.mp hempty, entryAt_nil] at hvalue
            simpa [hempty] using hvalue
          · simpa [hempty] using hvalue

/-- Two readings that have the same entry for a leaf and tell the same errors at its place. Each of them may have
failed by what is declared. -/
def SameAt (way : List Descriptor) (leaf : Descriptor) (x y : Except Fault Decoded) : Prop :=
  Gives Fault.IsDeclared (fun found => Gives Fault.IsDeclared (fun found' =>
    entryAt leaf way found.entries = entryAt leaf way found'.entries ∧
      errorsAt (placeOf "" way leaf) found.errors = errorsAt (placeOf "" way leaf) found'.errors) y) x

/-- Where what is read for a leaf from the offers that it admits is the same, so is what becomes of it. -/
theorem sameAt_of_leafReading (hunfolded : IsUnfolded c root) (hnames : HasPlainNames c root)
    (hway : LeadsTo c root way leaf) {offers offers' : List Offer}
    (hsame : leafReading c leaf (baseOf "" way) (placeOf "" way leaf) (offersFor way leaf offers) =
      leafReading c leaf (baseOf "" way) (placeOf "" way leaf) (offersFor way leaf offers')) :
    SameAt way leaf (decodeStrings c root offers) (decodeStrings c root offers') := by
  have hends := gives_decodeStrings hunfolded offers
  have hends' := gives_decodeStrings hunfolded offers'
  unfold SameAt
  cases hread : decodeStrings c root offers with
  | error fault =>
      rw [hread] at hends
      exact hends
  | ok found =>
      cases hread' : decodeStrings c root offers' with
      | error fault =>
          rw [hread'] at hends'
          exact hends'
      | ok found' =>
          obtain ⟨reading, hreading, hentry, herrors⟩ := exists_leafReading hnames hway .refl hread
          obtain ⟨reading', hreading', hentry', herrors'⟩ := exists_leafReading hnames hway .refl hread'
          rw [hsame, hreading'] at hreading
          obtain rfl := Except.ok.inj hreading
          exact ⟨hentry.trans hentry'.symm, herrors.trans herrors'.symm⟩

/-- Offers behind the first one with texts under the key of a field are not looked at. -/
theorem firstTexts_append {d : Descriptor} {base : String} (before after : List Offer) {o : Offer}
    (hoffer : o.values (keyUnder base (d.nameIn o.source)) ≠ []) :
    firstTexts d base (before ++ o :: after) = firstTexts d base (before ++ [o]) := by
  induction before with
  | nil =>
      have hread := gives_read o (keyUnder base (d.nameIn o.source))
      rw [List.nil_append, List.nil_append, firstTexts, firstTexts]
      cases hraws : o.read (keyUnder base (d.nameIn o.source)) with
      | error fault => rfl
      | ok raws =>
          rw [hraws] at hread
          have hsome : raws.isEmpty = false := by
            rw [show raws = _ from hread]
            simpa using hoffer
          rw [ok_bind, ok_bind, hsome]
          rfl
  | cons first rest ih => rw [List.cons_append, List.cons_append, firstTexts, firstTexts, ih]

theorem offersFor_cons (o : Offer) (offers : List Offer) :
    offersFor way leaf (o :: offers) =
      if admits way leaf o.source then o :: offersFor way leaf offers else offersFor way leaf offers := by
  unfold offersFor
  rw [List.filter_cons]

theorem offersFor_eq_of_forall₂ {offers offers' : List Offer}
    (h : List.Forall₂ (fun o o' => o.source = o'.source ∧ (admits way leaf o.source = true → o = o')) offers offers') :
    offersFor way leaf offers = offersFor way leaf offers' := by
  induction h with
  | nil => rfl
  | @cons o o' rest rest' hhead _ ih =>
      obtain ⟨hsource, hagree⟩ := hhead
      by_cases hadmits : admits way leaf o.source = true
      · obtain rfl := hagree hadmits
        simp [offersFor_cons, hadmits, ih]
      · simp [offersFor_cons, ← hsource, hadmits, ih]

theorem readLeaf_append {d : Descriptor} {base : String} (path : String) (before after : List Offer) {o : Offer}
    (hoffer : o.values (keyUnder base (d.nameIn o.source)) ≠ []) :
    readLeaf d base path (before ++ o :: after) = readLeaf d base path (before ++ [o]) := by
  unfold readLeaf
  rw [firstTexts_append before after hoffer]

/-- A text that only a header may bring. -/
def tokenField : Field :=
  { plainField "token" .str with annotations := { Annotations.none with source := some "header" } }

/-- Texts that are looked for. -/
def tagsField : Field := plainField "tags" (.list .str)

/-- What a call looks for. -/
def filterField : Field := plainField "filter" (.record "Filter")

/-- Calls with a token and a filter. -/
def callCatalogue : Catalogue :=
  ⟨[plainModel "Call" [tokenField, filterField], plainModel "Filter" [tagsField]], []⟩

theorem isUnfolded_call : IsUnfolded callCatalogue "Call" :=
  isUnfolded_of_rank (fun name => if name = "Call" then 1 else 0) (by decide)

theorem hasPlainNames_call : HasPlainNames callCatalogue "Call" := by
  intro name m _ hm
  have hall : ∀ m ∈ callCatalogue.models, (m.fields.map Field.wireName).Nodup ∧
      ∀ f ∈ m.fields, f.wireName ≠ "" ∧ '.' ∉ f.wireName.toList := by decide
  exact hall m (List.mem_of_find?_eq_some hm)

theorem leadsTo_token : LeadsTo callCatalogue "Call" [] (callCatalogue.descriptorOf tokenField) :=
  .leaf rfl rfl List.mem_cons_self (by decide)

theorem leadsTo_tags : LeadsTo callCatalogue "Call" [callCatalogue.descriptorOf filterField]
    (callCatalogue.descriptorOf tagsField) :=
  .inside rfl rfl (List.mem_cons_of_mem _ List.mem_cons_self) rfl rfl (.leaf rfl rfl List.mem_cons_self (by decide))

end Intake.Binding
