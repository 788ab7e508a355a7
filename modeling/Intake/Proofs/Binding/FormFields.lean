import Intake.Binding.Recovery
import Intake.Proofs.Binding.FormPairs
import Intake.Proofs.Model.Instance
import Mathlib.Data.List.Nodup

/-!
Fields that are written in forms and read. A form that offers under the key of a field what its value
writes there is read without an error, as something that the field takes as an equal value.
-/

namespace Intake.Binding

/-- A field that a form can hold: it is required, without a default, bound to no part of a request alone
and not left out; its name has no marks in it, no layout is asked of its moments, and its items are
not records. -/
structure IsFormField (c : Catalogue) (f : Field) : Prop where
  described : c.describeField f = .ok (c.descriptorOf f)
  required : f.type.unwrap.2 = false
  undefaulted : f.default = none
  unbound : (c.descriptorOf f).source = .auto
  shown : (c.descriptorOf f).formSkip = false
  named : isPlainName (c.descriptorOf f).formName = true
  plainMoments : (c.descriptorOf f).kind = .moment ∨ (c.descriptorOf f).elementKind = some .moment →
    layoutOf (c.descriptorOf f) = none
  flat : ∀ item name, f.type.unwrap.1 = .list item → item.unwrap.1 ≠ .record name

variable {c : Catalogue} {o : Offer} {f : Field} {v : Value} {base path : String}
  {build : String → Value → Shape.Fitted}

/-- What reading a field leads to: no error, and something from which the field gets an equal value. -/
def ReadsAs (c : Catalogue) (build : String → Value → Shape.Fitted) (f : Field) (v : Value)
    (reading : Except Fault Reading) : Prop :=
  ∃ found v', reading = .ok ⟨found, []⟩ ∧ Shape.Settles c build f v' found ∧ v.same v' = true

theorem read_of_form (hform : o.source = .form) (key : String) : o.read key = .ok (o.values key) := by
  simp [Offer.read, hform]

theorem admitted_of_form (hf : IsFormField c f) : admitted (c.descriptorOf f) [o] = [o] := by
  simp [admitted, hf.unbound]

theorem firstTexts_of_form (hform : o.source = .form) (d : Descriptor) :
    firstTexts d base [o] = .ok (o.values (keyUnder base d.formName)) := by
  simp only [firstTexts, read_of_form hform, hform, Descriptor.nameIn, ok_bind]
  by_cases hempty : (o.values (keyUnder base d.formName)).isEmpty
  · rw [List.isEmpty_iff.mp hempty]
    rfl
  · simp [hempty]

theorem IsFormField.kinds (hf : IsFormField c f) :
    (c.descriptorOf f).kind = c.kindOf f.type.unwrap.1 ∧
      (c.descriptorOf f).elementKind = f.type.unwrap.1.element?.map c.kindOf :=
  Catalogue.kinds_of_field hf.described

/-- A field that no text is offered for gets what comes of the zero value of its kind. -/
theorem IsFormField.settles_none {kind : Kind} (hf : IsFormField c f) (hkind : (c.descriptorOf f).kind = kind)
    (hany : kind ≠ .any) (htakes : Shape.Takes c build f (kind.zero?.getD .null) v) :
    Shape.Settles c build f v none :=
  Shape.settles_of_required hf.described hf.required hf.undefaulted hkind hany htakes

/-- Fields that are no maps or records are read from the texts under their key. -/
theorem readField_of_leaf (o : Offer) (base path : String)
    (record : String → List Offer → String → String → Except Fault Decoded) (hf : IsFormField c f)
    (hrecord : (c.descriptorOf f).kind ≠ .record) (hmap : (c.descriptorOf f).kind ≠ .map) :
    ∃ path', readField c record [o] base path (c.descriptorOf f) = readLeaf (c.descriptorOf f) base path' [o] := by
  refine ⟨Validation.join path (c.descriptorOf f).wireName, ?_⟩
  unfold readField
  rw [admitted_of_form hf]
  dsimp only
  split
  · exact absurd ‹_› hrecord
  · exact absurd ‹_› hrecord
  · exact absurd ‹_› hmap
  · rfl

/-- A scalar is read from the one text under its key, and the empty text from none. -/
theorem readsAs_scalar {record : String → List Offer → String → String → Except Fault Decoded}
    {kind : Kind} (hform : o.source = .form) (hf : IsFormField c f)
    (ht : f.type.unwrap.1.scalarKind? = some kind) (hv : IsScalar kind v) (hread : v.IsReadable)
    (htakes : Shape.Takes c build f v v)
    (hoffer : o.values (keyUnder base (c.descriptorOf f).formName) = [v.scalarText]) :
    ReadsAs c build f v (readField c record [o] base path (c.descriptorOf f)) := by
  have hkind : (c.descriptorOf f).kind = kind := by
    rw [hf.kinds.1, kindOf_of_scalarKind? c ht]
  obtain ⟨harray, hmap, hrecord, hany⟩ := isPlain_of_scalarKind? ht
  obtain ⟨path', hleaf⟩ := readField_of_leaf o base path record hf
    (by rwa [hkind]) (by rwa [hkind])
  rw [hleaf, readLeaf]
  rw [firstTexts_of_form hform, hoffer]
  simp only [ok_bind, hkind, beq_false_of_ne harray, Bool.false_eq_true, ↓reduceIte]
  by_cases hempty : v.scalarText = ""
  · obtain ⟨rfl, rfl⟩ := eq_text_of_scalarText_eq_empty hv hread hempty
    refine ⟨none, .text "", ?_, hf.settles_none hkind hany htakes, hv.same_self⟩
    simp [hempty, Reading.nothing]
  · have hback : kind.read v.scalarText (layoutOf (c.descriptorOf f)) = .ok (.ok v) := by
      apply read_scalarText hv hread
      intro hmoment
      exact hf.plainMoments (.inl (by rw [hkind, hmoment]))
    refine ⟨some v, v, ?_, htakes, hv.same_self⟩
    simp [hempty, readText, hback, Except.mapError]

/-- The texts of scalars are read as the scalars, one by one. -/
theorem mapM_readText {kind : Kind} {layout : Option String} {xs : List Value}
    (hxs : ∀ x ∈ xs, IsScalar kind x ∧ x.IsReadable) (hlayout : kind = .moment → layout = none) :
    (xs.map Value.scalarText).mapM (fun raw => readText kind raw layout) = .ok (xs.map Except.ok) := by
  rw [List.mapM_map]
  apply mapM_of_forall
  intro x hx
  obtain ⟨hscalar, hread⟩ := hxs x hx
  unfold readText
  rw [Function.comp_apply, read_scalarText hscalar hread hlayout]
  rfl

theorem sameList_self {kind : Kind} {xs : List Value} (hxs : ∀ x ∈ xs, IsScalar kind x) :
    Value.sameList xs xs = true := by
  induction xs with
  | nil => simp [Value.sameList]
  | cons x rest ih =>
      rw [Value.sameList, (hxs x List.mem_cons_self).same_self, Bool.true_and]
      exact ih fun y hy => hxs y (List.mem_cons_of_mem x hy)

theorem readItems_of_scalars {d : Descriptor} {kind : Kind} {xs : List Value} (path : String)
    (helement : d.elementKind = some kind) (hrecord : kind ≠ .record)
    (hxs : ∀ x ∈ xs, IsScalar kind x ∧ x.IsReadable) (hlayout : kind = .moment → layoutOf d = none) :
    readItems d path (xs.map Value.scalarText) = .ok (xs, []) := by
  have hfound : (xs.map Except.ok : List (Except Unreadable Value)).filterMap Except.toOption = xs := by
    induction xs with
    | nil => rfl
    | cons x rest ih =>
        have hrest := ih fun y hy => hxs y (List.mem_cons_of_mem x hy)
        rw [List.map_cons, List.filterMap_cons_some (by rfl), hrest]
  have hlost : (xs.map Except.ok : List (Except Unreadable Value)).filter (fun o => o.toOption.isNone) = [] := by
    apply List.filter_eq_nil_iff.mpr
    intro outcome houtcome
    obtain ⟨x, -, rfl⟩ := List.mem_map.mp houtcome
    simp [Except.toOption]
  rw [readItems]
  simp only [helement, Option.getD_some, beq_false_of_ne hrecord, Bool.false_eq_true, ↓reduceIte,
    mapM_readText hxs hlayout]
  simp [hfound, hlost]

/-- An array is read from the texts under its key, and the empty array from none. -/
theorem readsAs_list {record : String → List Offer → String → String → Except Fault Decoded}
    {item t : Ty} {kind : Kind} {xs : List Value} (hform : o.source = .form) (hf : IsFormField c f)
    (hlist : f.type.unwrap.1 = .list item) (hitem : item.unwrap = (t, false)) (ht : t.scalarKind? = some kind)
    (hxs : ∀ x ∈ xs, IsScalar kind x ∧ x.IsReadable) (htakes : Shape.Takes c build f (.list xs) (.list xs))
    (hoffer : o.values (keyUnder base (c.descriptorOf f).formName) = xs.map Value.scalarText) :
    ReadsAs c build f (.list xs) (readField c record [o] base path (c.descriptorOf f)) := by
  have hkind : (c.descriptorOf f).kind = .array := by
    rw [hf.kinds.1, hlist]
    rfl
  have helement : (c.descriptorOf f).elementKind = some kind := by
    rw [hf.kinds.2, hlist, Ty.element?, Option.map_some, hitem, kindOf_of_scalarKind? c ht]
  obtain ⟨-, -, hrecord, -⟩ := isPlain_of_scalarKind? ht
  have hsame : (Value.list xs).same (.list xs) = true := by
    rw [Value.same]
    exact sameList_self fun x hx => (hxs x hx).1
  obtain ⟨path', hleaf⟩ := readField_of_leaf o base path record hf
    (by rw [hkind]; decide) (by rw [hkind]; decide)
  rw [hleaf, readLeaf]
  rw [firstTexts_of_form hform, hoffer]
  cases xs with
  | nil => exact ⟨none, .list [], rfl, hf.settles_none hkind (by decide) htakes, hsame⟩
  | cons x rest =>
      have hitems := readItems_of_scalars path' helement hrecord hxs fun hmoment =>
        hf.plainMoments (.inr (by rw [helement, hmoment]))
      refine ⟨some (.list (x :: rest)), .list (x :: rest), ?_, htakes, hsame⟩
      simp only [List.map_cons] at hitems
      simp only [List.map_cons, ok_bind, hkind, beq_self_eq_true, ↓reduceIte, hitems]
      rfl

/-- The entries that a form offers under a key, as the map has them. -/
def offeredEntries (o : Offer) (key : String) (es : List (String × Value)) : List (String × Value) :=
  o.keys.filterMap fun k => (bracketed? key k).map fun entry => (entry, (es.lookup entry).getD .null)

/-- A form offers the entries of a map in some order. -/
theorem perm_offeredEntries {key : String} {es : List (String × Value)} (hnodup : o.keys.Nodup)
    (hkeys : (es.map Prod.fst).Nodup)
    (hoffer : ∀ entry, key ++ "[" ++ entry ++ "]" ∈ o.keys ↔ entry ∈ es.map Prod.fst) :
    (offeredEntries o key es).Perm es := by
  have hes : es.Nodup := List.Nodup.of_map _ hkeys
  have hoffered : (offeredEntries o key es).Nodup := by
    apply hnodup.filterMap
    intro k k' p hp hp'
    obtain ⟨entry, hentry, rfl⟩ := Option.map_eq_some_iff.mp hp
    obtain ⟨entry', hentry', hsame⟩ := Option.map_eq_some_iff.mp hp'
    rw [bracketed?_eq_some_iff.mp hentry, bracketed?_eq_some_iff.mp hentry', (Prod.mk.inj hsame).1]
  apply (List.perm_ext_iff_of_nodup hoffered hes).mpr
  rintro ⟨entry, v⟩
  constructor
  · intro hp
    obtain ⟨k, hk, hfound⟩ := List.mem_filterMap.mp hp
    obtain ⟨entry', hentry', hsame⟩ := Option.map_eq_some_iff.mp hfound
    obtain ⟨rfl, rfl⟩ := Prod.mk.inj hsame
    rw [bracketed?_eq_some_iff.mp hentry'] at hk
    obtain ⟨e, he, rfl⟩ := List.mem_map.mp ((hoffer entry').mp hk)
    rw [(lookup_eq_some_iff_mem hkeys).mpr he]
    exact he
  · intro hp
    refine List.mem_filterMap.mpr ⟨key ++ "[" ++ entry ++ "]", (hoffer entry).mpr ?_, ?_⟩
    · exact List.mem_map_of_mem hp
    · rw [bracketed?_eq_some_iff.mpr rfl, Option.map_some, (lookup_eq_some_iff_mem hkeys).mpr hp]
      rfl

/-- One entry of a map is read from the text under its key. -/
theorem readMember_of_scalar {d : Descriptor} {kind : Kind} {entry : String} (path : String)
    (hkeyKind : mapKeyKind c d = .string) (helement : d.elementKind = some kind) (hrecord : kind ≠ .record)
    (hv : IsScalar kind v) (hread : v.IsReadable) (hlayout : kind = .moment → layoutOf d = none) :
    readMember c d path entry [v.scalarText] = .ok (some (.text entry, v), []) := by
  have hback : readText kind v.scalarText (layoutOf d) = .ok (.ok v) := by
    rw [readText, read_scalarText hv hread hlayout]
    rfl
  have hentry : readText .string entry none = .ok (.ok (.text entry)) := rfl
  rw [readMember]
  simp only [hkeyKind, hentry, ok_bind, helement, Option.getD_some, beq_false_of_ne hrecord, Bool.false_eq_true,
    ↓reduceIte, hback]
  rfl

/-- All entries of a map are read, in the order of the form. -/
theorem readMap_of_scalars {d : Descriptor} {kind : Kind} {key : String} {es : List (String × Value)} (path : String)
    (hform : o.source = .form) (hkeyKind : mapKeyKind c d = .string) (helement : d.elementKind = some kind)
    (hrecord : kind ≠ .record) (hlayout : kind = .moment → layoutOf d = none) (hnodup : o.keys.Nodup)
    (hkeys : (es.map Prod.fst).Nodup) (hes : ∀ e ∈ es, IsScalar kind e.2 ∧ e.2.IsReadable)
    (hoffer : ∀ entry, key ++ "[" ++ entry ++ "]" ∈ o.keys ↔ entry ∈ es.map Prod.fst)
    (hvalues : ∀ e ∈ es, o.values (key ++ "[" ++ e.1 ++ "]") = [e.2.scalarText]) :
    readMap c d key path o = .ok (Value.textEntries (offeredEntries o key es), []) := by
  have hperm := perm_offeredEntries hnodup hkeys hoffer
  have hdict : Value.dictOf (Value.textEntries (offeredEntries o key es)) =
      Value.textEntries (offeredEntries o key es) :=
    Value.dictOf_textEntries ((hperm.map Prod.fst).nodup_iff.mpr hkeys)
  rw [readMap]
  rw [filterMapM_of_forall (g := fun k => (bracketed? key k).map fun entry =>
    (some (Value.text entry, (es.lookup entry).getD .null), []))]
  · have hentries : (o.keys.filterMap fun k => (bracketed? key k).map fun entry =>
        ((some (Value.text entry, (es.lookup entry).getD .null), []) :
          Option (Value × Value) × List FieldError)) =
        (offeredEntries o key es).map fun e => (some (Value.text e.1, e.2), []) := by
      rw [offeredEntries, List.map_filterMap]
      congr 1
      funext k
      cases bracketed? key k <;> rfl
    have hfound : ((offeredEntries o key es).map fun e =>
        ((some (Value.text e.1, e.2), []) : Option (Value × Value) × List FieldError)).filterMap (·.1) =
        Value.textEntries (offeredEntries o key es) := by
      rw [List.filterMap_map]
      exact congrFun (List.filterMap_eq_map (f := fun e : String × Value => (Value.text e.1, e.2))) _
    have hlost : ((offeredEntries o key es).map fun e =>
        ((some (Value.text e.1, e.2), []) : Option (Value × Value) × List FieldError)).flatMap (·.2) = [] := by
      rw [List.flatMap_map]
      simp
    rw [hentries]
    simp only [ok_bind, hfound, hlost, hdict, pure_eq_ok]
  · intro k hk
    rcases hentry : bracketed? key k with _ | entry
    · rfl
    · have hplace := bracketed?_eq_some_iff.mp hentry
      rw [hplace] at hk ⊢
      obtain ⟨e, he, rfl⟩ := List.mem_map.mp ((hoffer entry).mp hk)
      obtain ⟨hv, hread⟩ := hes e he
      rw [read_of_form hform, hvalues e he]
      have hlookup : es.lookup e.1 = some e.2 := (lookup_eq_some_iff_mem hkeys).mpr he
      simp only [ok_bind, readMember_of_scalar path hkeyKind helement hrecord hv hread hlayout, Option.map_some,
        hlookup, Option.getD_some, pure_eq_ok]

/-- Every entry of a map is in any order of its entries. -/
theorem eachEntryIn_of_subset {kind : Kind} {es ls : List (String × Value)}
    (hes : ∀ e ∈ es, IsScalar kind e.2) (hsubset : ∀ e ∈ es, e ∈ ls) :
    Value.eachEntryIn (Value.textEntries es) (Value.textEntries ls) = true := by
  induction es with
  | nil => simp [Value.eachEntryIn]
  | cons e rest ih =>
      have hrest := ih (fun x hx => hes x (List.mem_cons_of_mem e hx)) fun x hx =>
        hsubset x (List.mem_cons_of_mem e hx)
      have hmem : (Value.text e.1, e.2) ∈ Value.textEntries ls :=
        List.mem_map_of_mem (hsubset e List.mem_cons_self)
      rw [Value.textEntries_cons, Value.eachEntryIn, hrest, Bool.and_true]
      refine List.any_eq_true.mpr ⟨_, hmem, ?_⟩
      simp [(hes e List.mem_cons_self).same_self]

theorem same_of_perm {kind : Kind} {es ls : List (String × Value)} (hes : ∀ e ∈ es, IsScalar kind e.2)
    (hperm : ls.Perm es) : (Value.dict (Value.textEntries es)).same (.dict (Value.textEntries ls)) = true := by
  have hlength : (Value.textEntries es).length = (Value.textEntries ls).length := by
    simp [Value.textEntries, hperm.length_eq]
  rw [Value.same, hlength, beq_self_eq_true, Bool.true_and]
  exact eachEntryIn_of_subset hes fun e he => hperm.mem_iff.mpr he

/-- A map is read from the keys with brackets behind its own, and the empty map from none. -/
theorem readsAs_map {record : String → List Offer → String → String → Except Fault Decoded}
    {key value t : Ty} {kind : Kind} {es : List (String × Value)} (hform : o.source = .form)
    (hf : IsFormField c f) (hdict : f.type.unwrap.1 = .dict key value) (hkey : key.unwrap = (.str, false))
    (hvalue : value.unwrap = (t, false)) (ht : t.scalarKind? = some kind) (hnodup : o.keys.Nodup)
    (hkeys : (es.map Prod.fst).Nodup) (hes : ∀ e ∈ es, IsScalar kind e.2 ∧ e.2.IsReadable)
    (htakes : Shape.Takes c build f (.dict (Value.textEntries es)) (.dict (Value.textEntries es)))
    (hoffer : ∀ entry, keyUnder base (c.descriptorOf f).formName ++ "[" ++ entry ++ "]" ∈ o.keys ↔
      entry ∈ es.map Prod.fst)
    (hvalues : ∀ e ∈ es, o.values (keyUnder base (c.descriptorOf f).formName ++ "[" ++ e.1 ++ "]") =
      [e.2.scalarText]) :
    ReadsAs c build f (.dict (Value.textEntries es)) (readField c record [o] base path (c.descriptorOf f)) := by
  have htype := (Catalogue.names_of_describeField hf.described).2.2.1
  have hkind : (c.descriptorOf f).kind = .map := by
    rw [hf.kinds.1, hdict]
    rfl
  have helement : (c.descriptorOf f).elementKind = some kind := by
    rw [hf.kinds.2, hdict, Ty.element?, Option.map_some, hvalue, kindOf_of_scalarKind? c ht]
  have hkeyKind : mapKeyKind c (c.descriptorOf f) = .string := by
    rw [mapKeyKind, htype, hdict]
    simp only [hkey]
    rfl
  obtain ⟨-, -, hrecord, -⟩ := isPlain_of_scalarKind? ht
  have hread := readMap_of_scalars (Validation.join path (c.descriptorOf f).wireName) hform hkeyKind helement hrecord
    (fun hmoment => hf.plainMoments (.inr (by rw [helement, hmoment]))) hnodup hkeys hes hoffer hvalues
  have hperm := perm_offeredEntries hnodup hkeys hoffer
  have hsame := same_of_perm (fun e he => (hes e he).1) hperm
  generalize offeredEntries o (keyUnder base (c.descriptorOf f).formName) es = ls at hread hperm hsame
  have hls : ∀ e ∈ ls, IsScalar kind e.2 := fun e he => (hes e (hperm.mem_iff.mp he)).1
  have hfits : Shape.Takes c build f (.dict (Value.textEntries ls)) (.dict (Value.textEntries ls)) := by
    refine Shape.takes_of_fitsAs htakes ?_ (by rfl) (.inr (.inl ⟨_, rfl⟩))
    apply Shape.fitsAs_of_dict hdict (by rw [hkey]) ((hperm.map Prod.fst).nodup_iff.mpr hkeys)
    exact List.forall₂_same.mpr fun e he =>
      ⟨rfl, Shape.fitsAs_of_isScalar (by rwa [hvalue]) (hls e he)⟩
  have hfield : readField c record [o] base path (c.descriptorOf f) =
      readMaps c (c.descriptorOf f) base (Validation.join path (c.descriptorOf f).wireName) [o] := by
    rw [readField]
    simp [hkind, admitted_of_form hf, hform, Source.isNested]
  rw [hfield]
  simp only [readMaps, hform, Descriptor.nameIn, hread, ok_bind]
  cases ls with
  | nil => exact ⟨none, .dict (Value.textEntries []), rfl, hf.settles_none hkind (by decide) hfits, hsame⟩
  | cons e rest => exact ⟨_, _, rfl, hfits, hsame⟩

end Intake.Binding
