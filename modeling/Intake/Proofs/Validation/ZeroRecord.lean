import Intake.Proofs.Validation.Report
import Intake.Proofs.Validation.Typed
import Intake.Proofs.Validation.Zeros

/-!
Records built from nothing. The record that a model builds from a document without any key is empty, and the records
that it builds from documents are of exactly the models that its fields name; so the rule of presence fails on exactly
those of them that are equal to the record built from nothing. On a record of which a document holds nothing it always
fails.
-/

namespace Intake

open Shape

variable {c : Catalogue}

/-- What is there, or may not be absent, fits what is left of the type without annotations. -/
theorem Shape.FitsAs.present {record : String → Value → Fitted} {t : Ty} {v w : Value}
    (h : FitsAs c record t w v) (hw : w.isNull = false ∨ t.unwrap.2 = false) : FitsAs c record t.unwrap.1 w v := by
  obtain ⟨r, hr, hv⟩ := h
  exact ⟨r, by rw [fit_unwrap c record t hw]; exact hr, hv⟩

/-- What comes to a field of which a document holds nothing counts as nothing, if that is so of the records that are
built from nothing. -/
theorem isZeroMember_of_missing {m : Model} {fuel : Nat} {f : Field} {es : List (Value × Value)} {key : String}
    {v w : Value} (henumerations : c.HasSoundEnumerations) (hmodel : m.IsFillable c)
    (hdescribed : ∀ g ∈ m.fields, c.describeField g = .ok (c.descriptorOf g)) (hf : f ∈ m.fields)
    (hinner : ∀ inner r, f.type.unwrap.1 = .record inner → fitRecord c fuel inner (.dict []) = .ok r →
      Validation.isZero c r.value .record = .ok true)
    (hnone : findField? .strict f es = none)
    (hfound : findField? .strict f (withZeroValues (m.fields.map c.descriptorOf) es) = some (key, w))
    (htakes : Takes c (fitRecord c fuel) f w v) : Validation.isZeroMember c (c.descriptorOf f) v = .ok true := by
  obtain ⟨-, -, -, hmay, -⟩ := Catalogue.names_of_describeField (hdescribed f hf)
  have hkinds := (Catalogue.kinds_of_field (hdescribed f hf)).1
  obtain ⟨g, hg, hkey, rfl⟩ := exists_zero_of_missing hdescribed hnone hfound
  obtain ⟨-, -, -, hgmay, -⟩ := Catalogue.names_of_describeField (hdescribed g hg)
  rw [Validation.isZeroMember, hmay, hkinds]
  cases hoptional : f.type.unwrap.2 with
  | true =>
      -- Only a field that may be absent itself can stand in for one that may.
      have hnull : (c.descriptorOf g).zero = .null := by
        cases hother : g.type.unwrap.2 with
        | true => simp [Descriptor.zero, hgmay, hother]
        | false =>
            have hapart := hmodel.apart f hf g hg hoptional hother
            exact absurd hkey (not_or.mpr hapart)
      obtain ⟨r, hr, rfl⟩ := htakes.fitsAs
      rw [hnull, fit_null c _ f.type hoptional] at hr
      obtain rfl := Except.ok.inj hr
      simp [Value.isNull, Validation.isZero, Validation.isZeroScalar]
  | false =>
      have hzero : IsPlainZero (c.descriptorOf g).zero := by
        apply Descriptor.isPlainZero_zero
        rw [(Catalogue.kinds_of_field (hdescribed g hg)).1]
        exact hmodel.kinds g hg
      exact isZero_of_fitsAs henumerations (hmodel.kinds f hf) hzero hinner (htakes.fitsAs.present (.inr hoptional))

/-- The record that is built from nothing is empty. -/
theorem isZero_of_fitRecord {fuel : Nat} {name : String} {r : Fit} (henumerations : c.HasSoundEnumerations)
    (hc : IsFillableThrough c name) (h : fitRecord c fuel name (.dict []) = .ok r) :
    Validation.isZero c r.value .record = .ok true := by
  induction fuel generalizing name r with
  | zero => cases h
  | succ fuel ih =>
      obtain ⟨m, hm⟩ : ∃ m, c.model? name = some m := by
        cases hm : c.model? name with
        | some m => exact ⟨m, rfl⟩
        | none => simp [fitRecord, hm, refuse] at h
      have hmodel := hc name m .refl hm
      obtain ⟨hdescribe, value, hvalue, hfields⟩ := exists_values_of_fitRecord hm hmodel h
      have hdescribed := (Catalogue.describe_eq_map hdescribe).2
      have hself := Catalogue.model?_self hm
      rw [hvalue]
      simp only [Validation.isZero, hself, beq_self_eq_true, ↓reduceIte, Action.describe_eq_ok hdescribe, ok_bind]
      have hall : m.fields.all (fun _ => true) = true := by simp
      rw [← hall]
      refine Validation.allEmpty_eq fun f hf => ⟨value f, ?_, ?_⟩
      · rw [(Catalogue.names_of_describeField (hdescribed f hf)).1]
        exact lookup_fields value hmodel.names hf
      · obtain ⟨key, w, hfound, htakes⟩ := hfields f hf
        refine isZeroMember_of_missing henumerations hmodel hdescribed hf ?_ ?_ hfound htakes
        · exact fun inner r ht hr => ih (hc.inside hm hf ht) hr
        · exact List.findSome?_eq_none_iff.mpr fun _ _ => rfl

/-- What is taken of a part of a document as a value of a type is of the sort of the type. -/
theorem rowSort?_of_fitsAs {record : String → Value → Fitted} {t : Ty} {v w : Value} (hkind : c.kindOf t = .array)
    (h : FitsAs c record t w v) : v.rowSort? = t.rowSort? := by
  obtain ⟨r, hr, rfl⟩ := h
  cases t with
  | bareList | list | bareTuple | sequence | tuple =>
      simp only [fit] at hr
      split at hr
      · obtain ⟨fits, -, rfl⟩ := exists_of_map_eq_ok hr
        rfl
      · cases hr
  | bareSet frozen | set frozen item =>
      simp only [fit] at hr
      split at hr
      · obtain ⟨fits, -, hset⟩ := exists_of_bind_eq_ok hr
        unfold setFit at hset
        dsimp only at hset
        split at hset
        · cases hset
        · obtain rfl := Except.ok.inj hset
          rfl
      · cases hr
  | enumeration name => rcases Catalogue.kindOf_enumeration c name with h | h | h <;> rw [h] at hkind <;> cases hkind
  | _ => cases hkind

/-- What is taken of a part of a document for a field is a value of the type of the field. -/
theorem fits_of_fitsAs {record : String → Value → Fitted} {f : Field} {v w : Value} (hc : c.HasSoundEnumerations)
    (hrecord : ∀ name x r, record name x = .ok r → ∃ model attributes, r.value = .record model attributes)
    (hw : w.IsData) (h : FitsAs c record f.type w v) : f.Fits c v := by
  have hfits : FitsAs c record f.type.unwrap.1 w v → f.Fits c v := fun hown =>
    .inr ⟨isOfKind_of_fitsAs hc hrecord hw hown, fun harray => rowSort?_of_fitsAs harray hown⟩
  cases hoptional : f.type.unwrap.2 with
  | false => exact hfits (h.present (.inr hoptional))
  | true =>
      cases hnull : v.isNull with
      | false => exact hfits (h.unwrap hnull)
      | true =>
          cases v with
          | null => exact .inl ⟨rfl, hoptional⟩
          | _ => cases hnull

/-- A record that is built from a document is of exactly the model, and so are the records inside it. -/
theorem isExact_of_fitRecord {fuel : Nat} {name : String} {w : Value} {r : Fit}
    (henumerations : c.HasSoundEnumerations) (hc : IsFillableThrough c name) (hw : w.IsData)
    (h : fitRecord c fuel name w = .ok r) : IsExact c name r.value := by
  induction fuel generalizing name w r with
  | zero => cases h
  | succ fuel ih =>
      obtain ⟨m, es, hm, rfl⟩ : ∃ m es, c.model? name = some m ∧ w = .dict es := by
        unfold fitRecord at h
        split at h
        · exact ⟨_, _, ‹_›, rfl⟩
        · cases hw
        · cases h
      obtain ⟨-, value, hvalue, hfields⟩ := exists_values_of_fitRecord hm (hc name m .refl hm) h
      have hdata : ∀ e ∈ withZeroValues (m.fields.map c.descriptorOf) es, e.2.IsData := isData_withZeroValues hw.entries
      have htaken : ∀ f ∈ m.fields, ∃ w, w.IsData ∧ FitsAs c (fitRecord c fuel) f.type w (value f) := by
        intro f hf
        obtain ⟨key, w, hfound, htakes⟩ := hfields f hf
        obtain ⟨e, he, rfl⟩ := exists_mem_of_findField? hfound
        exact ⟨e.2, hdata e he, htakes.fitsAs⟩
      rw [hvalue]
      refine .record hm ?_ ?_
      · intro f hf
        obtain ⟨w, hdata, hfits⟩ := htaken f hf
        exact fits_of_fitsAs henumerations (fun _ _ _ => exists_record_of_fitRecord) hdata hfits
      · intro f hf inner ht
        obtain ⟨w, hdata, hfits⟩ := htaken f hf
        obtain ⟨s, hs, hsame⟩ := hfits.present (.inr (congrArg Prod.snd ht))
        rw [ht, fit] at hs
        rw [← hsame]
        exact ih (hc.inside hm hf (congrArg Prod.fst ht)) hdata hs

/-! ### Records that are missing -/

/-- A field for records of which a document holds nothing: of the record that is built, or of one inside it. Inside a
record it is looked for in what the completed document holds for that record, so that a record of which nothing is held
lacks all that it could hold. -/
inductive Lacks (c : Catalogue) : String → List (Value × Value) → String → Descriptor → String → Prop where
  | own {name base : String} {m : Model} {f : Field} {es : List (Value × Value)} (hm : c.model? name = some m)
      (hf : f ∈ m.fields) (hkind : c.kindOf f.type.unwrap.1 = .record) (hnone : findField? .strict f es = none) :
      Lacks c name es base (c.descriptorOf f) (Validation.join base f.wireName)
  | inside {name base inner key path : String} {m : Model} {f : Field} {d : Descriptor} {es within : List (Value × Value)}
      (hm : c.model? name = some m) (hf : f ∈ m.fields) (ht : f.type.unwrap.1 = .record inner)
      (hfound : findField? .strict f (withZeroValues (m.fields.map c.descriptorOf) es) = some (key, .dict within))
      (hlacks : Lacks c inner within (Validation.join base f.wireName) d path) : Lacks c name es base d path

namespace Validation

variable {m : Model} {d : Descriptor} {j later : Journal} {errors : List FieldError}

/-- Where the value of a field counts as nothing, its rule of presence tells so. -/
theorem mem_of_fieldErrors {path : String} {v : Value} {r : Rule} (hr : r ∈ d.rules) (hname : r.name = "required")
    (hkind : d.kind ≠ .array) (hzero : isZero c v d.kind = .ok true)
    (h : (fieldErrors c m d path v).outcome j = (.ok errors, later)) :
    ⟨path, d.messages.resolve "required" "is required"⟩ ∈ errors := by
  obtain ⟨reports, rfl, hreports⟩ := reports_of_fieldErrors (fun _ harray => absurd harray hkind) h
  have happlies : r ∈ d.applicable := by
    refine List.mem_filter.mpr ⟨hr, ?_⟩
    simp [Descriptor.mismatch?, Descriptor.suits?, hname]
  obtain ⟨report, hreport, j', later', hrule⟩ := exists_mem_of_forall₂ hreports.flip r happlies
  refine List.mem_flatten.mpr ⟨report, hreport, ?_⟩
  rw [applyRule, hname, hzero] at hrule
  obtain rfl := Except.ok.inj (Prod.mk.inj hrule).1
  exact List.mem_singleton_self _

/-- What is told of a field, and of the records inside what it holds, is told of its record. -/
theorem exists_told_of_whole {name base : String} {ds : List Descriptor} {attributes : List (String × Value)}
    (hm : c.model? name = some m) (hds : c.describe m = .ok ds) (hd : d ∈ ds)
    (h : ((inside c (.record name attributes)).whole base).outcome j = (.ok errors, later)) :
    ∃ own inner j₁ j₂ j₃, (∀ e ∈ own ++ inner, e ∈ errors) ∧
      (fieldErrors c m d (join base d.wireName) (held attributes d)).outcome j₁ = (.ok own, j₂) ∧
      (insideErrors d (join base d.wireName) (inside c (held attributes d))).outcome j₂ = (.ok inner, j₃) := by
  simp only [inside, hm] at h
  obtain ⟨fields, j₁, hfields, h⟩ := Action.of_outcome_bind h
  rw [Action.outcome_liftM, Action.describe_eq_ok hds] at hfields
  cases hfields
  obtain ⟨before, after, rfl⟩ := List.append_of_mem hd
  obtain ⟨own, inner, first, last, j₂, j₃, j₄, rfl, hown, hinner⟩ := split_of_validateFields h
  rw [inside_held] at hinner
  refine ⟨own, inner, j₂, j₃, j₄, fun e he => ?_, hown, hinner⟩
  exact List.mem_append_left _ (List.mem_append_right _ he)

/-- Of a record that is built from a document is told, for every field, what is told of what comes of something that is
found for the field in the completed document. -/
theorem exists_told_of_fitRecord {name base : String} {fuel : Nat} {es : List (Value × Value)} {r : Fit} {f : Field}
    (hm : c.model? name = some m) (hmodel : m.IsFillable c) (hf : f ∈ m.fields)
    (hr : fitRecord c (fuel + 1) name (.dict es) = .ok r)
    (h : ((inside c r.value).whole base).outcome j = (.ok errors, later)) :
    (∀ g ∈ m.fields, c.describeField g = .ok (c.descriptorOf g)) ∧
    ∃ key v w own inner j₁ j₂ j₃,
      findField? .strict f (withZeroValues (m.fields.map c.descriptorOf) es) = some (key, w) ∧
      Takes c (fitRecord c fuel) f w v ∧ (∀ e ∈ own ++ inner, e ∈ errors) ∧
      (fieldErrors c m (c.descriptorOf f) (join base f.wireName) v).outcome j₁ = (.ok own, j₂) ∧
      (insideErrors (c.descriptorOf f) (join base f.wireName) (inside c v)).outcome j₂ = (.ok inner, j₃) := by
  obtain ⟨hdescribe, value, hvalue, hfields⟩ := exists_values_of_fitRecord hm hmodel hr
  have hdescribed := (Catalogue.describe_eq_map hdescribe).2
  obtain ⟨hname, hwire, -⟩ := Catalogue.names_of_describeField (hdescribed f hf)
  obtain ⟨key, w, hfound, htakes⟩ := hfields f hf
  have hself := Catalogue.model?_self hm
  have hheld : held (m.fields.map fun f => (f.name, value f)) (c.descriptorOf f) = value f := by
    rw [held, Value.attribute?, hname, lookup_fields value hmodel.names hf, Option.getD_some]
  rw [hvalue] at h
  obtain ⟨own, inner, j₁, j₂, j₃, htold, hown, hinner⟩ :=
    exists_told_of_whole hself hdescribe (List.mem_map_of_mem hf) h
  rw [hheld, hwire] at hown hinner
  exact ⟨hdescribed, key, value f, w, own, inner, j₁, j₂, j₃, hfound, htakes, htold, hown, hinner⟩

/-- Of a record of which a document holds nothing its rule of presence tells, however deep it is inside others. -/
theorem mem_of_lacks {name base path : String} {fuel : Nat} {es : List (Value × Value)} {r : Fit} {rule : Rule}
    (henumerations : c.HasSoundEnumerations) (hc : IsFillableThrough c name) (hlacks : Lacks c name es base d path)
    (hr : fitRecord c fuel name (.dict es) = .ok r) (hrule : rule ∈ d.rules) (hname : rule.name = "required")
    (h : ((inside c r.value).whole base).outcome j = (.ok errors, later)) :
    ⟨path, d.messages.resolve "required" "is required"⟩ ∈ errors := by
  induction hlacks generalizing fuel r j later errors with
  | @own name base m f es hm hf hkind hnone =>
      cases fuel with
      | zero => cases hr
      | succ fuel =>
          have hmodel := hc name m .refl hm
          obtain ⟨hdescribed, key, v, w, own, inner, j₁, j₂, j₃, hfound, htakes, htold, hown, -⟩ :=
            exists_told_of_fitRecord hm hmodel hf hr h
          have hempty := isZeroMember_of_missing henumerations hmodel hdescribed hf
            (fun inner s ht hs => isZero_of_fitRecord henumerations (hc.inside hm hf ht) hs) hnone hfound htakes
          have hzero : isZero c v (c.descriptorOf f).kind = .ok true := by
            unfold isZeroMember at hempty
            split at hempty
            · cases hempty
            · exact hempty
          have harray : (c.descriptorOf f).kind ≠ .array := by
            simp [(Catalogue.kinds_of_field (hdescribed f hf)).1, hkind]
          exact htold _ (List.mem_append_left _ (mem_of_fieldErrors hrule hname harray hzero hown))
  | @inside name base inner key path m f d es within hm hf ht hfound _ ih =>
      cases fuel with
      | zero => cases hr
      | succ fuel =>
          obtain ⟨hdescribed, key', v, w, own, told, j₁, j₂, j₃, hfound', htakes, htold, -, hinner⟩ :=
            exists_told_of_fitRecord hm (hc name m .refl hm) hf hr h
          obtain ⟨-, rfl⟩ := Prod.mk.inj (Option.some.inj (hfound.symm.trans hfound'))
          obtain ⟨s, hs, rfl⟩ := htakes.fitsAs.present (.inl rfl)
          rw [ht, fit] at hs
          rw [insideErrors, (Catalogue.kinds_of_field (hdescribed f hf)).1, ht] at hinner
          exact htold _ (List.mem_append_right _ (ih (hc.inside hm hf ht) hs hrule hinner))

variable {root : String} {z : Value}

/-- The rule of presence fails on exactly the zero record. For a model that is filled from nothing unambiguously, as
are those of the records inside it, a record of exactly the model counts as nothing exactly if it is equal to the one
that is built from nothing; all records that are built from documents are of exactly the model; and of a record of which
a document holds nothing the rule of presence always tells. -/
theorem isZero_iff_built_from_nothing (henumerations : c.HasSoundEnumerations) (hc : IsFillableThrough c root)
    (hz : build c root (.dict []) = .ok z) :
    (∀ x, IsExact c root x → isZero c x .record = .ok (x.same z)) ∧
    (∀ document x, document.IsData → build c root document = .ok x → IsExact c root x) ∧
    ∀ es x path (d : Descriptor), build c root (.dict es) = .ok x → Lacks c root es "" d path →
      ∀ rule ∈ d.rules, rule.name = "required" → ∀ j errors later,
        (validate c x).outcome j = (.ok errors, later) →
          ⟨path, d.messages.resolve "required" "is required"⟩ ∈ errors := by
  have hexact : ∀ document x, document.IsData → build c root document = .ok x → IsExact c root x := by
    intro document x hdata hx
    obtain ⟨r, hr, rfl⟩ := exists_of_map_eq_ok hx
    exact isExact_of_fitRecord henumerations hc hdata hr
  refine ⟨fun x hx => ?_, hexact, ?_⟩
  · have hown := hexact _ z (.dict fun e he => absurd he List.not_mem_nil) hz
    obtain ⟨r, hr, rfl⟩ := exists_of_map_eq_ok hz
    exact isZero_eq_same hc hx hown (isZero_of_fitRecord henumerations hc hr)
  · intro es x path d hx hlacks rule hrule hname j errors later h
    obtain ⟨r, hr, rfl⟩ := exists_of_map_eq_ok hx
    exact mem_of_lacks henumerations hc hlacks hr hrule hname h

/-- Voyages are made by a ship, which needs a berth, and maybe by another one. -/
def voyageCatalogue : Catalogue :=
  ⟨[plainModel "Voyage" [plainField "title" .str, ruledField "ship" (.record "Ship") "required",
      plainField "escort" (.union [.record "Ship", .null])],
    plainModel "Ship" [plainField "crew" (.list .str), ruledField "berth" (.record "Berth") "required"],
    plainModel "Berth" [plainField "number" .int]], []⟩

/-- A voyage of which nothing but the title is known. -/
def voyage (title : String) : Value :=
  .record "Voyage" [("title", .text title),
    ("ship", .record "Ship" [("crew", .list []), ("berth", .record "Berth" [("number", .int 0)])]), ("escort", .null)]

theorem isFillable_voyageCatalogue : ∀ m ∈ voyageCatalogue.models, m.IsFillable voyageCatalogue := by
  intro m hm
  simp only [voyageCatalogue, List.mem_cons, List.not_mem_nil, or_false] at hm
  rcases hm with rfl | rfl | rfl
  all_goals
    refine ⟨rfl, by decide, ?_, by decide, by decide⟩
    intro f hf
    simp only [plainModel, List.mem_cons, List.not_mem_nil, or_false] at hf
    rcases hf with rfl | rfl | rfl <;> rfl

/-- A voyage with a title is not the zero voyage; of its ship nothing is known, so it has no berth either. -/
theorem isZero_iff_built_from_nothing_voyage :
    build voyageCatalogue "Voyage" (.dict []) = .ok (voyage "") ∧
      isZero voyageCatalogue (voyage "Beagle") .record = .ok ((voyage "Beagle").same (voyage "")) ∧
      ∃ errors later, (validate voyageCatalogue (voyage "Beagle")).outcome Journal.empty = (.ok errors, later) ∧
        ⟨"ship.berth", "is required"⟩ ∈ errors := by
  have hc : IsFillableThrough voyageCatalogue "Voyage" := fun _ m _ hm =>
    isFillable_voyageCatalogue m (List.mem_of_find?_eq_some hm)
  have hz : build voyageCatalogue "Voyage" (.dict []) = .ok (voyage "") := by cbv
  have hx : build voyageCatalogue "Voyage" (.dict [(.text "title", .text "Beagle")]) = .ok (voyage "Beagle") := by cbv
  have hdata : (Value.dict [(.text "title", .text "Beagle")]).IsData :=
    .dict fun e he => by rw [List.mem_singleton.mp he]; exact .text _
  have hlacks : Lacks voyageCatalogue "Voyage" [(.text "title", .text "Beagle")] ""
      (voyageCatalogue.descriptorOf (ruledField "berth" (.record "Berth") "required")) "ship.berth" := by
    have hship : Lacks voyageCatalogue "Ship" [] "ship"
        (voyageCatalogue.descriptorOf (ruledField "berth" (.record "Berth") "required")) "ship.berth" :=
      .own rfl (List.mem_cons_of_mem _ List.mem_cons_self) rfl rfl
    exact .inside rfl (List.mem_cons_of_mem _ List.mem_cons_self) rfl (by cbv) hship
  have hvalidate : (validate voyageCatalogue (voyage "Beagle")).outcome Journal.empty =
      (.ok [⟨"ship", "is required"⟩, ⟨"ship.berth", "is required"⟩], Journal.empty) := by cbv
  have hnone : voyageCatalogue.HasSoundEnumerations := fun e he => absurd he List.not_mem_nil
  obtain ⟨hzero, hexact, htold⟩ := isZero_iff_built_from_nothing hnone hc hz
  refine ⟨hz, hzero _ (hexact _ _ hdata hx), _, _, hvalidate, ?_⟩
  exact htold _ _ _ _ hx hlacks ⟨"required", none⟩ List.mem_cons_self rfl Journal.empty _ _ hvalidate

/-- Berths, anchorages, which are berths with a depth, and tags, whose text stands under the name of their note. -/
def harbourCatalogue : Catalogue :=
  ⟨[plainModel "Berth" [plainField "number" .int],
    { plainModel "Anchorage" [plainField "number" .int, plainField "depth" .int] with ancestors := ["Berth"] },
    plainModel "Tag" [{ plainField "text" .str with documentKey := some "note" },
      plainField "note" (.union [.str, .null])]], []⟩

/-- A tag that is built from nothing has an empty note instead of none, so it does not count as nothing. An anchorage
at zero and a berth without a number are taken as berths and count as nothing, but are not equal to the zero berth. -/
theorem isZero_differs_from_built_from_nothing :
    (∃ z, build harbourCatalogue "Tag" (.dict []) = .ok z ∧ isZero harbourCatalogue z .record = .ok false ∧
      z.same z = true) ∧
    ∃ z, build harbourCatalogue "Berth" (.dict []) = .ok z ∧
      ∀ x ∈ [Value.record "Anchorage" [("number", .int 0), ("depth", .int 0)], .record "Berth" [("number", .null)]],
        build harbourCatalogue "Berth" x = .ok x ∧ isZero harbourCatalogue x .record = .ok true ∧ x.same z = false := by
  constructor
  · exact ⟨.record "Tag" [("text", .text ""), ("note", .text "")], by cbv, by cbv, by cbv⟩
  · refine ⟨.record "Berth" [("number", .int 0)], by cbv, ?_⟩
    rw [List.forall_mem_cons, List.forall_mem_singleton]
    exact ⟨⟨by cbv, by cbv, by cbv⟩, by cbv, by cbv, by cbv⟩

end Validation
end Intake
