import Intake.Proofs.Scalar
import Intake.Proofs.Value.Entries
import Mathlib.Data.List.Forall2

/-!
Fitting values to types, part by part. Annotations and the permission to be absent do not matter for a
value that is there; rows and dictionaries fit when their parts do; and the bounds of a field look at
the value that comes out and at the number of items that go in.
-/

namespace Intake.Shape

variable (c : Catalogue) (record : String → Value → Fitted)

mutual

/-- A value that is there, or that may not be absent, fits a type as it fits what is left of the type
without annotations and the permission to be absent. -/
theorem fit_unwrap (t : Ty) {v : Value} (hv : v.isNull = false ∨ t.unwrap.2 = false) :
    fit c record t.unwrap.1 v = fit c record t v := by
  cases t with
  | annotated inner =>
      simp only [Ty.unwrap, fit] at hv ⊢
      exact fit_unwrap inner hv
  | union choices =>
      simp only [Ty.unwrap] at hv ⊢
      cases honly : Ty.unwrapOnly choices with
      | none => rfl
      | some only =>
          rw [honly] at hv
          have hinner : v.isNull = false ∨ only.2 = false := by
            rcases hv with hthere | hrequired
            · exact .inl hthere
            · exact .inr (Bool.or_eq_false_iff.mp hrequired).2
          have hpresent : (choices.any Ty.isNull && v.isNull) = false := by
            rcases hv with hthere | hrequired
            · rw [hthere, Bool.and_false]
            · rw [(Bool.or_eq_false_iff.mp hrequired).1, Bool.false_and]
          obtain ⟨hfew, hfit⟩ := fitOnly_unwrapOnly choices only honly hinner
          simp only [fit, hpresent, Bool.false_eq_true, ↓reduceIte, hfew]
          exact hfit
  | _ => rfl

theorem fitOnly_unwrapOnly (choices : List Ty) {v : Value} :
    ∀ only ∈ Ty.unwrapOnly choices, v.isNull = false ∨ only.2 = false →
      (choices.filter fun t => !t.isNull).length ≤ 1 ∧
        fit c record only.1 v = fitOnly c record choices v := by
  cases choices with
  | nil => simp [Ty.unwrapOnly]
  | cons t rest =>
      intro only honly hv
      simp only [Ty.unwrapOnly] at honly
      simp only [fitOnly]
      split at honly
      · rename_i hnull
        obtain ⟨hfew, hfit⟩ := fitOnly_unwrapOnly rest only honly hv
        constructor
        · simpa [hnull] using hfew
        · rw [if_pos hnull]
          exact hfit
      · rename_i hnull
        split at honly
        · rename_i hrest
          have hnone : rest.filter (fun t => !t.isNull) = [] := by
            apply List.filter_eq_nil_iff.mpr
            intro u hu
            simpa using List.all_eq_true.mp hrest u hu
          constructor
          · simp [hnull, hnone]
          · obtain rfl := Option.some.inj honly
            rw [if_neg hnull]
            exact fit_unwrap t hv
        · cases honly

end

mutual

/-- Nothing fits a type that permits absence. -/
theorem fit_null (t : Ty) (ht : t.unwrap.2 = true) : fit c record t .null = .ok ⟨.null, .exact, none⟩ := by
  cases t with
  | annotated inner =>
      simp only [Ty.unwrap] at ht
      simp only [fit]
      exact fit_null inner ht
  | union choices =>
      by_cases hany : choices.any Ty.isNull = true
      · simp [fit, hany, Value.isNull]
      · simp only [Ty.unwrap] at ht
        cases honly : Ty.unwrapOnly choices with
        | none =>
            rw [honly] at ht
            exact absurd ht hany
        | some only =>
            rw [honly] at ht
            have hinner : only.2 = true := by simpa [hany] using ht
            obtain ⟨hfew, hfit⟩ := fitOnly_null choices only honly hinner
            simp [fit, hany, hfew, hfit]
  | _ => simp [Ty.unwrap] at ht

theorem fitOnly_null (choices : List Ty) : ∀ only ∈ Ty.unwrapOnly choices, only.2 = true →
    (choices.filter fun t => !t.isNull).length ≤ 1 ∧
      fitOnly c record choices .null = .ok ⟨.null, .exact, none⟩ := by
  cases choices with
  | nil => simp [Ty.unwrapOnly]
  | cons t rest =>
      intro only honly hinner
      simp only [Ty.unwrapOnly] at honly
      simp only [fitOnly]
      split at honly
      · rename_i hnull
        obtain ⟨hfew, hfit⟩ := fitOnly_null rest only honly hinner
        constructor
        · simpa [hnull] using hfew
        · rw [if_pos hnull]
          exact hfit
      · rename_i hnull
        split at honly
        · rename_i hrest
          have hnone : rest.filter (fun t => !t.isNull) = [] := by
            apply List.filter_eq_nil_iff.mpr
            intro u hu
            simpa using List.all_eq_true.mp hrest u hu
          rw [← Option.some.inj honly] at hinner
          constructor
          · simp [hnull, hnone]
          · rw [if_neg hnull]
            exact fit_null t hinner
        · cases honly

end

variable {c record}

/-- Items that fit one by one fit in a row. -/
theorem exists_fitItems {fitItem : Value → Fitted} {ws vs : List Value}
    (hitems : List.Forall₂ (fun w v => ∃ r, fitItem w = .ok r ∧ r.value = v) ws vs) (index : Nat) :
    ∃ fits, fitItems fitItem index ws = .ok fits ∧ fits.values = vs := by
  induction hitems generalizing index with
  | nil => exact ⟨_, rfl, rfl⟩
  | cons hfirst _ ih =>
      obtain ⟨fit, hfit, hvalue⟩ := hfirst
      obtain ⟨fits, hfits, hvalues⟩ := ih (index + 1)
      refine ⟨⟨fit.value :: fits.values, fit.fitness.worse fits.fitness,
        addFieldsSet fit.fieldsSet fits.fieldsSet⟩, ?_, ?_⟩
      · rw [fitItems, hfit, hfits, consFit]
      · rw [hvalue, hvalues]

/-- What is put before others that fit fits, and so do the others. -/
theorem consFit_eq_ok {step : Step} {first : Fitted} {others : Except (List Rejection) Fits} {fits : Fits}
    (h : consFit step first others = .ok fits) :
    ∃ f fs, first = .ok f ∧ others = .ok fs ∧ fits.values = f.value :: fs.values := by
  cases first with
  | error rejections => cases others <;> cases h
  | ok f =>
      cases others with
      | error rejections => cases h
      | ok fs =>
          obtain rfl := Except.ok.inj h
          exact ⟨f, fs, rfl, rfl, rfl⟩

/-- What is on the right of a relation of lists has a partner on the left. -/
theorem exists_mem_of_forall₂ {α β : Type} {R : α → β → Prop} {xs : List α} {ys : List β}
    (h : List.Forall₂ R xs ys) : ∀ y ∈ ys, ∃ x ∈ xs, R x y := by
  induction h with
  | nil => exact nofun
  | cons hxy _ ih =>
      intro y hy
      rcases List.mem_cons.mp hy with rfl | hlater
      · exact ⟨_, List.mem_cons_self, hxy⟩
      · obtain ⟨x, hx, hxy⟩ := ih y hlater
        exact ⟨x, List.mem_cons_of_mem _ hx, hxy⟩

/-- Items that fit in a row fit one by one. -/
theorem forall₂_of_fitItems {fitItem : Value → Fitted} {ws : List Value} {index : Nat} {fits : Fits}
    (h : fitItems fitItem index ws = .ok fits) :
    List.Forall₂ (fun w v => ∃ r, fitItem w = .ok r ∧ r.value = v) ws fits.values := by
  induction ws generalizing index fits with
  | nil =>
      obtain rfl := Except.ok.inj h
      exact .nil
  | cons w rest ih =>
      obtain ⟨found, others, hfirst, hothers, hvalues⟩ := consFit_eq_ok h
      rw [hvalues]
      exact .cons ⟨found, hfirst, rfl⟩ (ih hothers)

/-- Items that fit as others do fit in a row as they do. -/
theorem fitItems_congr {fitItem : Value → Fitted} {xs ws : List Value} {index : Nat} {fits : Fits}
    (hsame : List.Forall₂ (fun x w => ∀ r, fitItem x = .ok r → fitItem w = .ok r) xs ws)
    (h : fitItems fitItem index xs = .ok fits) : fitItems fitItem index ws = .ok fits := by
  induction hsame generalizing index fits with
  | nil => exact h
  | cons hfirst _ ih =>
      rw [fitItems] at h ⊢
      obtain ⟨found, others, hfound, hothers, -⟩ := consFit_eq_ok h
      rw [hfirst found hfound, ih hothers]
      rwa [hfound, hothers] at h

/-- Items that fit as others do in every position fit in their positions as they do. -/
theorem fitEach_congr {ts : List Ty} {xs ws : List Value} {most found index : Nat} {fits : Fits}
    (hsame : List.Forall₂ (fun x w => ∀ t ∈ ts, ∀ r, fit c record t x = .ok r → fit c record t w = .ok r) xs ws)
    (h : fitEach c record most found index ts xs = .ok fits) :
    fitEach c record most found index ts ws = .ok fits := by
  induction ts generalizing xs ws index fits with
  | nil => cases hsame <;> exact h
  | cons t rest ih =>
      cases hsame with
      | nil => exact h
      | cons hfirst hlater =>
          rw [fitEach] at h ⊢
          obtain ⟨r, others, hr, hothers, -⟩ := consFit_eq_ok h
          have hrest := hlater.imp fun x w hxw u hu => hxw u (List.mem_cons_of_mem t hu)
          rw [hfirst t List.mem_cons_self r hr, ih hrest hothers]
          rwa [hr, hothers] at h

/-- Entries whose values fit one by one fit under their textual keys. -/
theorem exists_fitEntries {fitKey fitValue : Value → Fitted} {ws vs : List (String × Value)}
    (hkey : ∀ s, ∃ r, fitKey (.text s) = .ok r ∧ r.value = .text s)
    (hvalues : List.Forall₂ (fun w v => w.1 = v.1 ∧ ∃ r, fitValue w.2 = .ok r ∧ r.value = v.2) ws vs) :
    ∃ fitness fieldsSet, fitEntries fitKey fitValue (Value.textEntries ws) =
      .ok (Value.textEntries vs, fitness, fieldsSet) := by
  induction hvalues with
  | nil => exact ⟨_, _, rfl⟩
  | @cons w v ws vs hfirst _ ih =>
      obtain ⟨hsame, fit, hfit, hvalue⟩ := hfirst
      obtain ⟨key, hkey, hkeyValue⟩ := hkey w.1
      obtain ⟨fitness, fieldsSet, hrest⟩ := ih
      refine ⟨(key.fitness.worse fit.fitness).worse fitness,
        addFieldsSet (addFieldsSet key.fieldsSet fit.fieldsSet) fieldsSet, ?_⟩
      simp only [Value.textEntries_cons, fitEntries, hkey, hfit, hrest]
      rw [hkeyValue, hvalue, hsame]

/-- Entries that fit under their textual keys have values that fit one by one. -/
theorem forall₂_of_fitEntries {fitKey fitValue : Value → Fitted} {ws : List (String × Value)}
    {es : List (Value × Value)} {rest : Fitness × Option Nat}
    (hkey : ∀ s, ∃ r, fitKey (.text s) = .ok r ∧ r.value = .text s)
    (h : fitEntries fitKey fitValue (Value.textEntries ws) = .ok (es, rest)) :
    ∃ vs, es = Value.textEntries vs ∧
      List.Forall₂ (fun w v => w.1 = v.1 ∧ ∃ r, fitValue w.2 = .ok r ∧ r.value = v.2) ws vs := by
  induction ws generalizing es rest with
  | nil =>
      obtain ⟨rfl, -⟩ := Prod.mk.inj (Except.ok.inj h)
      exact ⟨[], rfl, .nil⟩
  | cons w others ih =>
      obtain ⟨key, hkeyFits, hkeyValue⟩ := hkey w.1
      rw [Value.textEntries_cons, fitEntries, hkeyFits] at h
      cases hvalue : fitValue w.2 with
      | error rejections =>
          rw [hvalue] at h
          cases h
      | ok r =>
          cases hothers : fitEntries fitKey fitValue (Value.textEntries others) with
          | error rejections =>
              rw [hvalue, hothers] at h
              cases h
          | ok found =>
              rw [hvalue, hothers] at h
              obtain ⟨vs, hvs, hall⟩ := ih hothers
              obtain ⟨rfl, -⟩ := Prod.mk.inj (Except.ok.inj h)
              exact ⟨(w.1, r.value) :: vs, by rw [Value.textEntries_cons, hkeyValue, hvs],
                .cons ⟨rfl, r, hvalue, rfl⟩ hall⟩

/-- A value fits a type as another. -/
def FitsAs (c : Catalogue) (record : String → Value → Fitted) (t : Ty) (w v : Value) : Prop :=
  ∃ r, fit c record t w = .ok r ∧ r.value = v

/-- What fits a type as something that is there fits what is left of the type. -/
theorem FitsAs.unwrap {t : Ty} {w v : Value} (h : FitsAs c record t w v) (hv : v.isNull = false) :
    FitsAs c record t.unwrap.1 w v := by
  obtain ⟨r, hr, rfl⟩ := h
  refine ⟨r, ?_, rfl⟩
  have hthere : w.isNull = false ∨ t.unwrap.2 = false := by
    cases w with
    | null =>
        by_contra hnull
        have hoptional : t.unwrap.2 = true := by simpa [Value.isNull] using hnull
        rw [fit_null c record t hoptional] at hr
        obtain rfl := Except.ok.inj hr
        cases hv
    | _ => exact .inl rfl
  rw [fit_unwrap c record t hthere]
  exact hr

theorem fitsAs_of_isScalar {t : Ty} {kind : Kind} {v : Value} (ht : t.unwrap.1.scalarKind? = some kind)
    (hv : IsScalar kind v) : FitsAs c record t v v := by
  refine ⟨⟨v, .exact, none⟩, ?_, rfl⟩
  rw [← fit_unwrap c record t (.inl hv.isNull_eq_false)]
  exact fit_of_isScalar c record ht hv

theorem fitsAs_of_scalarText {t : Ty} {kind : Kind} {v : Value} (ht : t.unwrap.1.scalarKind? = some kind)
    (hv : IsScalar kind v) (hspelt : v.IsSpellable) : FitsAs c record t (.text v.scalarText) v := by
  obtain ⟨fitness, hfit⟩ := fit_scalarText c record ht hv hspelt
  refine ⟨⟨v, fitness, none⟩, ?_, rfl⟩
  rw [← fit_unwrap c record t (.inl rfl)]
  exact hfit

theorem fitsAs_of_list {t item : Ty} {ws vs : List Value} (ht : t.unwrap.1 = .list item)
    (hitems : List.Forall₂ (FitsAs c record item) ws vs) : FitsAs c record t (.list ws) (.list vs) := by
  obtain ⟨fits, hfits, hvalues⟩ := exists_fitItems hitems 0
  refine ⟨listFit (.list ws) fits, ?_, ?_⟩
  · rw [← fit_unwrap c record t (.inl rfl), ht]
    simp only [fit, Value.items?, hfits]
    rfl
  · simp only [listFit, hvalues]

theorem fitsAs_of_dict {t key value : Ty} {ws vs : List (String × Value)} (ht : t.unwrap.1 = .dict key value)
    (hkey : key.unwrap.1 = .str) (hkeys : (vs.map Prod.fst).Nodup)
    (hvalues : List.Forall₂ (fun w v => w.1 = v.1 ∧ FitsAs c record value w.2 v.2) ws vs) :
    FitsAs c record t (.dict (Value.textEntries ws)) (.dict (Value.textEntries vs)) := by
  have hkeyFits : ∀ s, FitsAs c record key (.text s) (.text s) := fun s =>
    fitsAs_of_isScalar (by rw [hkey]; rfl) (.text s)
  obtain ⟨fitness, fieldsSet, hentries⟩ := exists_fitEntries hkeyFits hvalues
  refine ⟨⟨.dict (Value.textEntries vs), fitness, fieldsSet⟩, ?_, rfl⟩
  rw [← fit_unwrap c record t (.inl rfl), ht]
  simp only [fit, hentries]
  rw [Except.map, Value.dictOf_textEntries hkeys]

/-- A dictionary under textual keys fits as another exactly if its values fit as those of the other. -/
theorem fitsAs_dict_iff {t key value : Ty} {ws vs : List (String × Value)} (ht : t.unwrap.1 = .dict key value)
    (hkey : key.unwrap.1 = .str) (hws : (ws.map Prod.fst).Nodup) (hvs : (vs.map Prod.fst).Nodup) :
    FitsAs c record t (.dict (Value.textEntries ws)) (.dict (Value.textEntries vs)) ↔
      List.Forall₂ (fun w v => w.1 = v.1 ∧ FitsAs c record value w.2 v.2) ws vs := by
  refine ⟨?_, fitsAs_of_dict ht hkey hvs⟩
  rintro ⟨r, hr, hvalue⟩
  have hkeyFits : ∀ s, FitsAs c record key (.text s) (.text s) := fun s =>
    fitsAs_of_isScalar (by rw [hkey]; rfl) (.text s)
  rw [← fit_unwrap c record t (.inl rfl), ht, fit] at hr
  obtain ⟨⟨es, rest⟩, hes, rfl⟩ := exists_of_map_eq_ok hr
  obtain ⟨found, rfl, hall⟩ := forall₂_of_fitEntries hkeyFits hes
  have hkeys : ws.map Prod.fst = found.map Prod.fst := by
    rw [← List.forall₂_eq_eq_eq, List.forall₂_map_left_iff, List.forall₂_map_right_iff]
    exact hall.imp fun _ _ h => h.1
  have hsame : Value.textEntries found = Value.textEntries vs := by
    have hdict : Value.dict (Value.dictOf (Value.textEntries found)) = .dict (Value.textEntries vs) := hvalue
    rwa [Value.dictOf_textEntries (hkeys ▸ hws), Value.dict.injEq] at hdict
  rwa [← Value.textEntries_injective hsame]

theorem fitsAs_record_iff {t : Ty} {name : String} {w v : Value} (ht : t.unwrap.1 = .record name)
    (hw : w.isNull = false) : FitsAs c record t w v ↔ ∃ r, record name w = .ok r ∧ r.value = v := by
  rw [FitsAs, ← fit_unwrap c record t (.inl hw), ht]
  rfl

theorem fitsAs_of_record {t : Ty} {name : String} {w v : Value} (ht : t.unwrap.1 = .record name)
    (hw : w.isNull = false) (hrecord : ∃ r, record name w = .ok r ∧ r.value = v) : FitsAs c record t w v :=
  (fitsAs_record_iff ht hw).mpr hrecord

/-- The bounds of a field look at nothing but the value. -/
theorem checkBounds_eq_map {b : Constraints} {r r' : Fit} (hvalue : r'.value = r.value) :
    checkBounds b r' = (checkBounds b r).map fun _ => r' := by
  have hchoice : ∀ (p q : Bool) (x y : Fitted), (x.map fun _ => r') = y →
      (if p then refuse (.tooGreat (b.greatest.getD 0)) else if q then refuse (.tooSmall (b.least.getD 0)) else y) =
        (if p then refuse (.tooGreat (b.greatest.getD 0))
          else if q then refuse (.tooSmall (b.least.getD 0)) else x).map fun _ => r' := by
    intro p q x y hxy
    cases p <;> cases q <;> first | rfl | exact hxy.symm
  unfold checkBounds
  rw [hvalue]
  dsimp only
  split
  · split <;> rfl
  · exact hchoice _ _ (.ok r) (.ok r') rfl

theorem checkBounds_of_value_eq {b : Constraints} {r r' s : Fit} (h : checkBounds b r = .ok s)
    (hvalue : r'.value = r.value) : checkBounds b r' = .ok r' := by
  rw [checkBounds_eq_map hvalue, h]
  rfl

theorem eq_of_checkBounds {b : Constraints} {r s : Fit} (h : checkBounds b r = .ok s) : s = r := by
  have hsame := checkBounds_eq_map (b := b) (rfl : r.value = r.value)
  rw [h] at hsame
  exact Except.ok.inj hsame

/-- Dictionaries and records keep all bounds. -/
theorem checkBounds_of_isCompound {b : Constraints} {r : Fit}
    (hvalue : (∃ es, r.value = .dict es) ∨ ∃ name attributes, r.value = .record name attributes) :
    checkBounds b r = .ok r := by
  rw [checkBounds]
  rcases hvalue with ⟨es, hvalue⟩ | ⟨name, attributes, hvalue⟩
  · rw [hvalue]
    simp
  · rw [hvalue]
    simp

/-- A value that fits a field as another. -/
def Takes (c : Catalogue) (record : String → Value → Fitted) (f : Field) (w v : Value) : Prop :=
  ∃ fit, fitField c record f w = .ok fit ∧ fit.value = v

/-- What fits a field fits the type of the field. -/
theorem Takes.fitsAs {f : Field} {w v : Value} (h : Takes c record f w v) : FitsAs c record f.type w v := by
  obtain ⟨s, hs, hv⟩ := h
  rw [fitField] at hs
  split at hs
  · split at hs
    · cases hs
    · exact ⟨s, hs, hv⟩
  · cases hfit : fit c record f.type w with
    | error rs =>
        rw [hfit] at hs
        cases hs
    | ok r =>
        rw [hfit] at hs
        have hbounds : checkBounds f.constraints r = .ok s := hs
        exact ⟨r, hfit, by rw [← hv, eq_of_checkBounds hbounds]⟩

/-- A text fits a field of scalars whatever records are. -/
theorem takes_text_iff {f : Field} {other : String → Value → Fitted} {s : String} {v : Value}
    (hscalar : f.type.unwrap.1.scalarKind?.isSome = true) :
    Takes c record f (.text s) v ↔ Takes c other f (.text s) v := by
  have hsame : fit c record f.type (.text s) = fit c other f.type (.text s) := by
    rw [← fit_unwrap c record f.type (.inl rfl), ← fit_unwrap c other f.type (.inl rfl)]
    generalize f.type.unwrap.1 = t at hscalar
    cases t <;> first | rfl | cases hscalar
  simp only [Takes, fitField, hsame]

/-- What fits the type of a field fits the field, if as many items go in as of what the field takes, and
the value that comes out is that which the field got or has no bounds. -/
theorem takes_of_fitsAs {f : Field} {u w v v' : Value} (htakes : Takes c record f u v)
    (hfits : FitsAs c record f.type w v')
    (hitems : w.items?.map List.length = u.items?.map List.length)
    (hlike : v' = v ∨ (∃ es, v' = .dict es) ∨ ∃ name attributes, v' = .record name attributes) :
    Takes c record f w v' := by
  obtain ⟨r, hfit, hr⟩ := hfits
  have hwhole : ∀ s : Fit, (fit c record f.type u).bind (checkBounds f.constraints) = .ok s → s.value = v →
      (fit c record f.type w).bind (checkBounds f.constraints) = .ok r := by
    intro s hs hsv
    rw [hfit]
    change checkBounds f.constraints r = .ok r
    rcases hlike with hsame | hcompound
    · cases hv : fit c record f.type u with
      | error rs =>
          rw [hv] at hs
          cases hs
      | ok r₀ =>
          rw [hv] at hs
          have hbounds : checkBounds f.constraints r₀ = .ok s := hs
          have hr₀ : r.value = r₀.value := by rw [hr, hsame, ← hsv, eq_of_checkBounds hbounds]
          exact checkBounds_of_value_eq hbounds hr₀
    · exact checkBounds_of_isCompound (by rw [hr]; exact hcompound)
  obtain ⟨s, hs, hsv⟩ := htakes
  refine ⟨r, ?_, hr⟩
  unfold fitField at hs ⊢
  dsimp only at hs ⊢
  split at hs
  · rename_i noun most xs hnoun hmost hxs
    rw [hxs] at hitems
    obtain ⟨ys, hys, hlength⟩ := Option.map_eq_some_iff.mp hitems
    rw [hnoun, hmost, hys]
    dsimp only
    by_cases hmany : most < xs.length
    · rw [if_pos hmany] at hs
      cases hs
    · rw [hlength, if_neg hmany, hfit]
  · rename_i hnone
    split
    · rename_i noun most ys hnoun hmost hys
      rw [hys] at hitems
      obtain ⟨xs, hxs, -⟩ := Option.map_eq_some_iff.mp hitems.symm
      exact absurd hxs (hnone noun most xs hnoun hmost)
    · exact hwhole s hs hsv

/-- What has as many items and fits the type of a field in the same way fits the field in the same way. -/
theorem fitField_congr {f : Field} {v w : Value} (hitems : w.items?.map List.length = v.items?.map List.length)
    (hfit : fit c record f.type w = fit c record f.type v) : fitField c record f w = fitField c record f v := by
  unfold fitField
  rw [hfit]
  cases hv : v.items? with
  | none =>
      rw [hv, Option.map_none, Option.map_eq_none_iff] at hitems
      rw [hitems]
  | some xs =>
      rw [hv] at hitems
      obtain ⟨ws, hws, hlength⟩ := Option.map_eq_some_iff.mp hitems
      rw [hws]
      dsimp only
      split
      · rename_i noun most others hnoun hmost hothers
        obtain rfl := Option.some.inj hothers
        simp only [hnoun, hmost, hlength]
      · rename_i hnone
        split
        · rename_i noun most others hnoun hmost _
          exact absurd rfl (hnone noun most ws hnoun hmost)
        · rfl

end Intake.Shape
