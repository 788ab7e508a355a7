import Intake.Proofs.Shape.Refusal

/-!
What is blamed. A refusal blames what its rejections name, and where values are put together of parts it blames
what the refusals of the parts do. That a key is not known is never said of a scalar: it is said of records alone,
so nothing that fits a type without records is refused for it.
-/

namespace Intake

mutual

/-- The records that a type names. -/
def Ty.recordNames : Ty → List String
  | .record name => [name]
  | .list item | .set _ item | .sequence item | .annotated item => item.recordNames
  | .tuple items => recordNamesOf items
  | .dict key value => key.recordNames ++ value.recordNames
  | .union choices => recordNamesOf choices
  | _ => []

def Ty.recordNamesOf : List Ty → List String
  | [] => []
  | t :: rest => t.recordNames ++ recordNamesOf rest

end

/-- What a type inside a type names, the type names. -/
theorem Ty.recordNames_subset {t u : Ty} (hu : u ∈ t.madeOf) : u.recordNames ⊆ t.recordNames := by
  have hrow : ∀ ts : List Ty, u ∈ ts → u.recordNames ⊆ recordNamesOf ts := by
    intro ts hmem
    induction ts with
    | nil => cases hmem
    | cons first rest ih =>
        rcases List.mem_cons.mp hmem with rfl | hlater
        · exact List.subset_append_left _ _
        · exact List.Subset.trans (ih hlater) (List.subset_append_right _ _)
  cases t with
  | list item | set frozen item | sequence item | annotated item =>
      obtain rfl := List.mem_singleton.mp hu
      exact List.Subset.refl _
  | tuple items | union items => exact hrow items hu
  | dict key value =>
      have hpart : u = key ∨ u = value := by simpa [madeOf] using hu
      rcases hpart with rfl | rfl
      · exact List.subset_append_left _ _
      · exact List.subset_append_right _ _
  | _ => cases hu

/-- Whether a type has no types inside and is no record. -/
def Ty.isAtom : Ty → Bool
  | .record _ | .list _ | .set _ _ | .sequence _ | .tuple _ | .dict _ _ | .union _ | .annotated _ => false
  | _ => true

namespace Shape

variable {α β : Type} {c : Catalogue} {record : String → Value → Fitted} {p : Problem}

/-- An outcome that is a refusal for a problem, perhaps among others. -/
def Blames (p : Problem) : Except (List Rejection) α → Prop
  | .ok _ => False
  | .error rejections => ∃ r ∈ rejections, r.problem = p

theorem blames_refuse {q : Problem} : Blames p (refuse q) ↔ q = p := by
  simp [refuse, Blames, Rejection.here]

theorem blames_under {step : Step} {rejections : List Rejection} :
    (∃ r ∈ rejections.map (·.under step), r.problem = p) ↔ ∃ r ∈ rejections, r.problem = p := by
  simp [Rejection.under]

theorem blames_map {x : Except (List Rejection) α} {f : α → β} : Blames p (x.map f) ↔ Blames p x := by
  cases x <;> rfl

theorem blames_bind {x : Except (List Rejection) α} {f : α → Except (List Rejection) β} :
    Blames p (x.bind f) ↔ Blames p x ∨ ∃ v, x = .ok v ∧ Blames p (f v) := by
  cases x with
  | ok v => simp [Except.bind, Blames]
  | error rejections => simp [Except.bind, Blames]

theorem blames_consFit {step : Step} {first : Fitted} {others : Except (List Rejection) Fits} :
    Blames p (consFit step first others) ↔ Blames p first ∨ Blames p others := by
  cases first with
  | ok found => cases others <;> simp [consFit, Blames]
  | error rejections =>
      cases others with
      | ok fits => simp [consFit, Blames, Rejection.under]
      | error later => simp [consFit, Blames, Rejection.under, or_and_right, exists_or]

theorem blames_fitItems {fitItem : Value → Fitted} {index : Nat} {xs : List Value} :
    Blames p (fitItems fitItem index xs) ↔ ∃ x ∈ xs, Blames p (fitItem x) := by
  induction xs generalizing index with
  | nil => simp [fitItems, Blames]
  | cons x rest ih => simp [fitItems, blames_consFit, ih]

theorem blames_fitEntries {fitKey fitValue : Value → Fitted} {es : List (Value × Value)} :
    Blames p (fitEntries fitKey fitValue es) ↔ ∃ e ∈ es, Blames p (fitKey e.1) ∨ Blames p (fitValue e.2) := by
  induction es with
  | nil => simp [fitEntries, Blames]
  | cons e rest ih =>
      obtain ⟨k, v⟩ := e
      rw [List.exists_mem_cons_iff, ← ih, fitEntries]
      generalize fitKey k = key
      generalize fitValue v = value
      generalize fitEntries fitKey fitValue rest = others
      cases key <;> cases value <;> cases others <;>
        simp [Blames, Rejection.under, or_and_right, exists_or, or_assoc]

theorem problem_of_blames_setFit {frozen : Bool} {v : Value} {fits : Fits} (h : Blames p (setFit frozen v fits)) :
    p = .unhashable := by
  unfold setFit at h
  dsimp only at h
  split at h
  · obtain ⟨r, hr, rfl⟩ := h
    obtain ⟨i, -, rfl⟩ := List.mem_map.mp hr
    rfl
  · cases h

/-- Bounds blame no key. -/
theorem not_blames_checkBounds (b : Constraints) (r : Fit) : ¬Blames .extra (checkBounds b r) := by
  have hchoice : ∀ (tooGreat tooSmall : Bool), ¬Blames .extra
      (if tooGreat then refuse (.tooGreat (b.greatest.getD 0))
        else if tooSmall then refuse (.tooSmall (b.least.getD 0)) else .ok r) := by
    intro tooGreat tooSmall
    cases tooGreat <;> cases tooSmall <;> simp [Blames, refuse, Rejection.here]
  unfold checkBounds
  dsimp only
  split
  · split <;> simp [Blames, refuse, Rejection.here]
  · exact hchoice _ _

theorem blames_ofScalar {outcome : Outcome} : Blames p (ofScalar outcome) ↔ outcome = .error p := by
  cases outcome with
  | ok found => simp [ofScalar, Blames]
  | error problem => simp [ofScalar, Blames, Rejection.here]

section scalars

theorem bind_ne_extra {x : Except Problem α} {f : α → Except Problem β} (hx : x ≠ .error .extra)
    (hf : ∀ v, f v ≠ .error .extra) : (x >>= f) ≠ .error .extra := by
  cases x with
  | ok v => exact hf v
  | error problem =>
      intro h
      exact hx (congrArg Except.error (Except.error.inj h))

theorem spelling?_ne_extra {problem : Problem} (hproblem : problem ≠ .extra) (v : Value) :
    spelling? problem v ≠ .error .extra := by
  unfold spelling?
  split
  · split <;> simp [hproblem]
  · simp
  · simp

theorem intOfText_ne_extra (s : String) : intOfText s ≠ .error .extra := by
  unfold intOfText
  dsimp only
  split
  · simp
  · split <;> simp

theorem intOfFloat_ne_extra (x : Binary64) : intOfFloat x ≠ .error .extra := by
  unfold intOfFloat
  split
  · simp
  · split <;> simp

theorem fitInt_ne_extra (v : Value) : fitInt v ≠ .error .extra := by
  unfold fitInt
  split
  · simp
  · simp
  · simp
  · exact bind_ne_extra (intOfFloat_ne_extra _) nofun
  · simp
  · refine bind_ne_extra (spelling?_ne_extra (by simp) _) fun spelt => ?_
    split
    · exact bind_ne_extra (intOfText_ne_extra _) nofun
    · simp

theorem floatOfText_ne_extra (s : String) : floatOfText s ≠ .error .extra := by
  unfold floatOfText
  dsimp only
  split <;> simp

theorem fitFloat_ne_extra (v : Value) : fitFloat v ≠ .error .extra := by
  unfold fitFloat
  split
  · simp
  · simp
  · split <;> simp
  · split <;> simp
  · refine bind_ne_extra (spelling?_ne_extra (by simp) _) fun spelt => ?_
    split
    · exact bind_ne_extra (floatOfText_ne_extra _) nofun
    · simp

theorem boolOfText_ne_extra (s : String) : boolOfText s ≠ .error .extra := by
  unfold boolOfText
  dsimp only
  split
  · simp
  · split <;> simp

theorem boolOfInt_ne_extra (i : Int) : boolOfInt i ≠ .error .extra := by
  unfold boolOfInt
  split
  · simp
  · split <;> simp

theorem fitBool_ne_extra (v : Value) : fitBool v ≠ .error .extra := by
  unfold fitBool
  split
  · simp
  · exact bind_ne_extra (boolOfInt_ne_extra _) nofun
  · exact bind_ne_extra (boolOfInt_ne_extra _) nofun
  · split
    · exact bind_ne_extra (boolOfInt_ne_extra _) nofun
    · simp
  · refine bind_ne_extra (spelling?_ne_extra (by simp) _) fun spelt => ?_
    split
    · exact bind_ne_extra (boolOfText_ne_extra _) nofun
    · simp

theorem fitText_ne_extra (v : Value) : fitText v ≠ .error .extra := by
  unfold fitText
  split
  · simp
  · simp
  · simp
  · split <;> simp
  · simp
  · simp

theorem fitBytes_ne_extra (v : Value) : fitBytes v ≠ .error .extra := by
  unfold fitBytes
  split
  · simp
  · split <;> simp

theorem floorParts_ne_extra (x : Binary64) : floorParts x ≠ .error .extra := by
  unfold floorParts
  split
  · split <;> simp
  · simp

theorem momentOf_ne_extra (v : Value) : momentOf v ≠ .error .extra := by
  unfold momentOf
  dsimp only
  split
  · simp
  · split <;> simp
  · split <;> simp
  · refine bind_ne_extra (floorParts_ne_extra _) fun parts => ?_
    split <;> simp
  · simp
  · refine bind_ne_extra (spelling?_ne_extra (by simp) _) fun spelt => ?_
    split
    · split <;> simp
    · simp

theorem fitMoment_ne_extra (v : Value) : fitMoment v ≠ .error .extra := by
  have hmoment := momentOf_ne_extra v
  unfold fitMoment
  split
  · simp
  · rename_i problem hproblem
    rw [hproblem] at hmoment
    split
    · split <;> simp
    · exact hmoment

theorem fitDay_ne_extra (v : Value) : fitDay v ≠ .error .extra := by
  have hmidnight : ∀ m, dayOfMidnight m ≠ .error .extra := by
    intro m
    unfold dayOfMidnight
    split <;> simp
  unfold fitDay
  dsimp only
  split
  · simp
  · split
    · split
      · simp
      · split <;> first | exact hmidnight _ | simp
    · split <;> first | exact hmidnight _ | simp

theorem fitUuid_ne_extra (v : Value) : fitUuid v ≠ .error .extra := by
  unfold fitUuid
  split
  · simp
  · split <;> simp
  · split
    · simp
    · split <;> simp
  · simp

theorem fitLiteral_ne_extra (choices : List Value) (v : Value) : fitLiteral choices v ≠ .error .extra := by
  unfold fitLiteral
  split <;> simp

theorem fitMember_ne_extra (e : Enumeration) (v : Value) : fitMember e v ≠ .error .extra := by
  unfold fitMember
  dsimp only
  split
  · split
    · simp
    · split
      · split
        · split <;> simp
        · simp
      · split
        · split <;> simp
        · simp
      · simp
  · split
    · split
      · split <;> simp
      · simp
    · split
      · split <;> simp
      · simp
    · split <;> simp

end scalars

/-- What is blamed for choices one by one until one fits is blamed for one of them. -/
theorem exists_mem_of_blames_fitOnly {ts : List Ty} {v : Value} (h : Blames .extra (fitOnly c record ts v)) :
    ∃ t ∈ ts, Blames .extra (fit c record t v) := by
  induction ts with
  | nil =>
      rw [fitOnly, blames_refuse] at h
      cases h
  | cons t rest ih =>
      rw [fitOnly] at h
      split at h
      · obtain ⟨u, hu, hblames⟩ := ih h
        exact ⟨u, List.mem_cons_of_mem t hu, hblames⟩
      · exact ⟨t, List.mem_cons_self, h⟩

/-- What is blamed for all choices is blamed for one of them. -/
theorem exists_mem_of_blames_choose {ts : List Ty} {v : Value} {s : Choosing}
    (h : Blames .extra (choose c record ts v s)) :
    (∃ r ∈ s.faults, r.problem = .extra) ∨ ∃ t ∈ ts, Blames .extra (fit c record t v) := by
  induction ts generalizing s with
  | nil =>
      rw [choose, Choosing.result] at h
      split at h
      · cases h
      · exact .inl h
  | cons t rest ih =>
      have hlater : ∀ next : Choosing, (next.faults = s.faults ∨ ∃ rs, fit c record t v = .error rs ∧
          next.faults = s.faults ++ rs.map (·.under (.key (label c t)))) → Blames .extra (choose c record rest v next) →
          (∃ r ∈ s.faults, r.problem = .extra) ∨ ∃ u ∈ t :: rest, Blames .extra (fit c record u v) := by
        rintro next hnext hblames
        rcases ih hblames with ⟨r, hr, hextra⟩ | ⟨u, hu, hextra⟩
        · rcases hnext with hsame | ⟨rs, hrs, hmore⟩
          · exact .inl ⟨r, hsame ▸ hr, hextra⟩
          · rw [hmore] at hr
            rcases List.mem_append.mp hr with hbefore | hnew
            · exact .inl ⟨r, hbefore, hextra⟩
            · refine .inr ⟨t, List.mem_cons_self, ?_⟩
              rw [hrs]
              exact blames_under.mp ⟨r, hnew, hextra⟩
        · exact .inr ⟨u, List.mem_cons_of_mem t hu, hextra⟩
      rw [choose] at h
      split at h
      · exact hlater s (.inl rfl) h
      · split at h
        · split at h
          · cases h
          · refine hlater _ (.inl ?_) h
            unfold Choosing.add
            dsimp only
            split
            · split <;> rfl
            · rfl
        · rename_i rs hrs
          refine hlater _ ?_ h
          unfold Choosing.add
          dsimp only
          split
          · exact .inl rfl
          · exact .inr ⟨rs, hrs, rfl⟩

/-- What is blamed for items in their positions is blamed for one of them. -/
theorem exists_mem_of_blames_fitEach {most found index : Nat} {ts : List Ty} {vs : List Value}
    (h : Blames .extra (fitEach c record most found index ts vs)) :
    ∃ q ∈ ts.zip vs, Blames .extra (fit c record q.1 q.2) := by
  induction ts generalizing index vs with
  | nil => cases vs <;> simp [fitEach, Blames, Rejection.here] at h
  | cons t rest ih =>
      cases vs with
      | nil =>
          unfold fitEach at h
          split at h
          · rename_i rejections hlater
            obtain ⟨r, hr, hextra⟩ := h
            rcases List.mem_cons.mp hr with rfl | hrest
            · cases hextra
            · obtain ⟨q, hq, -⟩ := @ih (index + 1) [] (by rw [hlater]; exact ⟨r, hrest, hextra⟩)
              simp at hq
          · simp [Blames] at h
      | cons v vs =>
          rw [fitEach, blames_consFit] at h
          rcases h with hfirst | hlater
          · exact ⟨(t, v), List.mem_cons_self, hfirst⟩
          · obtain ⟨q, hq, hextra⟩ := ih hlater
            exact ⟨q, List.mem_cons_of_mem _ hq, hextra⟩

/-- What holds of a value holds of the items and the entries in it. -/
structure IsInherited (inside : Value → Prop) : Prop where
  items : ∀ v xs, inside v → v.items? = some xs → ∀ x ∈ xs, inside x
  entries : ∀ es, inside (.dict es) → ∀ e ∈ es, inside e.1 ∧ inside e.2

section inherited

variable {inside : Value → Prop}

/-- A type without types inside that is no record blames no key. -/
theorem not_blames_fit_of_isAtom {t : Ty} {v : Value} (ht : t.isAtom = true) : ¬Blames .extra (fit c record t v) := by
  intro h
  cases t with
  | str => exact fitText_ne_extra v (blames_ofScalar.mp h)
  | int => exact fitInt_ne_extra v (blames_ofScalar.mp h)
  | float => exact fitFloat_ne_extra v (blames_ofScalar.mp h)
  | bool => exact fitBool_ne_extra v (blames_ofScalar.mp h)
  | moment => exact fitMoment_ne_extra v (blames_ofScalar.mp h)
  | day => exact fitDay_ne_extra v (blames_ofScalar.mp h)
  | uuid => exact fitUuid_ne_extra v (blames_ofScalar.mp h)
  | bytes => exact fitBytes_ne_extra v (blames_ofScalar.mp h)
  | literal values => exact fitLiteral_ne_extra values v (blames_ofScalar.mp h)
  | any => cases h
  | null =>
      rw [fit] at h
      split at h
      · cases h
      · cases blames_refuse.mp h
  | enumeration name =>
      rw [fit] at h
      split at h
      · exact fitMember_ne_extra _ v (blames_ofScalar.mp h)
      · cases h
  | bareList | bareTuple =>
      rw [fit] at h
      split at h
      · obtain ⟨x, -, hx⟩ := blames_fitItems.mp (blames_map.mp h)
        cases hx
      · cases blames_refuse.mp h
  | bareSet frozen =>
      rw [fit] at h
      split at h
      · rcases blames_bind.mp h with hitems | ⟨fits, -, hset⟩
        · obtain ⟨x, -, hx⟩ := blames_fitItems.mp hitems
          cases hx
        · cases problem_of_blames_setFit hset
      · cases blames_refuse.mp h
  | bareDict =>
      simp only [fit] at h
      split at h
      · cases h
      · cases blames_refuse.mp h
  | _ => cases ht

/-- A choice that a key is blamed for is one of the choices. -/
theorem exists_mem_of_blames_union {choices : List Ty} {v : Value} (h : Blames .extra (fit c record (.union choices) v)) :
    ∃ t ∈ choices, Blames .extra (fit c record t v) := by
  rw [fit] at h
  split at h
  · cases h
  · split at h
    · exact exists_mem_of_blames_fitOnly h
    · rcases exists_mem_of_blames_choose h with ⟨r, hr, -⟩ | hchoice
      · cases hr
      · exact hchoice

/-- Where a key is blamed for not being known, a record is that the type names, for something in the value. -/
theorem exists_record_of_blames_inside (hin : IsInherited inside) (t : Ty) (v : Value) (hv : inside v)
    (h : Blames .extra (fit c record t v)) :
    ∃ name ∈ t.recordNames, ∃ w, inside w ∧ Blames .extra (record name w) := by
  induction t using Ty.madeOf_induction generalizing v with
  | step t hparts =>
      have hpart : ∀ u ∈ t.madeOf, ∀ w, inside w → Blames .extra (fit c record u w) →
          ∃ name ∈ t.recordNames, ∃ w, inside w ∧ Blames .extra (record name w) := by
        intro u hu w hw hblames
        obtain ⟨name, hname, hrecord⟩ := hparts u hu w hw hblames
        exact ⟨name, Ty.recordNames_subset hu hname, hrecord⟩
      cases t with
      | record name => exact ⟨name, List.mem_singleton.mpr rfl, v, hv, h⟩
      | annotated inner =>
          rw [fit] at h
          exact hpart inner (List.mem_singleton_self inner) v hv h
      | list item | sequence item =>
          rw [fit] at h
          split at h
          · rename_i xs hxs
            obtain ⟨x, hmem, hx⟩ := blames_fitItems.mp (blames_map.mp h)
            exact hpart item (List.mem_singleton_self item) x (hin.items v xs hv hxs x hmem) hx
          · cases blames_refuse.mp h
      | set frozen item =>
          rw [fit] at h
          split at h
          · rename_i xs hxs
            rcases blames_bind.mp h with hitems | ⟨fits, -, hset⟩
            · obtain ⟨x, hmem, hx⟩ := blames_fitItems.mp hitems
              exact hpart item (List.mem_singleton_self item) x (hin.items v xs hv hxs x hmem) hx
            · cases problem_of_blames_setFit hset
          · cases blames_refuse.mp h
      | tuple items =>
          rw [fit] at h
          split at h
          · rename_i xs hxs
            obtain ⟨q, hq, hx⟩ := exists_mem_of_blames_fitEach (blames_map.mp h)
            obtain ⟨hitem, hmem⟩ := List.of_mem_zip hq
            exact hpart q.1 hitem q.2 (hin.items v xs hv hxs q.2 hmem) hx
          · cases blames_refuse.mp h
      | dict key value =>
          simp only [fit] at h
          split at h
          · rename_i es
            obtain ⟨e, hmem, hkey | hvalue⟩ := blames_fitEntries.mp (blames_map.mp h)
            · exact hpart key (by simp [Ty.madeOf]) e.1 (hin.entries es hv e hmem).1 hkey
            · exact hpart value (by simp [Ty.madeOf]) e.2 (hin.entries es hv e hmem).2 hvalue
          · cases blames_refuse.mp h
      | union choices =>
          obtain ⟨u, hu, hblames⟩ := exists_mem_of_blames_union h
          exact hpart u hu v hv hblames
      | _ => exact absurd h (not_blames_fit_of_isAtom rfl)

end inherited

theorem exists_record_of_blames (t : Ty) (v : Value) (h : Blames .extra (fit c record t v)) :
    ∃ name ∈ t.recordNames, ∃ w, Blames .extra (record name w) := by
  have hall : IsInherited fun _ => True := ⟨fun _ _ _ _ _ _ => trivial, fun _ _ _ _ => ⟨trivial, trivial⟩⟩
  obtain ⟨name, hname, w, -, hrecord⟩ := exists_record_of_blames_inside hall t v trivial h
  exact ⟨name, hname, w, hrecord⟩

/-- What is blamed for a type is blamed for what is left of it. -/
theorem blames_fit_unwrap {t : Ty} {v : Value} (h : Blames p (fit c record t v)) :
    Blames p (fit c record t.unwrap.1 v) := by
  by_cases hthere : v.isNull = false ∨ t.unwrap.2 = false
  · rwa [fit_unwrap c record t hthere]
  · rw [not_or, Bool.not_eq_false, Bool.not_eq_false] at hthere
    cases v with
    | null =>
        rw [fit_null c record t hthere.2] at h
        cases h
    | _ => cases hthere.1

/-- A field blames a key as its type does. -/
theorem blames_fit_of_fitField {f : Field} {v : Value} (h : Blames .extra (fitField c record f v)) :
    Blames .extra (fit c record f.type v) := by
  unfold fitField at h
  dsimp only at h
  split at h
  · split at h
    · cases blames_refuse.mp h
    · exact h
  · rcases blames_bind.mp h with hfit | ⟨r, -, hbounds⟩
    · exact hfit
    · exact absurd hbounds (not_blames_checkBounds _ r)

/-- A field that takes any number of items blames what its type does. -/
theorem blames_fitField {f : Field} {v : Value} (hany : f.constraints.maxLength = none)
    (h : Blames p (fit c record f.type v)) : Blames p (fitField c record f v) := by
  unfold fitField
  dsimp only
  split
  · rename_i most xs hmost hxs
    rw [hany] at hmost
    cases hmost
  · exact blames_bind.mpr (.inl h)

section records

variable {strictness : Strictness} {m : Model} {es : List (Value × Value)} {f : Field}

/-- A field blames a key as the value does that is found for it. -/
theorem blames_contribution :
    (∃ r ∈ (contribution c record strictness es f).faults, r.problem = .extra) ↔
      ∃ key v, findField? strictness f es = some (key, v) ∧ Blames .extra (fitField c record f v) := by
  unfold contribution Filling.add
  cases findField? strictness f es with
  | none =>
      dsimp only
      split <;> simp
  | some found =>
      obtain ⟨key, v⟩ := found
      cases hfit : fitField c record f v with
      | ok fit => simp [hfit, Blames]
      | error rejections => simp [hfit, Blames, Rejection.under]

theorem blames_strayKeys {used : List String} :
    (∃ r ∈ strayKeys used es, r.problem = .extra) ↔ ∃ e ∈ es, ∃ key, e.1.text? = some key ∧ key ∉ used := by
  unfold strayKeys
  constructor
  · rintro ⟨r, hr, hextra⟩
    obtain ⟨⟨k, v⟩, he, hfault⟩ := List.mem_filterMap.mp hr
    dsimp only at hfault
    split at hfault
    · rename_i key hkey
      split at hfault
      · cases hfault
      · rename_i hunused
        exact ⟨(k, v), he, key, hkey, by simpa using hunused⟩
    · obtain rfl := Option.some.inj hfault
      cases hextra
  · rintro ⟨e, he, key, hkey, hunused⟩
    refine ⟨⟨[.key key], .extra⟩, List.mem_filterMap.mpr ⟨e, he, ?_⟩, rfl⟩
    simp [hkey, hunused]

theorem blames_unless {faults : List Rejection} {found : α} :
    Blames p (if faults.isEmpty then .ok found else .error faults) ↔ ∃ r ∈ faults, r.problem = p := by
  cases faults <;> simp [Blames]

theorem blames_strictFaults {s : Filling} : (∃ r ∈ strictFaults s es, r.problem = .extra) ↔
    (∀ e ∈ es, isBrokenKey e.1 = false) ∧
      ((∃ r ∈ s.faults, r.problem = .extra) ∨ ∃ r ∈ strayKeys s.used es, r.problem = .extra) := by
  rcases unbroken_or_exists es with hkeys | ⟨e, he, hbroken⟩
  · simp only [strictFaults_of_unbroken hkeys, List.mem_append, or_and_right, exists_or, iff_and_self]
    exact fun _ => hkeys
  · rw [strictFaults_of_broken he hbroken]
    constructor
    · rintro ⟨r, hr, hextra⟩
      rw [List.mem_singleton.mp hr] at hextra
      cases hextra
    · rintro ⟨hkeys, -⟩
      rw [hkeys e he] at hbroken
      cases hbroken

/-- A record blames a key if a field does, or if it is a strict one and no field is found under the key; but a strict
one that has a broken key blames none. -/
theorem blames_fillRecord : Blames .extra (fillRecord c record m es) ↔
    (m.strictness = .strict → ∀ e ∈ es, isBrokenKey e.1 = false) ∧
      ((∃ f ∈ m.fields, ∃ key v, findField? m.strictness f es = some (key, v) ∧
          Blames .extra (fitField c record f v)) ∨
        m.strictness = .strict ∧ ∃ e ∈ es, ∃ key, e.1.text? = some key ∧
          ∀ f ∈ m.fields, ∀ v, findField? m.strictness f es ≠ some (key, v)) := by
  have hfields : (∃ r ∈ (m.fields.flatMap fun f => (contribution c record m.strictness es f).faults),
      r.problem = .extra) ↔
      ∃ f ∈ m.fields, ∃ key v, findField? m.strictness f es = some (key, v) ∧ Blames .extra (fitField c record f v) := by
    simp only [List.mem_flatMap, ← blames_contribution (c := c)]
    constructor
    · rintro ⟨r, ⟨f, hf, hr⟩, hextra⟩
      exact ⟨f, hf, r, hr, hextra⟩
    · rintro ⟨f, hf, r, hr, hextra⟩
      exact ⟨r, ⟨f, hf, hr⟩, hextra⟩
  have hstray : ∀ key, key ∉ (m.fields.flatMap fun f => (contribution c record m.strictness es f).used) ↔
      ∀ f ∈ m.fields, ∀ v, findField? m.strictness f es ≠ some (key, v) := by
    intro key
    rw [mem_used_contributions]
    simp only [not_exists, not_and, ne_eq]
  simp only [fillRecord, foldl_add_eq_contributions, List.nil_append]
  rw [blames_unless]
  cases hstrictness : m.strictness with
  | plain =>
      rw [hstrictness] at hfields
      simp only [hfields, reduceCtorEq, false_and, or_false, false_imp_iff, true_and]
  | strict =>
      rw [hstrictness] at hfields hstray
      simp only [blames_strictFaults, hfields, blames_strayKeys, hstray, true_and, forall_const]

/-- What a field is found to be blamed for is among its faults. -/
theorem exists_fault_of_found {key : String} {v : Value} (hfound : findField? strictness f es = some (key, v))
    (h : Blames p (fitField c record f v)) :
    ∃ r ∈ (contribution c record strictness es f).faults, r.problem = p := by
  unfold contribution Filling.add
  rw [hfound]
  dsimp only
  cases hfit : fitField c record f v with
  | ok fit =>
      rw [hfit] at h
      cases h
  | error rejections =>
      rw [hfit] at h
      exact blames_under.mpr h

section strict

variable (hstrict : m.strictness = .strict)

include hstrict

theorem blames_fillRecord_iff_of_strict : Blames p (fillRecord c record m es) ↔
    ∃ r ∈ strictFaults (m.fields.foldl (Filling.add c record .strict es) ⟨[], [], []⟩) es, r.problem = p := by
  rw [fillRecord, hstrict]
  exact blames_unless

/-- A strict record is refused for a broken key. -/
theorem blames_fillRecord_of_broken {e : Value × Value} (he : e ∈ es) (hbroken : isBrokenKey e.1 = true) :
    Blames .stringUnicode (fillRecord c record m es) := by
  rw [blames_fillRecord_iff_of_strict hstrict, strictFaults_of_broken he hbroken]
  exact ⟨_, List.mem_singleton.mpr rfl, rfl⟩

variable (hkeys : ∀ e ∈ es, isBrokenKey e.1 = false)

include hkeys

/-- A strict record is refused for a key under which no field is found. -/
theorem blames_fillRecord_of_stray {e : Value × Value} (he : e ∈ es)
    (hno : ∀ f ∈ m.fields, ∀ key v, findField? .strict f es = some (key, v) → e.1.text? ≠ some key) :
    Blames (if e.1.text?.isSome then .extra else .keyType) (fillRecord c record m es) := by
  rw [blames_fillRecord_iff_of_strict hstrict, strictFaults_of_unbroken hkeys, foldl_add_eq_contributions]
  simp only [List.nil_append]
  cases htext : e.1.text? with
  | none =>
      refine ⟨⟨[stepOf e.1], .keyType⟩, List.mem_append_right _ (List.mem_filterMap.mpr ⟨e, he, ?_⟩), rfl⟩
      simp [htext]
  | some key =>
      have hunused : key ∉ m.fields.flatMap fun f => (contribution c record .strict es f).used := by
        rw [mem_used_contributions]
        rintro ⟨f, hf, v, hfound⟩
        exact hno f hf key v hfound htext
      refine ⟨⟨[.key key], .extra⟩, List.mem_append_right _ (List.mem_filterMap.mpr ⟨e, he, ?_⟩), rfl⟩
      simp [htext, hunused]

/-- A strict record is refused for what a field is refused for. -/
theorem blames_fillRecord_of_field {key : String} {v : Value} (hf : f ∈ m.fields)
    (hfound : findField? .strict f es = some (key, v)) (h : Blames p (fitField c record f v)) :
    Blames p (fillRecord c record m es) := by
  rw [blames_fillRecord_iff_of_strict hstrict, strictFaults_of_unbroken hkeys, foldl_add_eq_contributions]
  have hfault : ∃ r ∈ (contribution c record .strict es f).faults, r.problem = p := exists_fault_of_found hfound h
  obtain ⟨r, hr, hproblem⟩ := hfault
  exact ⟨r, List.mem_append_left _ (List.mem_flatMap.mpr ⟨f, hf, hr⟩), hproblem⟩

end strict

/-- Only what is built of a document blames a key. -/
theorem exists_dict_of_blames_fitRecord {fuel : Nat} {name : String} {v : Value}
    (h : Blames .extra (fitRecord c fuel name v)) :
    ∃ before m es whole, fuel = before + 1 ∧ c.model? name = some m ∧ v = .dict es ∧ completed c m es = .ok whole ∧
      Blames .extra (fillRecord c (fitRecord c before) m whole) := by
  cases fuel with
  | zero => cases blames_refuse.mp h
  | succ before =>
      unfold fitRecord at h
      split at h
      · rename_i m es hm
        split at h
        · rename_i whole hwhole
          exact ⟨before, m, es, whole, rfl, hm, rfl, hwhole, h⟩
        · rename_i problem hproblem
          rw [blames_refuse] at h
          subst h
          unfold completed at hproblem
          split at hproblem
          · cases hproblem
          · split at hproblem <;> cases hproblem
      · split at h
        · cases h
        · cases blames_refuse.mp h
      · cases blames_refuse.mp h

theorem blames_fitRecord {fuel : Nat} {name : String} {whole : List (Value × Value)} (hm : c.model? name = some m)
    (hwhole : completed c m es = .ok whole) (h : Blames p (fillRecord c (fitRecord c fuel) m whole)) :
    Blames p (fitRecord c (fuel + 1) name (.dict es)) := by
  simpa only [fitRecord, hm, hwhole] using h

end records

end Shape
end Intake
