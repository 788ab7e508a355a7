import Intake.Proofs.Model.MadeOf
import Intake.Proofs.Shape.Document

/-!
Refused values. Whatever is refused is refused for a reason: no refusal is without a rejection. So the record
of a document is refused exactly when a field does not get a value from it, and the rejections name just
these fields.
-/

namespace Intake.Shape

variable {α β : Type} {c : Catalogue} {record : String → Value → Fitted}

/-- An outcome that is no refusal without a rejection. -/
def SaysWhy : Except (List Rejection) α → Prop
  | .ok _ => True
  | .error rejections => rejections ≠ []

theorem saysWhy_refuse (problem : Problem) : SaysWhy (refuse problem) := List.cons_ne_nil _ _

theorem saysWhy_ofScalar (outcome : Outcome) : SaysWhy (ofScalar outcome) := by
  cases outcome with
  | ok found => trivial
  | error problem => exact List.cons_ne_nil _ _

theorem saysWhy_fitAny (v : Value) : SaysWhy (fitAny v) := trivial

theorem SaysWhy.map {x : Except (List Rejection) α} (hx : SaysWhy x) (f : α → β) : SaysWhy (x.map f) := by
  cases x with
  | ok v => trivial
  | error rejections => exact hx

theorem SaysWhy.bind {x : Except (List Rejection) α} {f : α → Except (List Rejection) β} (hx : SaysWhy x)
    (hf : ∀ v, SaysWhy (f v)) : SaysWhy (x.bind f) := by
  cases x with
  | ok v => exact hf v
  | error rejections => exact hx

theorem saysWhy_consFit {step : Step} {first : Fitted} {others : Except (List Rejection) Fits}
    (hfirst : SaysWhy first) (hothers : SaysWhy others) : SaysWhy (consFit step first others) := by
  cases first with
  | ok found =>
      cases others with
      | ok fits => trivial
      | error rejections => exact hothers
  | error rejections =>
      have hmapped : rejections.map (·.under step) ≠ [] := mt List.map_eq_nil_iff.mp hfirst
      cases others with
      | ok fits => exact hmapped
      | error later => exact List.append_ne_nil_of_left_ne_nil hmapped _

theorem saysWhy_fitItems {fitItem : Value → Fitted} (hitem : ∀ v, SaysWhy (fitItem v)) (index : Nat)
    (xs : List Value) : SaysWhy (fitItems fitItem index xs) := by
  induction xs generalizing index with
  | nil => trivial
  | cons x rest ih => exact saysWhy_consFit (hitem x) (ih (index + 1))

theorem saysWhy_fitEntries {fitKey fitValue : Value → Fitted} (hkey : ∀ v, SaysWhy (fitKey v))
    (hvalue : ∀ v, SaysWhy (fitValue v)) (es : List (Value × Value)) :
    SaysWhy (fitEntries fitKey fitValue es) := by
  induction es with
  | nil => trivial
  | cons e rest ih =>
      obtain ⟨k, v⟩ := e
      have hk := hkey k
      have hv := hvalue v
      rw [fitEntries]
      generalize fitKey k = key at hk ⊢
      generalize fitValue v = value at hv ⊢
      generalize fitEntries fitKey fitValue rest = others at ih ⊢
      cases key <;> cases value <;> cases others <;> simp_all [SaysWhy]

theorem saysWhy_setFit (frozen : Bool) (v : Value) (fits : Fits) : SaysWhy (setFit frozen v fits) := by
  unfold setFit
  dsimp only
  split
  · rename_i hbad
    simpa [SaysWhy] using hbad
  · trivial

theorem saysWhy_fitEach_nil (most found index : Nat) (ts : List Ty) :
    SaysWhy (fitEach c record most found index ts []) := by
  cases ts with
  | nil => simp [fitEach, SaysWhy]
  | cons t rest =>
      unfold fitEach
      split <;> exact List.cons_ne_nil _ _

/-- What the choices so far have come to: a fit, or a rejection, or nothing if there was none. -/
theorem Choosing.saysWhy_result {s : Choosing} (h : s.best.isSome ∨ s.faults ≠ []) : SaysWhy s.result := by
  unfold Choosing.result
  cases hbest : s.best with
  | some found => trivial
  | none =>
      rcases h with hsome | hfaults
      · simp [hbest] at hsome
      · exact hfaults

theorem Choosing.add_found {s : Choosing} {label : String} {outcome : Fitted} (houtcome : SaysWhy outcome) :
    (s.add label outcome).best.isSome ∨ (s.add label outcome).faults ≠ [] := by
  unfold Choosing.add
  cases outcome with
  | ok found =>
      left
      dsimp only
      split
      · rename_i best hbest
        split
        · rfl
        · rw [hbest]
          rfl
      · rfl
  | error rejections =>
      have hmapped : rejections.map (·.under (.key label)) ≠ [] := mt List.map_eq_nil_iff.mp houtcome
      dsimp only
      split
      · rename_i hbest
        exact .inl hbest
      · exact .inr (List.append_ne_nil_of_right_ne_nil _ hmapped)

theorem saysWhy_fitOnly {ts : List Ty} {v : Value} (hts : ∀ t ∈ ts, SaysWhy (fit c record t v)) :
    SaysWhy (fitOnly c record ts v) := by
  induction ts with
  | nil => exact saysWhy_refuse _
  | cons t rest ih =>
      obtain ⟨ht, hrest⟩ := List.forall_mem_cons.mp hts
      rw [fitOnly]
      split
      · exact ih hrest
      · exact ht

theorem saysWhy_choose {ts : List Ty} {v : Value} {s : Choosing} (hts : ∀ t ∈ ts, SaysWhy (fit c record t v))
    (h : (s.best.isSome ∨ s.faults ≠ []) ∨ (ts.filter fun t => !t.isNull) ≠ []) :
    SaysWhy (choose c record ts v s) := by
  induction ts generalizing s with
  | nil => exact s.saysWhy_result (h.resolve_right fun hnone => hnone rfl)
  | cons t rest ih =>
      obtain ⟨ht, hrest⟩ := List.forall_mem_cons.mp hts
      rw [choose]
      split
      · rename_i hnull
        refine ih hrest (h.imp_right fun hsome => ?_)
        simpa [hnull] using hsome
      · split
        · split
          · trivial
          · exact ih hrest (.inl (Choosing.add_found trivial))
        · rename_i rejections hrefused
          rw [hrefused] at ht
          exact ih hrest (.inl (Choosing.add_found ht))

theorem saysWhy_fitEach {ts : List Ty} (hts : ∀ t ∈ ts, ∀ v, SaysWhy (fit c record t v)) (most found index : Nat)
    (vs : List Value) : SaysWhy (fitEach c record most found index ts vs) := by
  induction ts generalizing index vs with
  | nil => cases vs <;> simp [fitEach, SaysWhy]
  | cons t rest ih =>
      obtain ⟨ht, hrest⟩ := List.forall_mem_cons.mp hts
      cases vs with
      | nil => exact saysWhy_fitEach_nil most found index (t :: rest)
      | cons v vs =>
          rw [fitEach]
          exact saysWhy_consFit (ht v) (ih hrest (index + 1) vs)

/-- What does not fit a type is refused for a reason, as far as that holds for records. -/
theorem saysWhy_fit (hrecord : ∀ name v, SaysWhy (record name v)) (t : Ty) (v : Value) :
    SaysWhy (fit c record t v) := by
  induction t using Ty.madeOf_induction generalizing v with
  | step t hparts =>
      cases t with
      | str | int | float | bool | moment | day | uuid | bytes | literal values =>
          rw [fit]
          exact saysWhy_ofScalar _
      | any => trivial
      | null =>
          rw [fit]
          split
          · trivial
          · exact saysWhy_refuse _
      | enumeration name =>
          rw [fit]
          split
          · exact saysWhy_ofScalar _
          · trivial
      | record name => exact hrecord name v
      | annotated inner => exact hparts inner (List.mem_singleton_self inner) v
      | bareList | bareTuple =>
          rw [fit]
          split
          · exact (saysWhy_fitItems saysWhy_fitAny 0 _).map _
          · exact saysWhy_refuse _
      | bareSet frozen =>
          rw [fit]
          split
          · exact (saysWhy_fitItems saysWhy_fitAny 0 _).bind (saysWhy_setFit frozen v)
          · exact saysWhy_refuse _
      | bareDict =>
          simp only [fit]
          split
          · trivial
          · exact saysWhy_refuse _
      | list item | sequence item =>
          rw [fit]
          split
          · exact (saysWhy_fitItems (hparts item (List.mem_singleton_self item)) 0 _).map _
          · exact saysWhy_refuse _
      | set frozen item =>
          rw [fit]
          split
          · exact (saysWhy_fitItems (hparts item (List.mem_singleton_self item)) 0 _).bind (saysWhy_setFit frozen v)
          · exact saysWhy_refuse _
      | tuple items =>
          rw [fit]
          split
          · exact (saysWhy_fitEach hparts _ _ 0 _).map _
          · exact saysWhy_refuse _
      | dict key value =>
          have hkey := hparts key (by simp [Ty.madeOf])
          have hvalue := hparts value (by simp [Ty.madeOf])
          simp only [fit]
          split
          · exact (saysWhy_fitEntries hkey hvalue _).map _
          · exact saysWhy_refuse _
      | union choices =>
          rw [fit]
          split
          · trivial
          · split
            · exact saysWhy_fitOnly fun t ht => hparts t ht v
            · rename_i hmany
              refine saysWhy_choose (fun t ht => hparts t ht v) (.inr fun hnone => ?_)
              simp [hnone] at hmany

theorem saysWhy_unless (faults : List Rejection) (found : α) :
    SaysWhy (if faults.isEmpty then .ok found else .error faults) := by
  split
  · trivial
  · rename_i hfaults
    simpa [SaysWhy] using hfaults

theorem saysWhy_fitRecord (fuel : Nat) (name : String) (v : Value) : SaysWhy (fitRecord c fuel name v) := by
  cases fuel with
  | zero => exact saysWhy_refuse _
  | succ fuel =>
      rw [fitRecord.eq_def]
      dsimp only
      split
      · split
        · exact saysWhy_unless _ _
        · exact saysWhy_refuse _
      · split
        · trivial
        · exact saysWhy_refuse _
      · exact saysWhy_refuse _

theorem saysWhy_checkBounds (b : Constraints) (found : Fit) : SaysWhy (checkBounds b found) := by
  have hchoice : ∀ (p q : Bool) (first second : Problem),
      SaysWhy (if p then refuse first else if q then refuse second else .ok found) := by
    intro p q first second
    cases p <;> cases q <;> first | trivial | exact saysWhy_refuse _
  unfold checkBounds
  dsimp only
  split
  · split
    · exact saysWhy_refuse _
    · trivial
  · exact hchoice _ _ _ _

/-- What does not fit a field is refused for a reason, as far as that holds for records. -/
theorem saysWhy_fitField (hrecord : ∀ name v, SaysWhy (record name v)) (f : Field) (v : Value) :
    SaysWhy (fitField c record f v) := by
  have hfit : SaysWhy (fit c record f.type v) := saysWhy_fit hrecord f.type v
  unfold fitField
  dsimp only
  split
  · split
    · exact saysWhy_refuse _
    · exact hfit
  · exact hfit.bind (saysWhy_checkBounds f.constraints)

variable {strictness : Strictness} {entries : List (Value × Value)} {found : Field → Option Value} {f : Field}

/-- What one field contributes to a record. -/
def contribution (c : Catalogue) (record : String → Value → Fitted) (strictness : Strictness)
    (entries : List (Value × Value)) (f : Field) : Filling :=
  Filling.add c record strictness entries ⟨[], [], []⟩ f

theorem add_eq_contribution (s : Filling) (f : Field) :
    s.add c record strictness entries f =
      ⟨s.attributes ++ (contribution c record strictness entries f).attributes,
        s.faults ++ (contribution c record strictness entries f).faults,
        s.used ++ (contribution c record strictness entries f).used⟩ := by
  unfold contribution Filling.add
  split
  · split <;> simp
  · split <;> simp

/-- What the fields of a record come to is what each of them contributes. -/
theorem foldl_add_eq_contributions (fs : List Field) (s : Filling) :
    fs.foldl (Filling.add c record strictness entries) s =
      ⟨s.attributes ++ fs.flatMap fun f => (contribution c record strictness entries f).attributes,
        s.faults ++ fs.flatMap fun f => (contribution c record strictness entries f).faults,
        s.used ++ fs.flatMap fun f => (contribution c record strictness entries f).used⟩ := by
  induction fs generalizing s with
  | nil => simp
  | cons f rest ih =>
      rw [List.foldl_cons, add_eq_contribution, ih]
      simp

/-- A field contributes the key under which something stands for it, whether it fits or not. -/
theorem used_contribution (hfind : findField? strictness f entries = (given c found f).map (f.wireName, ·)) :
    (contribution c record strictness entries f).used = ((given c found f).map fun _ => f.wireName).toList := by
  unfold contribution Filling.add
  rw [hfind]
  cases given c found f with
  | none =>
      dsimp only [Option.map_none]
      split <;> rfl
  | some v =>
      dsimp only [Option.map_some]
      split <;> rfl

/-- The keys that are used are those under which fields are found. -/
theorem mem_used_contributions {fields : List Field} {key : String} :
    key ∈ (fields.flatMap fun f => (contribution c record strictness entries f).used) ↔
      ∃ f ∈ fields, ∃ v, findField? strictness f entries = some (key, v) := by
  have hone : ∀ f, key ∈ (contribution c record strictness entries f).used ↔
      ∃ v, findField? strictness f entries = some (key, v) := by
    intro f
    unfold contribution Filling.add
    cases findField? strictness f entries with
    | none =>
        dsimp only
        split <;> simp
    | some found =>
        obtain ⟨other, v⟩ := found
        dsimp only
        split <;> simp [eq_comm]
  simp only [List.mem_flatMap, hone]

/-- The rejections of a field name its key. -/
theorem rejectedKey_contribution (hfind : findField? strictness f entries = (given c found f).map (f.wireName, ·)) :
    ∀ r ∈ (contribution c record strictness entries f).faults, ∃ rest, r.path = .key f.wireName :: rest := by
  unfold contribution Filling.add
  rw [hfind]
  cases given c found f with
  | none =>
      dsimp only [Option.map_none]
      split <;> simp
  | some v =>
      dsimp only [Option.map_some]
      split
      · simp
      · simp [Rejection.under]

theorem faults_eq_nil_iff_of_found (hrecord : ∀ name v, SaysWhy (record name v)) {key : String} {w : Value}
    (hfind : findField? strictness f entries = some (key, w)) :
    (contribution c record strictness entries f).faults = [] ↔ ∃ v, Takes c record f w v := by
  have hwhy : SaysWhy (fitField c record f w) := saysWhy_fitField hrecord f w
  unfold contribution Filling.add Takes
  rw [hfind]
  dsimp only
  cases hfit : fitField c record f w with
  | ok found => simp
  | error rejections =>
      rw [hfit] at hwhy
      have hsome : rejections ≠ [] := hwhy
      simpa using hsome

/-- A field is rejected exactly when it gets no value. -/
theorem faults_contribution_eq_nil_iff (hrecord : ∀ name v, SaysWhy (record name v))
    (hfind : findField? strictness f entries = (given c found f).map (f.wireName, ·)) :
    (contribution c record strictness entries f).faults = [] ↔ ∃ v, Settles c record f v (found f) := by
  cases hw : found f with
  | some w =>
      rw [given, hw, Option.some_or, Option.map_some] at hfind
      exact faults_eq_nil_iff_of_found hrecord hfind
  | none =>
      rw [given, hw, Option.none_or, zeroFound, hw] at hfind
      unfold Settles
      by_cases hfilled : (c.descriptorOf f).isFilled = true
      · simp only [Option.isNone_none, hfilled, and_self, ↓reduceIte, Option.map_some] at hfind ⊢
        exact faults_eq_nil_iff_of_found hrecord hfind
      · simp only [hfilled, and_false, Bool.false_eq_true, ↓reduceIte, Option.map_none] at hfind ⊢
        unfold contribution Filling.add
        rw [hfind]
        cases hdefault : f.default <;> simp

/-- A document that holds something for some fields of a model is refused if a field gets no value, for what the
fields are rejected for. -/
theorem fitRecord_of_unsettled {m : Model} {name : String} {fuel : Nat} {ds : List Descriptor}
    (hm : c.model? name = some m) (hstrict : m.strictness = .strict) (hds : c.describe m = .ok ds)
    (hapart : m.fields.Pairwise Field.Apart)
    (hunsettled : ∃ f ∈ m.fields, ¬∃ v, Settles c (fitRecord c fuel) f v (found f)) :
    ∃ rejections, fitRecord c (fuel + 1) name (.dict (Value.textEntries (entriesFor m.fields found))) =
        .error rejections ∧
      (∀ r ∈ rejections, ∃ f ∈ m.fields, (¬∃ v, Settles c (fitRecord c fuel) f v (found f)) ∧
        ∃ rest, r.path = .key f.wireName :: rest) ∧
      ∀ f ∈ m.fields, (¬∃ v, Settles c (fitRecord c fuel) f v (found f)) →
        ∃ r ∈ rejections, ∃ rest, r.path = .key f.wireName :: rest := by
  have hfind : ∀ f ∈ m.fields, findField? .strict f
      (Value.textEntries (entriesFor m.fields found ++ entriesFor m.fields (zeroFound c found))) =
        (given c found f).map (f.wireName, ·) := fun f hf => findField?_completed hapart hf
  generalize hwhole : Value.textEntries (entriesFor m.fields found ++ entriesFor m.fields (zeroFound c found)) = whole
    at hfind
  have htold := strictFaults_of_unbroken (hwhole ▸ isBrokenKey_textEntries _ : ∀ e ∈ whole, isBrokenKey e.1 = false)
  have hiff : ∀ f ∈ m.fields, (contribution c (fitRecord c fuel) .strict whole f).faults = [] ↔
      ∃ v, Settles c (fitRecord c fuel) f v (found f) := fun f hf =>
    faults_contribution_eq_nil_iff (saysWhy_fitRecord fuel) (hfind f hf)
  have hused : (m.fields.flatMap fun f => (contribution c (fitRecord c fuel) .strict whole f).used) =
      m.fields.flatMap fun f => ((given c found f).map fun _ => f.wireName).toList :=
    List.flatMap_congr fun f hf => used_contribution (hfind f hf)
  have hstray := strayKeys_completed (c := c) m.fields found
  rw [hwhole, ← hused] at hstray
  have hsome : (m.fields.flatMap fun f => (contribution c (fitRecord c fuel) .strict whole f).faults) ≠ [] := by
    obtain ⟨f, hf, hf'⟩ := hunsettled
    intro hnone
    exact hf' ((hiff f hf).mp (List.flatMap_eq_nil_iff.mp hnone f hf))
  refine ⟨m.fields.flatMap fun f => (contribution c (fitRecord c fuel) .strict whole f).faults, ?_, ?_, ?_⟩
  · simp only [fitRecord, hm, completed_eq hstrict hds hapart, fillRecord, hstrict, foldl_add_eq_contributions,
      List.nil_append, hwhole, htold, hstray, List.append_nil, List.isEmpty_iff, hsome, ↓reduceIte]
  · intro r hr
    obtain ⟨f, hf, hrf⟩ := List.mem_flatMap.mp hr
    refine ⟨f, hf, fun hsettled => ?_, rejectedKey_contribution (hfind f hf) r hrf⟩
    rw [(hiff f hf).mpr hsettled] at hrf
    exact List.not_mem_nil hrf
  · intro f hf hf'
    obtain ⟨r, hr⟩ := List.exists_mem_of_ne_nil _ fun hnone => hf' ((hiff f hf).mp hnone)
    exact ⟨r, List.mem_flatMap.mpr ⟨f, hf, hr⟩, rejectedKey_contribution (hfind f hf) r hr⟩

/-- A document that holds something for some fields of a model is built into a record with given values exactly if
these are what comes of what is held. -/
theorem fitRecord_eq_iff_settles {m : Model} {name : String} {fuel : Nat} {value : Field → Value}
    {ds : List Descriptor} (hm : c.model? name = some m) (hstrict : m.strictness = .strict)
    (hds : c.describe m = .ok ds) (hapart : m.fields.Pairwise Field.Apart) :
    (∃ r, fitRecord c (fuel + 1) name (.dict (Value.textEntries (entriesFor m.fields found))) = .ok r ∧
        r.value = .record m.name (m.fields.map fun f => (f.name, value f))) ↔
      ∀ f ∈ m.fields, Settles c (fitRecord c fuel) f (value f) (found f) := by
  refine ⟨?_, fitRecord_of_settles hm hstrict hds hapart⟩
  rintro ⟨r, hr, hvalue⟩
  have hsettled : ∀ f ∈ m.fields, ∃ v, Settles c (fitRecord c fuel) f v (found f) := by
    by_contra hunsettled
    obtain ⟨f, hf⟩ := not_forall.mp hunsettled
    rw [Classical.not_imp] at hf
    obtain ⟨rejections, hrefused, -⟩ := fitRecord_of_unsettled hm hstrict hds hapart ⟨f, hf⟩
    rw [hrefused] at hr
    cases hr
  choose! other hother using hsettled
  obtain ⟨fit, hfit, hbuilt⟩ := fitRecord_of_settles hm hstrict hds hapart hother
  obtain rfl := Except.ok.inj (hr.symm.trans hfit)
  rw [hvalue, Value.record.injEq] at hbuilt
  intro f hf
  have hpair := List.map_inj_left.mp hbuilt.2 f hf
  rw [(Prod.mk.inj hpair).2]
  exact hother f hf

end Intake.Shape
