import Intake.Proofs.Validation.Typed

/-!
Catalogues by which nothing fails that is typed. They are sound, and none of their rules fails on what suits its
field, so every record that is typed is validated. That a catalogue is plain can be computed, and is enough.
-/

namespace Intake

open Validation

variable {c : Catalogue} {m : Model}

/-- A sound catalogue in which no rule fails on what suits its field. -/
structure Catalogue.IsReliable (c : Catalogue) : Prop where
  sound : c.IsSound
  harmless : ∀ m ∈ c.models, ∀ f ∈ m.fields, ∀ r ∈ (c.descriptorOf f).rules, ∀ v, Suits (c.descriptorOf f) v →
    IsHarmless (c.descriptorOf f) r v

/-- Whether a rule is one that fails on nothing that suits its field: it counts no multiples, matches only by what can
be read, and compares only texts. -/
def isTame (d : Descriptor) (r : Rule) : Bool :=
  r.name != "multipleOf" &&
    (r.name != "pattern" || r.arg.any fun pattern => (Pattern.compile .none pattern).toOption.isSome) &&
      (r.name != "uniqueItems" || d.elementKind == some .string)

theorem isHarmless_of_isTame {d : Descriptor} {r : Rule} {v : Value} (hr : isTame d r = true) (hv : Suits d v) :
    IsHarmless d r v := by
  simp only [isTame, Bool.and_eq_true, Bool.or_eq_true, bne_iff_ne, beq_iff_eq] at hr
  obtain ⟨⟨hmultiple, hpattern⟩, hunique⟩ := hr
  have hscalar : ∀ kind v, IsHarmlessFor kind r v := by
    intro kind v
    unfold IsHarmlessFor
    split
    · exact fun hname => absurd hname hmultiple
    · intro hname pattern flaw harg hflaw
      have hcompiled := hpattern.resolve_left (not_not_intro hname)
      simp [harg, hflaw, Except.toOption] at hcompiled
    · trivial
  refine ⟨fun _ => hscalar _ _, fun _ _ _ _ _ _ _ => hscalar _ _, fun harray hname xs hxs x hx => ?_⟩
  have htexts := hv.items harray .string xs (hunique.resolve_left (not_not_intro hname)) hxs x hx
  rcases htexts with hnull | htext
  · cases x <;> cases hnull
    exact ⟨.null, rfl⟩
  · cases htext with
    | text s => exact ⟨_, rfl⟩
    | textMember enumeration name s => exact ⟨_, rfl⟩

/-- What is neither a record nor a row with items suits a field of its kind, and there is no record inside it. -/
theorem suits_of_no_records {d : Descriptor} {v : Value} (hkind : IsOfKindOrNull d.kind v)
    (hrecord : ∀ name attributes, v ≠ .record name attributes) (hitems : ∀ xs, v.items? = some xs → xs = []) :
    Suits d v ∧ ∀ x, ¬ IsWithin d v x := by
  constructor
  · refine ⟨hkind, fun _ _ xs _ hxs x hx => ?_⟩
    rw [hitems xs hxs] at hx
    cases hx
  · rintro x ⟨⟨model, attributes, rfl⟩, ⟨-, hv⟩ | ⟨-, -, xs, hxs, hx⟩⟩
    · exact hrecord model attributes hv.symm
    · rw [hitems xs hxs] at hx
      cases hx

theorem suits_null (d : Descriptor) : Suits d .null ∧ ∀ x, ¬ IsWithin d .null x :=
  suits_of_no_records (.inl rfl) nofun nofun

/-- Whether a default is nothing, or a text, a number or an empty list where the field has such. -/
def isPlainDefault (kind : Kind) : Value → Bool
  | .null => true
  | .text _ => kind == .string
  | .int _ => kind == .integer
  | .list [] => kind == .array
  | _ => false

theorem suits_of_isPlainDefault {d : Descriptor} {v : Value} (hv : isPlainDefault d.kind v = true) :
    Suits d v ∧ ∀ x, ¬ IsWithin d v x := by
  unfold isPlainDefault at hv
  split at hv
  · exact suits_null d
  · rename_i s
    exact suits_of_no_records (.inr (by rw [eq_of_beq hv]; exact .text s)) nofun nofun
  · rename_i i
    exact suits_of_no_records (.inr (by rw [eq_of_beq hv]; exact .int i)) nofun nofun
  · refine suits_of_no_records (.inr (by rw [eq_of_beq hv]; exact .row rfl)) nofun fun xs hxs => ?_
    exact (Option.some.inj hxs).symm
  · cases hv

/-- Whether a field says what it is, has items of one kind, a plain default if any, and tame rules. -/
def isPlainField (c : Catalogue) (f : Field) : Bool :=
  (c.describeField f).toOption.isSome &&
    (f.type.unwrap.1.element?.all fun item =>
        f.type.unwrap.1.itemTypes.all fun t => c.kindOf t.unwrap.1 == c.kindOf item) &&
      (f.default.all fun d => isPlainDefault (c.descriptorOf f).kind d.get) &&
        (c.descriptorOf f).rules.all (isTame (c.descriptorOf f))

/-- Whether a catalogue without enumerations has models of plain fields with different names. -/
def Catalogue.isPlain (c : Catalogue) : Bool :=
  c.enumerations.isEmpty &&
    c.models.all fun m => decide (m.fields.map Field.name).Nodup && m.fields.all (isPlainField c)

theorem isSound_of_isPlainField {f : Field} (hf : isPlainField c f = true) :
    f.IsSound c ∧ ∀ r ∈ (c.descriptorOf f).rules, isTame (c.descriptorOf f) r = true := by
  simp only [isPlainField, Bool.and_eq_true] at hf
  obtain ⟨⟨⟨hdescribed, huniform⟩, hdefault⟩, hrules⟩ := hf
  refine ⟨⟨?_, ?_, ?_⟩, List.all_eq_true.mp hrules⟩
  · cases hd : c.describeField f with
    | ok d => rw [Catalogue.descriptorOf_eq hd]
    | error e =>
        rw [hd] at hdescribed
        cases hdescribed
  · intro item hitem t ht
    rw [hitem, Option.all_some] at huniform
    exact eq_of_beq (List.all_eq_true.mp huniform t ht)
  · intro d hd
    rw [hd, Option.all_some] at hdefault
    obtain ⟨hsuits, hwithin⟩ := suits_of_isPlainDefault hdefault
    exact ⟨hsuits, fun x hx => absurd hx (hwithin x)⟩

theorem isReliable_of_isPlain (hc : c.isPlain = true) : c.IsReliable := by
  simp only [Catalogue.isPlain, Bool.and_eq_true, List.all_eq_true, decide_eq_true_eq, List.isEmpty_iff] at hc
  obtain ⟨hnone, hmodels⟩ := hc
  refine ⟨⟨?_, ?_, ?_⟩, ?_⟩
  · intro e he
    rw [hnone] at he
    cases he
  · exact fun m hm f hf => (isSound_of_isPlainField ((hmodels m hm).2 f hf)).1
  · exact fun m hm => (hmodels m hm).1
  · intro m hm f hf r hr v hv
    exact isHarmless_of_isTame ((isSound_of_isPlainField ((hmodels m hm).2 f hf)).2 r hr) hv

/-- What is met in a record that is typed suits its field, which is one of a model. -/
theorem suits_of_visits {x v : Value} {d : Descriptor} (hx : IsTyped c x) (hv : Visits c x d v) :
    Suits d v ∧ ∃ m ∈ c.models, ∃ f ∈ m.fields, c.descriptorOf f = d := by
  induction hv with
  | @own name m fields attributes d hm hfields hd =>
      cases hx with
      | record hm' hfields' hsuits _ =>
          obtain rfl := Option.some.inj (hm.symm.trans hm')
          obtain rfl := Except.ok.inj (hfields.symm.trans hfields')
          refine ⟨hsuits d hd, m, List.mem_of_find?_eq_some hm, ?_⟩
          rw [(Catalogue.describe_eq_map hfields).1] at hd
          exact List.mem_map.mp hd
  | within hm hfields hd hy _ ih =>
      cases hx with
      | record hm' hfields' _ hwithin =>
          obtain rfl := Option.some.inj (hm.symm.trans hm')
          obtain rfl := Except.ok.inj (hfields.symm.trans hfields')
          exact ih (hwithin _ hd _ hy)

/-- A typed record of a reliable catalogue is validated. -/
theorem returns_validate_of_isTyped (hc : c.IsReliable) {x : Value} (hx : IsTyped c x) : Returns (validate c x) := by
  apply returns_whole hx
  intro d v hv r hr
  obtain ⟨hsuits, m, hm, f, hf, rfl⟩ := suits_of_visits hx hv
  exact hc.harmless m hm f hf r hr v hsuits

/-- A record of nothing but defaults is typed. -/
theorem isTyped_construct (hc : c.IsSound) {name : String} (hm : c.model? name = some m) :
    IsTyped c (Shape.construct c name []) := by
  have hmem : m ∈ c.models := List.mem_of_find?_eq_some hm
  have hattributes : Shape.construct c name [] = .record m.name
      (m.fields.filterMap fun f => (f.default.map Default.get).map (f.name, ·)) := by
    simp only [Shape.construct, hm, List.lookup_nil, Option.map_map, Function.comp_def]
  have hheld : ∀ f ∈ m.fields, held (m.fields.filterMap fun f => (f.default.map Default.get).map (f.name, ·))
      (c.descriptorOf f) = (f.default.map Default.get).getD .null := by
    intro f hf
    rw [held, Value.attribute?, (Catalogue.names_of_describeField (hc.fields m hmem f hf).described).1,
      lookup_filterMap (hc.names m hmem) hf]
  have hboth : ∀ f ∈ m.fields, Suits (c.descriptorOf f) ((f.default.map Default.get).getD .null) ∧
      ∀ x, IsWithin (c.descriptorOf f) ((f.default.map Default.get).getD .null) x → IsTyped c x := by
    intro f hf
    cases hdefault : f.default with
    | some d => exact (hc.fields m hmem f hf).default d hdefault
    | none => exact ⟨(suits_null _).1, fun x hx => absurd hx ((suits_null _).2 x)⟩
  rw [hattributes]
  refine .record (Catalogue.model?_self hm)
    (Catalogue.describe_of_forall fun f hf => (hc.fields m hmem f hf).described) ?_ ?_
  · intro d hd
    obtain ⟨f, hf, rfl⟩ := List.mem_map.mp hd
    rw [hheld f hf]
    exact (hboth f hf).1
  · intro d hd
    obtain ⟨f, hf, rfl⟩ := List.mem_map.mp hd
    rw [hheld f hf]
    exact (hboth f hf).2

theorem isTyped_of_build (hc : c.IsSound) {name : String} {document x : Value} (hdocument : document.IsData)
    (hx : Shape.build c name document = .ok x) : IsTyped c x := by
  obtain ⟨fit, hfit, rfl⟩ := exists_of_map_eq_ok hx
  exact isTyped_of_fitRecord hc hdocument hfit

end Intake
