import Intake.Proofs.Model.MadeOf
import Intake.Proofs.Remark
import Intake.Proofs.Validation.Return

/-!
What validation remarks. There is a remark for a rule that does not apply to its field, for a format that is
not enforced, and for an argument that cannot be read; validation tells of those that there are in a record and
in the records inside it, and of nothing else.
-/

namespace Intake

open Action (Reports reports_pure reports_none reports_liftM reports_of_fault reports_mapM reports_forM)

/-- The remark of an event for a rule of a field. -/
def remarkOn (m : Model) (d : Descriptor) (r : Rule) (level : Level) (event : String)
    (details : List (String × Value)) : Remark :=
  ⟨occasion m d r event,
    ⟨level, event, ("model", .text m.name) :: ("field", .text d.name) :: ("rule", .text r.text) :: details⟩⟩

theorem reports_noteOnce (m : Model) (d : Descriptor) (r : Rule) (level : Level) (event : String)
    (details : List (String × Value)) :
    Reports (noteOnce m d r level event details) fun remark => remark = remarkOn m d r level event details :=
  ⟨[remarkOn m d r level event details], .ok (), fun _ => rfl, by simp, by simp⟩

/-- A remark that a rule of a field does not apply to it. -/
def IsMisapplied (m : Model) (d : Descriptor) (remark : Remark) : Prop :=
  ∃ r ∈ d.rules, ∃ mismatch, d.mismatch? r = some mismatch ∧
    remark = remarkOn m d r .warning "validation_rule_misapplied" [("diagnostic", .text mismatch.message)]

theorem reports_noteMisapplied (m : Model) (d : Descriptor) : Reports (noteMisapplied m d) (IsMisapplied m d) := by
  apply reports_forM
  intro r _
  cases hmismatch : d.mismatch? r with
  | none => exact reports_none () (by simp)
  | some mismatch => exact (reports_noteOnce m d r _ _ _).congr fun remark => by simp

namespace Validation

variable {c : Catalogue} {m : Model} {d : Descriptor} {v : Value}

/-- Whether a rule is judged on values: it is no rule about absence, and no format but that of addresses. -/
def IsJudged (r : Rule) : Prop :=
  r.name ≠ "required" ∧ r.name ≠ emptyItemsRule ∧ (r.name = "format" → r.arg = some "email")

/-- A remark that a rule of a field, which applies, is not enforced or cannot be read. -/
inductive IsMet (m : Model) (d : Descriptor) (v : Value) (r : Rule) : Remark → Prop where
  | unenforced (hv : v.isNull = false) (hname : r.name = "format") (harg : r.arg ≠ some "email")
      (htext : d.kind = .string ∨ d.elementKind = some .string) :
      IsMet m d v r (remarkOn m d r .debug "format_not_enforced" [("format", (r.arg.map Value.text).getD .null)])
  | unreadable {reason : String} (hv : v.isNull = false) (hr : IsJudged r)
      (hreason : judge d r v = .error (.argument reason)) :
      IsMet m d v r (remarkOn m d r .warning "validation_rule_arg_invalid" [("reason", .text reason)])

/-- A remark on a field that holds a value. -/
def IsOnField (m : Model) (d : Descriptor) (v : Value) (remark : Remark) : Prop :=
  IsMisapplied m d remark ∨ ∃ r ∈ d.applicable, IsMet m d v r remark

/-- A remark on a record: on one of its fields, or on a record inside it. -/
inductive IsOnRecord (c : Catalogue) : Value → Remark → Prop where
  | own {name : String} {m : Model} {fields : List Descriptor} {attributes : List (String × Value)} {d : Descriptor}
      {remark : Remark} (hm : c.model? name = some m) (hfields : c.describe m = .ok fields) (hd : d ∈ fields)
      (hremark : IsOnField m d (held attributes d) remark) : IsOnRecord c (.record name attributes) remark
  | within {name : String} {m : Model} {fields : List Descriptor} {attributes : List (String × Value)}
      {d : Descriptor} {x : Value} {remark : Remark} (hm : c.model? name = some m)
      (hfields : c.describe m = .ok fields) (hd : d ∈ fields) (hx : IsWithin d (held attributes d) x)
      (hremark : IsOnRecord c x remark) : IsOnRecord c (.record name attributes) remark

/-! ### Fields -/

/-- There is nothing to remark on a rule about absence, or without a value. -/
theorem IsMet.judges {r : Rule} {remark : Remark} (hmet : IsMet m d v r remark) :
    v.isNull = false ∧ r.name ≠ "required" ∧ r.name ≠ emptyItemsRule := by
  rcases hmet with ⟨hv, hname, -, -⟩ | ⟨hv, hr, -⟩
  · exact ⟨hv, by simp [hname], by simp [hname, emptyItemsRule]⟩
  · exact ⟨hv, hr.1, hr.2.1⟩

/-- On a format that is not judged there is to remark that it is not enforced, where there are texts. -/
theorem isMet_iff_of_format {r : Rule} {remark : Remark} (hv : v.isNull = false) (hname : r.name = "format")
    (harg : r.arg ≠ some "email") : IsMet m d v r remark ↔ (d.kind = .string ∨ d.elementKind = some .string) ∧
      remark = remarkOn m d r .debug "format_not_enforced" [("format", (r.arg.map Value.text).getD .null)] := by
  constructor
  · rintro (⟨-, -, -, htext⟩ | ⟨-, hr, -⟩)
    · exact ⟨htext, rfl⟩
    · exact absurd (hr.2.2 hname) harg
  · rintro ⟨htext, rfl⟩
    exact .unenforced hv hname harg htext

/-- On a rule that is judged there is to remark that its argument cannot be read. -/
theorem isMet_iff_of_judged {r : Rule} {remark : Remark} (hv : v.isNull = false) (hr : IsJudged r) :
    IsMet m d v r remark ↔ ∃ reason, judge d r v = .error (.argument reason) ∧
      remark = remarkOn m d r .warning "validation_rule_arg_invalid" [("reason", .text reason)] := by
  constructor
  · rintro (⟨-, hname, harg, -⟩ | ⟨-, -, hreason⟩)
    · exact absurd (hr.2.2 hname) harg
    · exact ⟨_, hreason, rfl⟩
  · rintro ⟨reason, hreason, rfl⟩
    exact .unreadable hv hr hreason

/-- What remarks on a rule and has no error to tell. -/
theorem reports_noted (m : Model) (d : Descriptor) (r : Rule) (level : Level) (event : String)
    (details : List (String × Value)) :
    Reports (do
      noteOnce m d r level event details
      return ([] : List FieldError)) fun remark => remark = remarkOn m d r level event details :=
  (reports_noteOnce m d r level event details).bind_pure fun _ => reports_pure _

theorem reports_applyRule (path : String) (r : Rule) : Reports (applyRule c m d path v r) (IsMet m d v r) := by
  unfold applyRule
  split
  · rename_i hrequired
    have hnone : ∀ remark, False ↔ IsMet m d v r remark := fun remark =>
      ⟨False.elim, fun hmet => hmet.judges.2.1 (eq_of_beq hrequired)⟩
    refine Reports.congr ((reports_liftM _).bind_pure fun zero => ?_) hnone
    split <;> exact reports_pure _
  rename_i hrequired
  split
  · rename_i hskipped
    refine reports_none _ fun remark hmet => ?_
    obtain ⟨hv, -, hempty⟩ := hmet.judges
    simp [hv, hempty] at hskipped
  rename_i hskipped
  obtain ⟨hempty, hv⟩ : r.name ≠ emptyItemsRule ∧ v.isNull = false := by simpa using hskipped
  split
  · rename_i hformat
    obtain ⟨hname, harg⟩ : r.name = "format" ∧ r.arg ≠ some "email" := by simpa using hformat
    split
    · rename_i htext
      refine (reports_noted m d r _ _ _).congr fun remark => ?_
      rw [isMet_iff_of_format hv hname harg, and_iff_right (by simpa using htext)]
    · rename_i htext
      refine reports_none _ fun remark hmet => htext ?_
      simpa using ((isMet_iff_of_format hv hname harg).mp hmet).1
  rename_i hformat
  have hr : IsJudged r := ⟨by simpa using hrequired, hempty, by simpa using hformat⟩
  split
  · rename_i hjudge
    exact reports_none _ fun remark hmet => by simp [isMet_iff_of_judged hv hr, hjudge] at hmet
  · rename_i hjudge
    exact reports_none _ fun remark hmet => by simp [isMet_iff_of_judged hv hr, hjudge] at hmet
  · rename_i reason hjudge
    refine (reports_noted m d r _ _ _).congr fun remark => ?_
    simp [isMet_iff_of_judged hv hr, hjudge]
  · rename_i fault hjudge
    exact reports_of_fault _ fault (fun _ => rfl) _

theorem reports_fieldErrors (path : String) : Reports (fieldErrors c m d path v) (IsOnField m d v) := by
  simp only [fieldErrors, applicableRules, bind_assoc, pure_bind]
  refine (reports_noteMisapplied m d).bind fun _ => ?_
  refine (reports_mapM fun r _ => reports_applyRule path r).bind_pure fun errors => ?_
  exact (reports_liftM _).bind_pure fun empty => reports_pure _

/-! ### Records -/

/-- A remark on one of some values. -/
def IsOnItem (c : Catalogue) (xs : List Value) (remark : Remark) : Prop := ∃ x ∈ xs, IsOnRecord c x remark

/-- What is inside a value reports what there is to remark about it, and about its items. -/
structure Inside.Reports (c : Catalogue) (v : Value) (i : Inside) : Prop where
  whole : ∀ path, Action.Reports (i.whole path) (IsOnRecord c v)
  items : ∀ path, Action.Reports (i.items path) fun remark => ∃ xs, v.items? = some xs ∧ IsOnItem c xs remark

theorem reports_insideErrors {i : Inside} (hinside : i.Reports c v) (d : Descriptor) (path : String) :
    Reports (insideErrors d path i) fun remark => ∃ x, IsWithin d v x ∧ IsOnRecord c x remark := by
  have hrecord : ∀ {x remark}, IsOnRecord c x remark → ∃ name attributes, x = .record name attributes := by
    rintro x remark (_ | _) <;> exact ⟨_, _, rfl⟩
  unfold insideErrors
  split
  · rename_i hkind
    refine (hinside.whole path).congr fun remark => ⟨?_, ?_⟩
    · exact fun hremark => ⟨v, ⟨hrecord hremark, Or.inl ⟨hkind, rfl⟩⟩, hremark⟩
    · rintro ⟨x, ⟨-, ⟨-, rfl⟩ | ⟨harray, -⟩⟩, hremark⟩
      · exact hremark
      · rw [hkind] at harray
        cases harray
  · rename_i harray helement
    refine (hinside.items path).congr fun remark => ⟨?_, ?_⟩
    · rintro ⟨xs, hxs, x, hx, hremark⟩
      exact ⟨x, ⟨hrecord hremark, Or.inr ⟨harray, helement, xs, hxs, hx⟩⟩, hremark⟩
    · rintro ⟨x, ⟨-, ⟨hkind, -⟩ | ⟨-, -, xs, hxs, hx⟩⟩, hremark⟩
      · rw [hkind] at harray
        cases harray
      · exact ⟨xs, hxs, x, hx, hremark⟩
  · rename_i hother hrow
    refine reports_none _ fun remark => ?_
    rintro ⟨x, ⟨-, ⟨hkind, -⟩ | ⟨harray, helement, -⟩⟩, -⟩
    · exact hother hkind
    · exact hrow harray helement

theorem reports_validateFields {attributes : List (String × Value)} {insides : List (String × Inside)}
    (hinsides : ∀ d : Descriptor, ((insides.lookup d.name).getD .nothing).Reports c (held attributes d)) (base : String)
    (fields : List Descriptor) :
    Reports (validateFields c m base attributes insides fields) fun remark => ∃ d ∈ fields,
      IsOnField m d (held attributes d) remark ∨ ∃ x, IsWithin d (held attributes d) x ∧ IsOnRecord c x remark := by
  induction fields with
  | nil => exact reports_none _ (by simp)
  | cons d rest ih =>
      have hrest : ∀ own inner, Reports (do
          return own ++ inner ++ (← validateFields c m base attributes insides rest) : Action (List FieldError)) _ :=
        fun own inner => ih.bind_pure fun later => reports_pure _
      have hfield := reports_fieldErrors (c := c) (m := m) (d := d) (v := held attributes d) (join base d.wireName)
      have hinner := reports_insideErrors (hinsides d) d (join base d.wireName)
      exact (hfield.bind fun own => hinner.bind (hrest own)).congr fun remark => by simp [or_assoc]

/-- There is nothing to remark about a value that is no record. -/
theorem not_isOnRecord_of_not_record (hv : ∀ name attributes, v ≠ .record name attributes) (remark : Remark) :
    ¬IsOnRecord c v remark := by
  rintro (_ | _) <;> exact hv _ _ rfl

theorem Inside.reports_nothing : Inside.nothing.Reports c .null := by
  constructor
  · intro path
    refine reports_none _ (not_isOnRecord_of_not_record ?_)
    rintro name attributes ⟨⟩
  · intro path
    refine reports_none _ fun remark => ?_
    rintro ⟨xs, ⟨⟩, -⟩

/-- What has no items is asked for them in vain. -/
theorem Inside.reports_ofOther (hv : ∀ name attributes, v ≠ .record name attributes) (hitems : v.items? = none) :
    (Inside.ofOther v).Reports c v := by
  constructor
  · exact fun path => reports_none _ (not_isOnRecord_of_not_record hv)
  · intro path
    have hnone : ∀ remark, ¬∃ xs, v.items? = some xs ∧ IsOnItem c xs remark := by simp [hitems]
    unfold Inside.ofOther
    dsimp only
    split
    · exact reports_none _ hnone
    · change Action.Reports (((fun _ => ()) <$> (liftM (itemsOf v) : Action (List Value))) >>= fun _ => pure []) _
      rw [map_eq_pure_bind]
      have hasked := (reports_liftM (itemsOf v)).bind_pure fun _ => reports_pure ()
      exact (hasked.bind_pure fun _ => reports_pure []).congr fun remark => ⟨False.elim, hnone remark⟩

theorem reports_insideEach {attributes : List (String × Value)}
    (hattributes : ∀ a ∈ attributes, (inside c a.2).Reports c a.2) (d : Descriptor) :
    (((insideEach c attributes).lookup d.name).getD .nothing).Reports c (held attributes d) := by
  induction attributes with
  | nil => exact Inside.reports_nothing
  | cons a rest ih =>
      obtain ⟨ha, hrest⟩ := List.forall_mem_cons.mp hattributes
      rw [insideEach, held, Value.attribute?, List.lookup_cons, List.lookup_cons]
      cases d.name == a.1 with
      | true => exact ha
      | false => exact ih hrest

theorem reports_insideItems {xs : List Value} (hxs : ∀ x ∈ xs, (inside c x).Reports c x) (i : Nat) (path : String) :
    Reports (insideItems c i xs path) (IsOnItem c xs) := by
  induction xs generalizing i with
  | nil => exact reports_none _ (by simp [IsOnItem])
  | cons x rest ih =>
      obtain ⟨hx, hrest⟩ := List.forall_mem_cons.mp hxs
      rw [insideItems]
      have hlater : ∀ first, Reports (do
          return first ++ (← insideItems c (i + 1) rest path) : Action (List FieldError)) (IsOnItem c rest) :=
        fun first => (ih hrest (i + 1)).bind_pure fun later => reports_pure _
      exact ((hx.whole _).bind hlater).congr fun remark => by simp [IsOnItem]

/-- What there is to remark on a record is on a field of its model or inside one. -/
theorem isOnRecord_iff {name : String} {fields : List Descriptor} (hm : c.model? name = some m)
    (hfields : c.describe m = .ok fields) {attributes : List (String × Value)} {remark : Remark} :
    IsOnRecord c (.record name attributes) remark ↔ ∃ d ∈ fields,
      IsOnField m d (held attributes d) remark ∨ ∃ x, IsWithin d (held attributes d) x ∧ IsOnRecord c x remark := by
  constructor
  · rintro (⟨hm', hfields', hd, hremark⟩ | ⟨hm', hfields', hd, hx, hremark⟩)
    · obtain rfl := Option.some.inj (hm.symm.trans hm')
      obtain rfl := Except.ok.inj (hfields.symm.trans hfields')
      exact ⟨_, hd, Or.inl hremark⟩
    · obtain rfl := Option.some.inj (hm.symm.trans hm')
      obtain rfl := Except.ok.inj (hfields.symm.trans hfields')
      exact ⟨_, hd, Or.inr ⟨_, hx, hremark⟩⟩
  · rintro ⟨d, hd, hremark | ⟨x, hx, hremark⟩⟩
    · exact .own hm hfields hd hremark
    · exact .within hm hfields hd hx hremark

/-- Validating a record tells of what there is to remark on it if that holds of the values of its fields. -/
theorem reports_inside_record {name : String} {attributes : List (String × Value)}
    (hattributes : ∀ a ∈ attributes, (inside c a.2).Reports c a.2) :
    (inside c (.record name attributes)).Reports c (.record name attributes) := by
  constructor
  · intro path
    rw [inside]
    dsimp only
    cases hm : c.model? name with
    | none =>
        refine reports_none _ fun remark => ?_
        rintro (⟨hm', -⟩ | ⟨hm', -⟩) <;> simp [hm] at hm'
    | some m =>
        cases hdescribe : Action.describe c m with
        | error fault => exact reports_of_fault _ fault (fun _ => by simp only [hdescribe]; rfl) _
        | ok fields =>
            have hfields := Action.of_describe_eq_ok hdescribe
            simp only [hdescribe]
            exact (reports_validateFields (reports_insideEach hattributes) path fields).congr fun remark =>
              (isOnRecord_iff hm hfields).symm
  · refine fun path => reports_none _ fun remark => ?_
    rintro ⟨xs, ⟨⟩, -⟩

/-- Validating what is inside a value tells of what there is to remark there. -/
theorem reports_inside (v : Value) : (inside c v).Reports c v := by
  induction v using Value.madeOf_induction with
  | step v hinside =>
      cases v with
      | record name attributes => exact reports_inside_record fun a ha => hinside a.2 (Value.mem_madeOf_record ha)
      | list xs | tuple xs | set frozen xs =>
          refine ⟨fun path => reports_none _ (not_isOnRecord_of_not_record nofun), fun path => ?_⟩
          exact (reports_insideItems hinside 0 path).congr fun remark => by simp [Value.items?, Value.madeOf]
      | _ => exact Inside.reports_ofOther nofun rfl

/-- Validating a record tells of what there is to remark on it, and of all that if it comes to its errors. -/
theorem reports_validate (v : Value) : Reports (validate c v) (IsOnRecord c v) := (reports_inside v).whole ""

end Validation
end Intake
