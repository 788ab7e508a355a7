import Intake.Proofs.Outcome
import Intake.Proofs.Validation.Verdict
import Mathlib.Data.List.Forall2

/-!
What validating a record reports of one of its fields: the errors of the rules that apply to the field
stand in a row, and each rule reports something exactly if it finds something wrong.
-/

namespace Intake.Validation

variable {c : Catalogue} {m : Model} {d : Descriptor} {path : String} {v : Value}

/-- A rule that finds nothing wrong reports nothing, whatever was noted before. -/
theorem applyRule_of_satisfied {r : Rule} (hname : r.name ≠ "required")
    (hclean : (isUnenforced r || isClean (judge d r v)) = true) (j : Journal) :
    ∃ later, (applyRule c m d path v r).outcome j = (.ok [], later) := by
  rw [applyRule, if_neg (by simpa using hname)]
  split
  · exact ⟨j, rfl⟩
  · rename_i hitems
    split
    · split
      · exact ⟨_, rfl⟩
      · exact ⟨j, rfl⟩
    · rename_i hformat
      have henforced : isUnenforced r = false := by
        simp only [Bool.or_eq_true, not_or, Bool.not_eq_true] at hitems hformat
        simp only [isUnenforced, hitems.1, hformat, Bool.or_self]
      rw [henforced, Bool.false_or] at hclean
      rcases hverdict : judge d r v with (reason | fault) | (_ | message)
      · exact ⟨_, rfl⟩
      · rw [hverdict] at hclean
        cases hclean
      · exact ⟨j, rfl⟩
      · rw [hverdict] at hclean
        cases hclean

/-- A rule that finds something wrong reports one error, or validation cannot go on. -/
theorem applyRule_of_unsatisfied {r : Rule} (hname : r.name ≠ "required") (hvalue : v.isNull = false)
    (hclean : (isUnenforced r || isClean (judge d r v)) = false) (j : Journal) :
    (∃ e, (applyRule c m d path v r).outcome j = (.ok [e], j)) ∨
      ∃ fault, (applyRule c m d path v r).outcome j = (.error fault, j) := by
  rw [Bool.or_eq_false_iff, isUnenforced, Bool.or_eq_false_iff] at hclean
  obtain ⟨⟨hitems, hformat⟩, hclean⟩ := hclean
  rw [applyRule, if_neg (by simpa using hname), hitems, hvalue, hformat]
  rcases hverdict : judge d r v with (reason | fault) | (_ | message)
  · rw [hverdict] at hclean
    cases hclean
  · exact Or.inr ⟨fault, rfl⟩
  · rw [hverdict] at hclean
    cases hclean
  · exact Or.inl ⟨_, rfl⟩

/-- A rule has reported nothing exactly if it finds nothing wrong. -/
theorem report_eq_nil_iff {r : Rule} (hname : r.name ≠ "required") (hvalue : v.isNull = false)
    {errors : List FieldError} {j later : Journal}
    (hreport : (applyRule c m d path v r).outcome j = (.ok errors, later)) :
    errors = [] ↔ (isUnenforced r || isClean (judge d r v)) = true := by
  rcases hclean : isUnenforced r || isClean (judge d r v) with _ | _
  · rcases applyRule_of_unsatisfied hname hvalue hclean j with ⟨e, hfound⟩ | ⟨fault, hfault⟩
    · rw [hfound] at hreport
      cases hreport
      simp
    · rw [hfault] at hreport
      cases hreport
  · obtain ⟨later', hnothing⟩ := applyRule_of_satisfied hname hclean j
    rw [hnothing] at hreport
    cases hreport
    simp

/-- What rules report in a row, each from the journal that it comes to. -/
def Reports (c : Catalogue) (m : Model) (d : Descriptor) (path : String) (v : Value) :
    List Rule → List (List FieldError) → Prop :=
  List.Forall₂ fun r errors =>
    ∃ j later, (applyRule c m d path v r).outcome j = (.ok errors, later)

theorem reports_of_mapM {rules : List Rule} {reports : List (List FieldError)} {j later : Journal}
    (hall : (rules.mapM (applyRule c m d path v)).outcome j = (.ok reports, later)) :
    Reports c m d path v rules reports := by
  induction rules generalizing reports j with
  | nil =>
      cases hall
      exact List.Forall₂.nil
  | cons r rest ih =>
      rw [List.mapM_cons] at hall
      obtain ⟨errors, j₁, hfirst, hall⟩ := Action.of_outcome_bind hall
      obtain ⟨others, j₂, hrest, hall⟩ := Action.of_outcome_bind hall
      cases hall
      exact List.Forall₂.cons ⟨j, j₁, hfirst⟩ (ih hrest)

/-- No rule but that of presence has reported anything exactly if none finds anything wrong. -/
theorem reports_eq_nil_iff (hvalue : v.isNull = false) {rules : List Rule}
    {reports : List (List FieldError)} (hreports : Reports c m d path v rules reports) :
    (∀ report ∈ rules.zip reports, report.1.name ≠ "required" → report.2 = []) ↔
      ∀ r ∈ rules, r.name ≠ "required" → (isUnenforced r || isClean (judge d r v)) = true := by
  rw [Reports] at hreports
  induction hreports with
  | nil => simp
  | cons hfirst hrest ih =>
      obtain ⟨j, later, hreport⟩ := hfirst
      rw [List.zip_cons_cons, List.forall_mem_cons, List.forall_mem_cons, ih]
      apply and_congr_left
      intro _
      exact forall_congr' fun hname => report_eq_nil_iff hname hvalue hreport

/-- The errors of a field that has no items that could be empty are those of its rules. -/
theorem reports_of_fieldErrors
    (hitems : ∀ kind, d.kind = .array → d.elementKind = some kind → kind.isSpecial = false)
    {errors : List FieldError} {j later : Journal}
    (hall : (fieldErrors c m d path v).outcome j = (.ok errors, later)) :
    ∃ reports, errors = reports.flatten ∧ Reports c m d path v d.applicable reports := by
  obtain ⟨rules, j₁, hrules, hall⟩ := Action.of_outcome_bind hall
  obtain ⟨_, j₂, -, happlicable⟩ := Action.of_outcome_bind hrules
  cases happlicable
  obtain ⟨reports, j₃, hreports, hall⟩ := Action.of_outcome_bind hall
  obtain ⟨empties, j₄, hempties, hall⟩ := Action.of_outcome_bind hall
  cases hall
  refine ⟨reports, ?_, reports_of_mapM hreports⟩
  have hnone : emptyItemErrors d path v = .ok [] := by
    rw [emptyItemErrors]
    split
    · rename_i kind hkind helement
      rw [hitems kind hkind helement]
      rfl
    · rfl
  rw [hnone, Action.outcome_liftM] at hempties
  cases hempties
  rw [List.append_nil]

/-- The errors of a field stand in a row among those of its record. -/
theorem split_of_validateFields {base : String} {attributes : List (String × Value)}
    {insides : List (String × Inside)} {before after : List Descriptor} {errors : List FieldError}
    {j later : Journal}
    (hall : (validateFields c m base attributes insides (before ++ d :: after)).outcome j =
      (.ok errors, later)) :
    ∃ own inner first last j₁ j₂ j₃, errors = first ++ (own ++ inner) ++ last ∧
      (fieldErrors c m d (join base d.wireName)
        ((Value.attribute? attributes d.name).getD .null)).outcome j₁ = (.ok own, j₂) ∧
      (insideErrors d (join base d.wireName) ((insides.lookup d.name).getD .nothing)).outcome j₂ =
        (.ok inner, j₃) := by
  induction before generalizing errors j with
  | nil =>
      obtain ⟨own, j₁, hown, hall⟩ := Action.of_outcome_bind hall
      obtain ⟨inner, j₂, hinner, hall⟩ := Action.of_outcome_bind hall
      obtain ⟨others, j₃, -, hall⟩ := Action.of_outcome_bind hall
      cases hall
      exact ⟨own, inner, [], others, j, j₁, j₂, rfl, hown, hinner⟩
  | cons e rest ih =>
      obtain ⟨own, j₁, -, hall⟩ := Action.of_outcome_bind hall
      obtain ⟨inner, j₂, -, hall⟩ := Action.of_outcome_bind hall
      obtain ⟨others, j₃, hothers, hall⟩ := Action.of_outcome_bind hall
      cases hall
      obtain ⟨own', inner', first, last, j₁', j₂', j₃', rfl, hown', hinner'⟩ := ih hothers
      refine ⟨own', inner', own ++ inner ++ first, last, j₁', j₂', j₃', ?_, hown', hinner'⟩
      simp only [List.append_assoc]

/-- What validating a record reports of a field with nothing but single values inside stands in a row
among the errors of the record. -/
theorem reports_of_validateUnder {name : String} (hmodel : c.model? name = some m)
    {before after : List Descriptor} (hfields : c.describe m = .ok (before ++ d :: after))
    (hrecord : d.kind ≠ .record)
    (hitems : ∀ kind, d.kind = .array → d.elementKind = some kind →
      kind.isSpecial = false ∧ kind ≠ .record)
    {attributes : List (String × Value)} (hvalue : Value.attribute? attributes d.name = some v)
    {base : String} {errors : List FieldError} {j later : Journal}
    (hall : (validateUnder c base (.record name attributes)).outcome j = (.ok errors, later)) :
    ∃ first reports last, errors = first ++ reports.flatten ++ last ∧
      Reports c m d (join base d.wireName) v d.applicable reports := by
  simp only [validateUnder, inside, hmodel] at hall
  obtain ⟨fields, j₁, hdescribe, hall⟩ := Action.of_outcome_bind hall
  rw [Action.outcome_liftM, Action.describe, hfields] at hdescribe
  cases hdescribe
  obtain ⟨own, inner, first, last, j₂, j₃, j₄, rfl, hown, hinner⟩ := split_of_validateFields hall
  have hnothing : inner = [] := by
    have hskip : ∀ i : Inside, insideErrors d (join base d.wireName) i = pure [] := by
      intro i
      rw [insideErrors]
      split
      · rename_i hkind
        exact absurd hkind hrecord
      · rename_i hkind helement
        exact absurd rfl (hitems .record hkind helement).2
      · rfl
    rw [hskip, Action.outcome_pure] at hinner
    cases hinner
    rfl
  rw [hvalue] at hown
  obtain ⟨reports, rfl, hreports⟩ :=
    reports_of_fieldErrors (fun kind hkind helement => (hitems kind hkind helement).1) hown
  exact ⟨first, reports, last, by rw [hnothing, List.append_nil], hreports⟩

end Intake.Validation
