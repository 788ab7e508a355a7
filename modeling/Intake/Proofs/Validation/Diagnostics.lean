import Intake.Proofs.Model.Instance
import Intake.Proofs.Validation.Remarks

/-!
Checks and validations in a row. A check goes through all models that its model leads to and tells of every
rule there that does not apply; its rounds are enough for that. In any row of checks and validations every
occasion is noted once at most, and none of them comes to anything else for what was noted before.
-/

namespace Intake

open Action (Tells Reports tells_pure reports_pure reports_forM)

variable {c : Catalogue}

/-- A remark on a model: a rule of one of its fields does not apply. -/
def IsOnModel (c : Catalogue) (name : String) (remark : Remark) : Prop :=
  ∃ m fields, c.model? name = some m ∧ c.describe m = .ok fields ∧ ∃ d ∈ fields, IsMisapplied m d remark

/-- A remark on a model, or on one that its fields lead to. -/
inductive IsOnChecked (c : Catalogue) : String → Remark → Prop where
  | own {name : String} {remark : Remark} (hremark : IsOnModel c name remark) : IsOnChecked c name remark
  | within {name next : String} {m : Model} {fields : List Descriptor} {d : Descriptor} {remark : Remark}
      (hm : c.model? name = some m) (hfields : c.describe m = .ok fields) (hd : d ∈ fields)
      (hnext : d.model = some next) (hremark : IsOnChecked c next remark) : IsOnChecked c name remark

/-! ### Enough rounds -/

/-- The number of fields of the models that were not visited. -/
def fieldsLeft (visited : List String) (models : List Model) : Nat :=
  (models.map fun m => if visited.contains m.name then 0 else m.fields.length).sum

theorem fieldsLeft_cons_le (name : String) (visited : List String) (models : List Model) :
    fieldsLeft (name :: visited) models ≤ fieldsLeft visited models := by
  induction models with
  | nil => exact Nat.le_refl 0
  | cons m rest ih =>
      simp only [fieldsLeft, List.map_cons, List.sum_cons] at ih ⊢
      apply Nat.add_le_add _ ih
      by_cases hvisited : visited.contains m.name = true
      · rw [if_pos (by simp only [List.contains_cons, hvisited, Bool.or_true]), if_pos hvisited]
      · rw [if_neg hvisited]
        split
        · exact Nat.zero_le _
        · exact Nat.le_refl _

/-- Visiting a model takes its fields off those that are left. -/
theorem fieldsLeft_visit {visited : List String} {models : List Model} {m : Model} (hm : m ∈ models)
    (hnew : m.name ∉ visited) :
    fieldsLeft (m.name :: visited) models + m.fields.length ≤ fieldsLeft visited models := by
  induction models with
  | nil => cases hm
  | cons first rest ih =>
      have hrest := fieldsLeft_cons_le m.name visited rest
      simp only [fieldsLeft, List.map_cons, List.sum_cons] at ih hrest ⊢
      rcases List.mem_cons.mp hm with rfl | hm
      · rw [if_pos (by simp), if_neg (by simpa using hnew)]
        omega
      · have hfirst := fieldsLeft_cons_le m.name visited [first]
        simp only [fieldsLeft, List.map_cons, List.map_nil, List.sum_cons, List.sum_nil] at hfirst
        have hleft := ih hm
        omega

theorem fieldsLeft_lt_checkBound (c : Catalogue) : 1 + fieldsLeft [] c.models ≤ c.checkBound := by
  have hfold : ∀ (models : List Model) (bound : Nat), bound + fieldsLeft [] models ≤
      models.foldl (fun bound m => bound + 1 + m.fields.length) bound := by
    intro models
    induction models with
    | nil => exact fun bound => Nat.le_refl bound
    | cons m rest ih =>
        intro bound
        have hrest := ih (bound + 1 + m.fields.length)
        simp only [fieldsLeft, List.map_cons, List.sum_cons, List.foldl_cons] at hrest ⊢
        simp only [List.contains_nil, Bool.false_eq_true, if_false] at hrest ⊢
        omega
  exact hfold c.models 1

/-- A round that visits a model leaves enough rounds: it takes one of the models that wait, and adds at most as many
as the model has fields. -/
theorem enough_of_visit {m : Model} {fields : List Descriptor} {pending visited : List String} {fuel : Nat}
    (hm : c.model? m.name = some m) (hfields : c.describe m = .ok fields) (hnew : m.name ∉ visited)
    (hfuel : pending.length + 1 + fieldsLeft visited c.models ≤ fuel + 1) :
    ((fields.filterMap (·.model)).reverse ++ pending).length + fieldsLeft (m.name :: visited) c.models ≤ fuel := by
  have hvisit := fieldsLeft_visit (List.mem_of_find?_eq_some hm) hnew
  have hlength : fields.length = m.fields.length := (Catalogue.forall₂_of_describe hfields).length_eq.symm
  have hnext := List.length_filterMap_le (fun d : Descriptor => d.model) fields
  simp only [List.length_append, List.length_reverse]
  omega

/-! ### The check of a model -/

/-- Models that a check has dealt with: those that waited are among them, and for each that was not visited
before there is every remark on it, and every model that its fields lead to. -/
structure Covers (c : Catalogue) (remarks : List Remark) (pending visited : List String)
    (covered : String → Prop) : Prop where
  pending : ∀ name ∈ pending, covered name
  told : ∀ name, covered name → name ∉ visited → ∀ remark, IsOnModel c name remark → remark ∈ remarks
  closed : ∀ name, covered name → name ∉ visited → ∀ m fields, c.model? name = some m →
    c.describe m = .ok fields → ∀ d ∈ fields, ∀ next, d.model = some next → covered next

/-- What a check without visited models covers is closed, so it tells of all that its models lead to. -/
theorem Covers.mem_of_isOnChecked {remarks : List Remark} {pending : List String} {covered : String → Prop}
    (hcovers : Covers c remarks pending [] covered) {name : String} {remark : Remark}
    (hremark : IsOnChecked c name remark) (hname : covered name) : remark ∈ remarks := by
  induction hremark with
  | own hremark => exact hcovers.told _ hname (by simp) _ hremark
  | within hm hfields hd hnext _ ih => exact ih (hcovers.closed _ hname (by simp) _ _ hm hfields _ hd _ hnext)

/-- A model that was visited, or is none, is covered as it is. -/
theorem Covers.skip {remarks : List Remark} {name : String} {pending visited : List String} {covered : String → Prop}
    (hcovers : Covers c remarks pending visited covered) (hname : name ∈ visited ∨ c.model? name = none) :
    Covers c remarks (name :: pending) visited fun other => other = name ∨ covered other where
  pending := fun other hother => (List.mem_cons.mp hother).imp id (hcovers.pending other)
  told := by
    rintro other (rfl | hother) hnew remark hremark
    · obtain ⟨m, fields, hm, -⟩ := hremark
      simp [hname.resolve_left hnew] at hm
    · exact hcovers.told other hother hnew remark hremark
  closed := by
    rintro other (rfl | hother) hnew m fields hm hfields d hd next hnext
    · simp [hname.resolve_left hnew] at hm
    · exact .inr (hcovers.closed other hother hnew m fields hm hfields d hd next hnext)

/-- A model of which everything is told is covered when those are that its fields lead to. -/
theorem Covers.visit {first second : List Remark} {name : String} {m : Model} {fields : List Descriptor}
    {pending waiting visited : List String} {covered : String → Prop} (hm : c.model? name = some m)
    (hfields : c.describe m = .ok fields)
    (hwaiting : ∀ other, other ∈ waiting ↔ (∃ d ∈ fields, d.model = some other) ∨ other ∈ pending)
    (hown : ∀ remark, (∃ d ∈ fields, IsMisapplied m d remark) → remark ∈ first)
    (hcovers : Covers c second waiting (name :: visited) covered) :
    Covers c (first ++ second) (name :: pending) visited fun other => other = name ∨ covered other := by
  have hnew : ∀ {other}, other ≠ name → other ∉ visited → other ∉ name :: visited := fun hother hleft =>
    List.not_mem_cons_of_ne_of_not_mem hother hleft
  have hsame : ∀ {m' fields'}, c.model? name = some m' → c.describe m' = .ok fields' → m' = m ∧ fields' = fields := by
    intro m' fields' hm' hfields'
    obtain rfl := Option.some.inj (hm'.symm.trans hm)
    exact ⟨rfl, Except.ok.inj (hfields'.symm.trans hfields)⟩
  constructor
  · exact fun other hother => (List.mem_cons.mp hother).imp id fun hother =>
      hcovers.pending other ((hwaiting other).mpr (.inr hother))
  · intro other hother hleft remark hremark
    by_cases heq : other = name
    · subst heq
      obtain ⟨m', fields', hm', hfields', hremark⟩ := hremark
      obtain ⟨rfl, rfl⟩ := hsame hm' hfields'
      exact List.mem_append_left _ (hown remark hremark)
    · have hlater := hcovers.told other (hother.resolve_left heq) (hnew heq hleft) remark hremark
      exact List.mem_append_right _ hlater
  · intro other hother hleft m' fields' hm' hfields' d hd next hnext
    by_cases heq : other = name
    · subst heq
      obtain ⟨rfl, rfl⟩ := hsame hm' hfields'
      exact .inr (hcovers.pending next ((hwaiting next).mpr (.inl ⟨d, hd, hnext⟩)))
    · have hcovered := hother.resolve_left heq
      exact .inr (hcovers.closed other hcovered (hnew heq hleft) m' fields' hm' hfields' d hd next hnext)

/-- A check of the models that wait: it tells only of what they lead to, and if it comes to an end it has
covered them. -/
def Checks (c : Catalogue) (a : Action (List String)) (pending visited : List String) : Prop :=
  ∃ remarks result, Tells a remarks result ∧
    (∀ remark ∈ remarks, ∃ name ∈ pending, IsOnChecked c name remark) ∧
    ∀ texts, result = .ok texts → ∃ covered, Covers c remarks pending visited covered

theorem checks_nothing (c : Catalogue) (visited : List String) : Checks c (pure []) [] visited := by
  refine ⟨[], .ok [], tells_pure [], by simp, fun _ _ => ⟨fun _ => False, ?_⟩⟩
  exact ⟨by simp, fun _ hnone => hnone.elim, fun _ hnone => hnone.elim⟩

/-- A model that was visited, or is none, needs nothing. -/
theorem Checks.skip {a : Action (List String)} {name : String} {pending visited : List String}
    (ha : Checks c a pending visited) (hname : name ∈ visited ∨ c.model? name = none) :
    Checks c a (name :: pending) visited := by
  obtain ⟨remarks, result, htells, hsound, hcovers⟩ := ha
  refine ⟨remarks, result, htells, fun remark hremark => ?_, fun texts hok => ?_⟩
  · obtain ⟨other, hother, hon⟩ := hsound remark hremark
    exact ⟨other, List.mem_cons_of_mem _ hother, hon⟩
  · obtain ⟨covered, hcovered⟩ := hcovers texts hok
    exact ⟨_, hcovered.skip hname⟩

/-- A model that is visited is covered together with those that its fields lead to. -/
theorem Checks.visit {a : Action (List String)} {name : String} {m : Model} {fields : List Descriptor}
    {pending waiting visited : List String} (hm : c.model? name = some m) (hfields : c.describe m = .ok fields)
    (hwaiting : ∀ other, other ∈ waiting ↔ (∃ d ∈ fields, d.model = some other) ∨ other ∈ pending)
    (ha : Checks c a waiting (name :: visited)) (found : List String) :
    Checks c (do
      fields.forM (noteMisapplied m)
      return found ++ (← a)) (name :: pending) visited := by
  obtain ⟨first, result, hfirst, hsound, hall⟩ := reports_forM fun d (_ : d ∈ fields) => reports_noteMisapplied m d
  have hown : ∀ remark ∈ first, ∃ other ∈ name :: pending, IsOnChecked c other remark := fun remark hremark =>
    ⟨name, List.mem_cons_self, .own ⟨m, fields, hm, hfields, hsound remark hremark⟩⟩
  rcases result with fault | done
  · exact ⟨first, .error fault, hfirst.bind_error _, hown, by simp⟩
  obtain ⟨second, result, hsecond, hsound', hcovers⟩ := ha
  have hrest := hsecond.bind_pure (found ++ ·)
  refine ⟨first ++ second, _, hfirst.bind (f := fun _ => a >>= fun texts => pure (found ++ texts)) hrest, ?_, ?_⟩
  · intro remark hremark
    rcases List.mem_append.mp hremark with hremark | hremark
    · exact hown remark hremark
    · obtain ⟨other, hother, hon⟩ := hsound' remark hremark
      rcases (hwaiting other).mp hother with ⟨d, hd, hnext⟩ | hother
      · exact ⟨name, List.mem_cons_self, .within hm hfields hd hnext hon⟩
      · exact ⟨other, List.mem_cons_of_mem name hother, hon⟩
  · intro texts hok
    obtain ⟨texts', hok', -⟩ := exists_of_map_eq_ok hok
    obtain ⟨covered, hcovered⟩ := hcovers texts' hok'
    exact ⟨_, hcovered.visit hm hfields hwaiting (hall done rfl)⟩

/-- A check covers the models that wait if there are enough rounds: every round takes one of them, and a
model that is visited takes its fields off those that are left. -/
theorem checks_checkPending (fuel : Nat) (pending visited : List String)
    (hfuel : pending.length + fieldsLeft visited c.models ≤ fuel) :
    Checks c (checkPending c fuel pending visited) pending visited := by
  induction fuel generalizing pending visited with
  | zero =>
      obtain rfl : pending = [] := List.length_eq_zero_iff.mp (by omega)
      exact checks_nothing c visited
  | succ fuel ih =>
      rcases pending with _ | ⟨name, pending⟩
      · exact checks_nothing c visited
      rw [List.length_cons] at hfuel
      rw [checkPending]
      by_cases hvisited : visited.contains name = true
      · rw [if_pos hvisited]
        exact (ih pending visited (by omega)).skip (Or.inl (List.contains_iff_mem.mp hvisited))
      rw [if_neg hvisited]
      cases hm : c.model? name with
      | none => exact (ih pending visited (by omega)).skip (Or.inr hm)
      | some m =>
          cases hdescribe : Action.describe c m with
          | error fault =>
              simp only [hdescribe]
              exact ⟨[], .error fault, fun _ => rfl, by simp, by simp⟩
          | ok fields =>
              have hfields := Action.of_describe_eq_ok hdescribe
              obtain rfl := Catalogue.name_of_model? hm
              have hnew : m.name ∉ visited := by simpa using hvisited
              simp only [hdescribe]
              exact (ih _ _ (enough_of_visit hm hfields hnew hfuel)).visit hm hfields (by simp) _

/-- A check tells of every remark on its model and those that its fields lead to, and of nothing else. -/
theorem reports_checkModel (c : Catalogue) (name : String) : Reports (checkModel c name) (IsOnChecked c name) := by
  obtain ⟨remarks, result, htells, hsound, hcovers⟩ :=
    checks_checkPending c.checkBound [name] [] (fieldsLeft_lt_checkBound c)
  refine ⟨remarks, result, htells, fun remark hremark => ?_, fun texts hok remark hremark => ?_⟩
  · obtain ⟨other, hother, hon⟩ := hsound remark hremark
    rwa [List.mem_singleton.mp hother] at hon
  · obtain ⟨covered, hcovered⟩ := hcovers texts hok
    exact hcovered.mem_of_isOnChecked hremark (hcovered.pending name List.mem_cons_self)

/-! ### Calls in a row -/

/-- A call that may note something: a record is validated, or a model is checked, among the models that there
are at the time. -/
inductive Call where
  | validate (c : Catalogue) (v : Value)
  | check (c : Catalogue) (model : String)

/-- What a call returns. -/
inductive Answer where
  | errors (found : List FieldError)
  | diagnostics (texts : List String)

namespace Call

def run : Call → Action Answer
  | .validate c v => do return .errors (← Validation.validate c v)
  | .check c model => do return .diagnostics (← checkModel c model)

/-- The remarks that there are to make in a call. -/
def Meets : Call → Remark → Prop
  | .validate c v => Validation.IsOnRecord c v
  | .check c model => IsOnChecked c model

/-- What a call comes to, and what it notes, if nothing was noted before. -/
def alone (call : Call) : Except Fault Answer × Journal := call.run.outcome Journal.empty

theorem reports_run (call : Call) : Reports call.run call.Meets := by
  cases call with
  | validate c v => exact (Validation.reports_validate v).bind_pure fun _ => reports_pure _
  | check c model => exact (reports_checkModel c model).bind_pure fun _ => reports_pure _

end Call

/-- The calls of a row one after another. One that fails is over, and the journal is kept. -/
def runCalls : List Call → Journal → List (Except Fault Answer) × Journal
  | [], j => ([], j)
  | call :: rest, j =>
    let (result, later) := call.run.outcome j
    let (results, last) := runCalls rest later
    (result :: results, last)

/-- The remarks of a row of calls are those of its calls. -/
theorem exists_remarks (calls : List Call) :
    ∃ remarks : List Remark,
      (∀ j, runCalls calls j = (calls.map fun call => call.alone.1, remarks.foldl Journal.take j)) ∧
      (∀ o, (∃ remark ∈ remarks, remark.occasion = o) ↔ ∃ call ∈ calls, o ∈ call.alone.2.seen) ∧
      ∀ remark ∈ remarks, ∃ call ∈ calls, call.Meets remark := by
  induction calls with
  | nil => exact ⟨[], fun _ => rfl, by simp, by simp⟩
  | cons call rest ih =>
      obtain ⟨first, result, htells, hsound, -⟩ := call.reports_run
      obtain ⟨remarks, hruns, hnoted, hmet⟩ := ih
      have halone : call.alone = (result, first.foldl Journal.take Journal.empty) := htells Journal.empty
      have hseen : ∀ o, o ∈ call.alone.2.seen ↔ ∃ remark ∈ first, remark.occasion = o := by
        intro o
        rw [halone, Journal.foldl_take]
        simp [Journal.empty, Journal.occasion_mem_unseen_iff, ← List.mem_map]
      refine ⟨first ++ remarks, ?_, ?_, ?_⟩
      · intro j
        rw [runCalls, htells j]
        simp only [hruns, List.map_cons, halone, List.foldl_append]
      · intro o
        simp only [List.mem_append, or_and_right, exists_or, hnoted, List.exists_mem_cons_iff, hseen]
      · intro remark hremark
        rcases List.mem_append.mp hremark with hremark | hremark
        · exact ⟨call, List.mem_cons_self, hsound remark hremark⟩
        · obtain ⟨other, hother, hmeets⟩ := hmet remark hremark
          exact ⟨other, List.mem_cons_of_mem call hother, hmeets⟩

/-- In a row of validations and checks, from any journal, every call comes to what it comes to if nothing was
noted before, and the journal gains one notice for each new occasion: none for one that was noted before, none
twice, and one for each other that some call notes by itself. What a call notes are remarks that there are to
make in it, and a call that does not fail notes all of those. -/
theorem runCalls_notes_once (calls : List Call) (j : Journal) :
    ∃ fresh : List Remark,
      runCalls calls j = (calls.map fun call => call.alone.1,
        ⟨j.notices ++ fresh.map Remark.notice, j.seen ++ fresh.map Remark.occasion⟩) ∧
      (fresh.map Remark.occasion).Nodup ∧
      (∀ o, o ∈ fresh.map Remark.occasion ↔ o ∉ j.seen ∧ ∃ call ∈ calls, o ∈ call.alone.2.seen) ∧
      (∀ remark ∈ fresh, ∃ call ∈ calls, call.Meets remark) ∧
      ∀ call ∈ calls, (∃ answer, call.alone.1 = .ok answer) → ∀ remark, call.Meets remark →
        remark.occasion ∈ call.alone.2.seen := by
  obtain ⟨remarks, hruns, hnoted, hmet⟩ := exists_remarks calls
  refine ⟨Journal.unseen j.seen remarks, ?_, Journal.nodup_unseen j.seen remarks, ?_, ?_, ?_⟩
  · rw [hruns, Journal.foldl_take]
  · intro o
    rw [Journal.occasion_mem_unseen_iff, hnoted]
  · exact fun remark hremark => hmet remark (Journal.mem_unseen hremark).1
  · rintro call - ⟨answer, hanswer⟩ remark hremark
    obtain ⟨own, result, htells, -, hall⟩ := call.reports_run
    have halone : call.alone = (result, own.foldl Journal.take Journal.empty) := htells Journal.empty
    rw [halone] at hanswer ⊢
    rw [Journal.foldl_take]
    apply List.mem_append_right
    exact Journal.occasion_mem_unseen_iff.mpr
      ⟨List.not_mem_nil, remark, hall answer hanswer remark hremark, rfl⟩

/-- A catalogue of a model with a rule that does not apply and one whose argument is no number. -/
def gaugeCatalogue : Catalogue :=
  ⟨[plainModel "Gauge" [ruledField "label" .str "min=1", ruledField "level" .int "max=high"]], []⟩

def gaugeRecord : Value := .record "Gauge" [("label", .text ""), ("level", .int 5)]

/-- The check of the gauge comes to an end, so it notes every remark that there is to make on it. -/
theorem runCalls_notes_once_gauge :
    (∃ answer, (Call.check gaugeCatalogue "Gauge").alone.1 = .ok answer) ∧
      ∀ remark, IsOnChecked gaugeCatalogue "Gauge" remark →
        remark.occasion ∈ (Call.check gaugeCatalogue "Gauge").alone.2.seen := by
  have hends : ∃ answer, (Call.check gaugeCatalogue "Gauge").alone.1 = .ok answer := ⟨_, rfl⟩
  obtain ⟨_, -, -, -, -, hnoted⟩ :=
    runCalls_notes_once [.check gaugeCatalogue "Gauge", .validate gaugeCatalogue gaugeRecord] Journal.empty
  exact ⟨hends, hnoted _ List.mem_cons_self hends⟩

example :
    ((runCalls [.check gaugeCatalogue "Gauge", .validate gaugeCatalogue gaugeRecord,
      .validate gaugeCatalogue gaugeRecord] Journal.empty).2.seen.map fun o => (o.field, o.event)) =
    [("label", "validation_rule_misapplied"), ("level", "validation_rule_arg_invalid")] := by decide +kernel

end Intake
