import Intake.Proofs.Markup.Documented
import Intake.Proofs.Validation.Diagnostics

/-!
What a check goes through. It visits each model to which its model connects once, however they connect back
to each other, and tells of every rule there that does not apply. A record whose records are of the models that its
fields name has none of these rules left to note.
-/

namespace Intake

open Markup (HasDeclaredModels modelOf)
open Validation (IsOnRecord returns_forM returns_noteMisapplied)

variable {c : Catalogue}

/-- A field of a model names another model: its records are of that, or the first of its items are. -/
def Names (c : Catalogue) (name next : String) : Prop :=
  ∃ m fields, c.model? name = some m ∧ c.describe m = .ok fields ∧ ∃ d ∈ fields, d.model = some next

/-- A model connects to itself, and to what the models name to which it connects. -/
def ConnectsTo (c : Catalogue) : String → String → Prop := Relation.ReflTransGen (Names c)

/-- A model whose fields say nothing, for the reason that is given. -/
def IsIllegible (c : Catalogue) (name : String) (e : UnknownSource) : Prop :=
  ∃ m, c.model? name = some m ∧ c.describe m = .error e

/-- A model of a catalogue with what its fields say. -/
structure Described (c : Catalogue) where
  model : Model
  fields : List Descriptor
  hmodel : c.model? model.name = some model
  hfields : c.describe model = .ok fields

namespace Described

def name (x : Described c) : String := x.model.name

/-- What there is to say about the rules of a model: a line for each that does not apply, field by field. -/
def texts (x : Described c) : List String := x.fields.flatMap (mismatchTexts x.model)

theorem eq_of_name_eq {x y : Described c} (hname : x.name = y.name) : x = y := by
  obtain ⟨m, fields, hm, hfields⟩ := x
  obtain ⟨m', fields', hm', hfields'⟩ := y
  have hname : m.name = m'.name := hname
  rw [hname, hm'] at hm
  obtain rfl := Option.some.inj hm
  obtain rfl := Except.ok.inj (hfields.symm.trans hfields')
  rfl

/-- A model names what the fields of its description do. -/
theorem names_iff (x : Described c) (next : String) : Names c x.name next ↔ ∃ d ∈ x.fields, d.model = some next := by
  constructor
  · rintro ⟨m, fields, hm, hfields, hnext⟩
    obtain rfl := Option.some.inj (x.hmodel.symm.trans hm)
    obtain rfl := Except.ok.inj (x.hfields.symm.trans hfields)
    exact hnext
  · exact fun hnext => ⟨x.model, x.fields, x.hmodel, x.hfields, hnext⟩

end Described

/-! ### Tours -/

/-- Notes the rules that do not apply in some models, one after another, and tells of them. -/
def checkEach : List (Described c) → Action (List String)
  | [] => return []
  | x :: rest => do
    x.fields.forM (noteMisapplied x.model)
    return x.texts ++ (← checkEach rest)

/-- Going through models comes to what there is to say about each. -/
theorem ends_checkEach (visits : List (Described c)) :
    Action.Ends (· = visits.flatMap Described.texts) (checkEach visits) := by
  induction visits with
  | nil => exact Action.ends_pure rfl
  | cons x rest ih =>
      have hnotes : Action.Ends (fun _ => True) (x.fields.forM (noteMisapplied x.model)) := by
        intro j
        obtain ⟨v, later, hv⟩ := returns_forM (fun d (_ : d ∈ x.fields) => returns_noteMisapplied x.model d) j
        exact ⟨v, later, hv, trivial⟩
      refine hnotes.bind fun _ _ => ih.bind fun texts htexts => Action.ends_pure ?_
      rw [htexts, List.flatMap_cons]

/-- The models that a check visits while some wait and others were visited before. None is visited twice, and
each is one to which a model that waits connects. What waits, and what a visited model names, is visited, unless it
was so before or is no model. -/
structure Tour (c : Catalogue) (visits : List (Described c)) (pending visited : List String) : Prop where
  nodup : (visits.map Described.name).Nodup
  fresh : ∀ x ∈ visits, x.name ∉ visited
  led : ∀ x ∈ visits, ∃ name ∈ pending, ConnectsTo c name x.name
  pending : ∀ name ∈ pending, name ∈ visited ∨ c.model? name = none ∨ ∃ x ∈ visits, x.name = name
  closed : ∀ x ∈ visits, ∀ next, Names c x.name next →
    next ∈ visited ∨ c.model? next = none ∨ ∃ y ∈ visits, y.name = next

theorem Tour.nothing (visited : List String) : Tour c [] [] visited :=
  ⟨List.nodup_nil, by simp, by simp, by simp, by simp⟩

/-- A model that was visited, or is none, adds no visit. -/
theorem Tour.skip {visits : List (Described c)} {name : String} {pending visited : List String}
    (htour : Tour c visits pending visited) (hname : name ∈ visited ∨ c.model? name = none) :
    Tour c visits (name :: pending) visited where
  nodup := htour.nodup
  fresh := htour.fresh
  led x hx := by
    obtain ⟨other, hother, hconnects⟩ := htour.led x hx
    exact ⟨other, List.mem_cons_of_mem name hother, hconnects⟩
  pending other hother := by
    rcases List.mem_cons.mp hother with rfl | hother
    · exact hname.imp_right Or.inl
    · exact htour.pending other hother
  closed := htour.closed

/-- A model that is visited comes before the visits of those that it names. -/
theorem Tour.visit {x : Described c} {visits : List (Described c)} {pending waiting visited : List String}
    (hnew : x.name ∉ visited) (hwaiting : ∀ other, other ∈ waiting ↔ Names c x.name other ∨ other ∈ pending)
    (htour : Tour c visits waiting (x.name :: visited)) : Tour c (x :: visits) (x.name :: pending) visited := by
  have hthere : ∀ other, (other ∈ x.name :: visited ∨ c.model? other = none ∨ ∃ y ∈ visits, y.name = other) →
      other ∈ visited ∨ c.model? other = none ∨ ∃ y ∈ x :: visits, y.name = other := by
    rintro other (hother | hnone | ⟨y, hy, hname⟩)
    · rcases List.mem_cons.mp hother with rfl | hother
      · exact .inr (.inr ⟨x, List.mem_cons_self, rfl⟩)
      · exact .inl hother
    · exact .inr (.inl hnone)
    · exact .inr (.inr ⟨y, List.mem_cons_of_mem x hy, hname⟩)
  constructor
  · refine List.nodup_cons.mpr ⟨fun hmem => ?_, htour.nodup⟩
    obtain ⟨y, hy, hname⟩ := List.mem_map.mp hmem
    exact htour.fresh y hy (hname ▸ List.mem_cons_self)
  · intro y hy
    rcases List.mem_cons.mp hy with rfl | hy
    · exact hnew
    · exact fun hmem => htour.fresh y hy (List.mem_cons_of_mem _ hmem)
  · intro y hy
    rcases List.mem_cons.mp hy with rfl | hy
    · exact ⟨y.name, List.mem_cons_self, .refl⟩
    obtain ⟨other, hother, hconnects⟩ := htour.led y hy
    rcases (hwaiting other).mp hother with hnames | hother
    · exact ⟨x.name, List.mem_cons_self, .head hnames hconnects⟩
    · exact ⟨other, List.mem_cons_of_mem _ hother, hconnects⟩
  · intro other hother
    rcases List.mem_cons.mp hother with rfl | hother
    · exact hthere _ (.inl List.mem_cons_self)
    · exact hthere other (htour.pending other ((hwaiting other).mpr (.inr hother)))
  · intro y hy next hnames
    rcases List.mem_cons.mp hy with rfl | hy
    · exact hthere next (htour.pending next ((hwaiting next).mpr (.inl hnames)))
    · exact hthere next (htour.closed y hy next hnames)

/-- What a check without visited models visits is closed: every model to which its models connect is among it. -/
theorem Tour.exists_mem_of_connectsTo {visits : List (Described c)} {pending : List String}
    (htour : Tour c visits pending []) {name next : String} (hname : name ∈ pending)
    (hconnects : ConnectsTo c name next) : c.model? next = none ∨ ∃ x ∈ visits, x.name = next := by
  induction hconnects with
  | refl => exact (htour.pending name hname).resolve_left List.not_mem_nil
  | tail _ hnames ih =>
      rcases ih with hnone | ⟨x, hx, rfl⟩
      · obtain ⟨m, -, hm, -⟩ := hnames
        rw [hnone] at hm
        cases hm
      · exact (htour.closed x hx _ hnames).resolve_left List.not_mem_nil

/-! ### The rounds of a check -/

/-- An operation that fails for a reason, whatever was noted before. -/
def FailsWith (fault : Fault) (a : Action (List String)) : Prop := ∀ j, ∃ later, a.outcome j = (.error fault, later)

theorem FailsWith.bind {α : Type} {fault : Fault} {first : Action α} {rest : α → Action (List String)}
    (hfirst : Validation.Returns first) (hrest : ∀ v, FailsWith fault (rest v)) : FailsWith fault (first >>= rest) := by
  intro j
  obtain ⟨v, middle, hv⟩ := hfirst j
  obtain ⟨later, hlater⟩ := hrest v middle
  exact ⟨later, by rw [Action.outcome_bind, hv, ← hlater]⟩

theorem FailsWith.bind_pure {fault : Fault} {a : Action (List String)} (ha : FailsWith fault a)
    (f : List String → List String) : FailsWith fault (a >>= fun texts => pure (f texts)) := by
  intro j
  obtain ⟨later, hlater⟩ := ha j
  exact ⟨later, by rw [Action.outcome_bind, hlater]⟩

/-- How a check of the models that wait goes: it fails with an illegible model to which one of them connects, or
goes through their visits. -/
inductive Goes (c : Catalogue) (pending visited : List String) (a : Action (List String)) : Prop where
  | fails {name next : String} {e : UnknownSource} (hname : name ∈ pending) (hconnects : ConnectsTo c name next)
    (hnext : IsIllegible c next e) (ha : FailsWith (.unknownSource e) a)
  | through {visits : List (Described c)} (htour : Tour c visits pending visited) (ha : a = checkEach visits)

variable {a : Action (List String)} {pending visited : List String}

/-- Nothing is done about a model that was visited, or is none. -/
theorem Goes.skip {name : String} (hgoes : Goes c pending visited a) (hname : name ∈ visited ∨ c.model? name = none) :
    Goes c (name :: pending) visited a := by
  cases hgoes with
  | fails hother hconnects hnext ha => exact .fails (List.mem_cons_of_mem name hother) hconnects hnext ha
  | through htour ha => exact .through (htour.skip hname) ha

/-- Any other model that is legible is visited before the rest. -/
theorem Goes.visit {x : Described c} {waiting : List String} (hgoes : Goes c waiting (x.name :: visited) a)
    (hnew : x.name ∉ visited) (hwaiting : ∀ other, other ∈ waiting ↔ Names c x.name other ∨ other ∈ pending) :
    Goes c (x.name :: pending) visited do
      x.fields.forM (noteMisapplied x.model)
      return x.texts ++ (← a) := by
  cases hgoes with
  | @fails other next e hother hconnects hnext ha =>
      have hfails := FailsWith.bind (returns_forM fun d (_ : d ∈ x.fields) => returns_noteMisapplied x.model d)
        fun _ => ha.bind_pure (x.texts ++ ·)
      rcases (hwaiting other).mp hother with hnames | hother
      · exact .fails List.mem_cons_self (.head hnames hconnects) hnext hfails
      · exact .fails (List.mem_cons_of_mem _ hother) hconnects hnext hfails
  | through htour ha => exact .through (htour.visit hnew hwaiting) (by rw [ha, checkEach])

theorem checkPending_nil (c : Catalogue) (fuel : Nat) (visited : List String) :
    checkPending c fuel [] visited = pure [] := by
  cases fuel <;> rfl

/-- What holds after a first round, if enough are left, holds of one round more. -/
theorem forall_of_round {p : Nat → Prop} {enough : Nat} (hp : ∀ fuel, enough ≤ fuel → p (fuel + 1)) :
    ∀ fuel, enough + 1 ≤ fuel → p fuel
  | 0, hfuel => absurd hfuel (Nat.not_succ_le_zero enough)
  | fuel + 1, hfuel => hp fuel (Nat.le_of_succ_le_succ hfuel)

/-- There are enough rounds if there is one for every model that waits and every field that is left: each round
takes one model, and a model that is visited takes its fields off those that are left. -/
theorem exists_goes (enough : Nat) (pending visited : List String)
    (henough : pending.length + fieldsLeft visited c.models ≤ enough) :
    ∃ a, (∀ fuel, enough ≤ fuel → checkPending c fuel pending visited = a) ∧ Goes c pending visited a := by
  induction enough generalizing pending visited with
  | zero =>
      obtain rfl : pending = [] := List.length_eq_zero_iff.mp (by omega)
      exact ⟨pure [], fun fuel _ => checkPending_nil c fuel visited, .through (.nothing visited) rfl⟩
  | succ enough ih =>
      rcases pending with _ | ⟨name, pending⟩
      · exact ⟨pure [], fun fuel _ => checkPending_nil c fuel visited, .through (.nothing visited) rfl⟩
      rw [List.length_cons] at henough
      by_cases hvisited : visited.contains name = true
      · obtain ⟨a, ha, hgoes⟩ := ih pending visited (by omega)
        refine ⟨a, forall_of_round fun fuel hfuel => ?_, hgoes.skip (.inl (List.contains_iff_mem.mp hvisited))⟩
        rw [checkPending, if_pos hvisited, ha fuel hfuel]
      cases hm : c.model? name with
      | none =>
          obtain ⟨a, ha, hgoes⟩ := ih pending visited (by omega)
          refine ⟨a, forall_of_round fun fuel hfuel => ?_, hgoes.skip (.inr hm)⟩
          rw [checkPending, if_neg hvisited, hm, ha fuel hfuel]
      | some m =>
          cases hdescribe : c.describe m with
          | error e =>
              have hfails : FailsWith (.unknownSource e) (throw (.unknownSource e)) := fun j => ⟨j, rfl⟩
              refine ⟨_, forall_of_round fun fuel _ => ?_, .fails List.mem_cons_self .refl ⟨m, hm, hdescribe⟩ hfails⟩
              simp only [checkPending, if_neg hvisited, hm, Action.describe, hdescribe]
              rfl
          | ok fields =>
              obtain rfl := Catalogue.name_of_model? hm
              have hnew : m.name ∉ visited := by simpa using hvisited
              let x : Described c := ⟨m, fields, hm, hdescribe⟩
              obtain ⟨a, ha, hgoes⟩ := ih _ _ (enough_of_visit hm hdescribe hnew henough)
              refine ⟨_, forall_of_round fun fuel hfuel => ?_, Goes.visit (x := x) hgoes hnew fun other => ?_⟩
              · rw [← ha fuel hfuel]
                simp only [checkPending, if_neg hvisited, hm, Action.describe_eq_ok hdescribe]
                rfl
              · rw [List.mem_append, List.mem_reverse, List.mem_filterMap, x.names_iff]

/-! ### After a check -/

/-- What there is to remark on a record about a rule that does not apply is told by the check of its model, if the
records inside it are of the models that its fields name. -/
theorem isOnChecked_of_isOnRecord {v : Value} {remark : Remark} (hremark : IsOnRecord c v remark)
    (hmodels : HasDeclaredModels c v) (hevent : remark.notice.event = "validation_rule_misapplied") :
    IsOnChecked c (modelOf v) remark := by
  induction hremark with
  | own hm hfields hd hremark =>
      rcases hremark with hremark | ⟨r, -, hmet⟩
      · exact .own ⟨_, _, hm, hfields, _, hd, hremark⟩
      · cases hmet <;> simp [remarkOn] at hevent
  | within hm hfields hd hx _ ih =>
      obtain ⟨hnamed, hinside⟩ := hmodels
      exact .within hm hfields hd (hnamed _ _ _ _ hm hfields hd hx) (ih (hinside _ _ _ _ hm hfields hd hx) hevent)

/-- A check that comes to an end has noted the occasions of all remarks that there are to make in it. -/
theorem occasion_mem_of_checkModel {name : String} {j later : Journal} {texts : List String}
    (hcheck : (checkModel c name).outcome j = (.ok texts, later)) {remark : Remark}
    (hremark : IsOnChecked c name remark) : remark.occasion ∈ later.seen := by
  obtain ⟨remarks, result, htells, -, hall⟩ := reports_checkModel c name
  rw [htells j] at hcheck
  obtain ⟨rfl, rfl⟩ := Prod.mk.inj hcheck
  rw [Journal.foldl_take, List.mem_append, Journal.occasion_mem_unseen_iff]
  by_cases hseen : remark.occasion ∈ j.seen
  · exact .inl hseen
  · exact .inr ⟨hseen, remark, hall texts rfl remark hremark, rfl⟩

/-- Validation after a check notes no rule that does not apply. -/
theorem validate_after_checkModel {name : String} {j later between : Journal} {texts : List String} {v : Value}
    (hcheck : (checkModel c name).outcome j = (.ok texts, later)) (hv : modelOf v = name)
    (hmodels : HasDeclaredModels c v) (hseen : later.seen ⊆ between.seen) :
    ∃ result fresh seen, (Validation.validate c v).outcome between = (result, ⟨between.notices ++ fresh, seen⟩) ∧
      ∀ n ∈ fresh, n.event ≠ "validation_rule_misapplied" := by
  obtain ⟨remarks, result, htells, hsound, -⟩ := Validation.reports_validate (c := c) v
  refine ⟨result, (Journal.unseen between.seen remarks).map Remark.notice,
    between.seen ++ (Journal.unseen between.seen remarks).map Remark.occasion, ?_, fun n hn hevent => ?_⟩
  · rw [htells between, Journal.foldl_take]
  obtain ⟨remark, hremark, rfl⟩ := List.mem_map.mp hn
  obtain ⟨hmem, hnew⟩ := Journal.mem_unseen hremark
  have hchecked := isOnChecked_of_isOnRecord (hsound remark hmem) hmodels hevent
  rw [hv] at hchecked
  exact hnew (hseen (occasion_mem_of_checkModel hcheck hchecked))

/-- The check of a model comes to an end, however models connect back to each other: with any number of rounds from
its bound on it does the same. Either it fails, with an illegible model to which its model connects; or it visits
every model to which that connects, once, and tells of every rule of their fields that does not apply, once for
each time that the field has it. After that, whatever else was noted, validating a record of the model notes no
rule that does not apply, if the records inside it are of the models that its fields name. -/
theorem checkModel_visits_once (c : Catalogue) (name : String) :
    (∀ fuel, c.checkBound ≤ fuel → checkPending c fuel [name] [] = checkModel c name) ∧
      ((∃ next e, ConnectsTo c name next ∧ IsIllegible c next e ∧
          ∀ j, ∃ later, (checkModel c name).outcome j = (.error (.unknownSource e), later)) ∨
        ∃ visits : List (Described c),
          (visits.map Described.name).Nodup ∧
          (∀ x : Described c, x ∈ visits ↔ ConnectsTo c name x.name) ∧
          (∀ next m, ConnectsTo c name next → c.model? next = some m → ∃ x ∈ visits, x.model = m) ∧
          checkModel c name = checkEach visits ∧
          ∀ j, ∃ later, (checkModel c name).outcome j =
              (.ok (visits.flatMap fun x => x.fields.flatMap (mismatchTexts x.model)), later) ∧
            ∀ v, modelOf v = name → HasDeclaredModels c v → ∀ between, later.seen ⊆ between.seen →
              ∃ result fresh seen, (Validation.validate c v).outcome between =
                  (result, ⟨between.notices ++ fresh, seen⟩) ∧
                ∀ n ∈ fresh, n.event ≠ "validation_rule_misapplied") := by
  obtain ⟨a, ha, hgoes⟩ := exists_goes c.checkBound [name] [] (fieldsLeft_lt_checkBound c)
  have hcheck : checkModel c name = a := ha c.checkBound (Nat.le_refl _)
  refine ⟨fun fuel hfuel => (ha fuel hfuel).trans hcheck.symm, ?_⟩
  rw [hcheck]
  cases hgoes with
  | fails hmem hconnects hnext hfails =>
      obtain rfl := List.mem_singleton.mp hmem
      exact .inl ⟨_, _, hconnects, hnext, hfails⟩
  | @through visits htour heach =>
      have hthere : ∀ x : Described c, ConnectsTo c name x.name → x ∈ visits := by
        intro x hconnects
        have hsome : c.model? x.name ≠ none := fun hnone => by cases hnone.symm.trans x.hmodel
        obtain ⟨y, hy, hname⟩ := (htour.exists_mem_of_connectsTo List.mem_cons_self hconnects).resolve_left hsome
        rwa [← Described.eq_of_name_eq hname]
      refine .inr ⟨visits, htour.nodup, fun x => ⟨fun hx => ?_, hthere x⟩, fun next m hconnects hm => ?_, heach,
        fun j => ?_⟩
      · obtain ⟨other, hother, hconnects⟩ := htour.led x hx
        rwa [List.mem_singleton.mp hother] at hconnects
      · have hsome : c.model? next ≠ none := by simp [hm]
        obtain ⟨x, hx, rfl⟩ := (htour.exists_mem_of_connectsTo List.mem_cons_self hconnects).resolve_left hsome
        exact ⟨x, hx, Option.some.inj (x.hmodel.symm.trans hm)⟩
      · obtain ⟨texts, later, houtcome, rfl⟩ := ends_checkEach visits j
        rw [← heach] at houtcome
        refine ⟨later, houtcome, fun v hv hmodels between hseen => ?_⟩
        exact validate_after_checkModel (hcheck ▸ houtcome) hv hmodels hseen

/-! ### Questions and answers -/

/-- Questions and answers connect back to each other, and a rule of each does not apply. -/
def answerCatalogue : Catalogue :=
  ⟨[plainModel "Question" [ruledField "text" .str "min=1", plainField "answer" (.union [.record "Answer", .null])],
    plainModel "Answer" [ruledField "text" .str "bold",
      plainField "question" (.union [.record "Question", .null])]], []⟩

/-- A question with an answer that is a question. -/
def question : Value :=
  .record "Question" [("text", .text "how"), ("answer", .record "Answer" [("text", .text ""),
    ("question", .record "Question" [("text", .text "why"), ("answer", .null)])])]

/-- Whether a field holds no records, or one of a model under a name. -/
def holdsOnly (place next : String) (d : Descriptor) : Bool :=
  d.elementKind != some .record && (d.kind != .record || (d.name == place && d.model == some next))

/-- A record with one field for records holds them as they are declared if that field does. -/
theorem hasDeclaredModels_of_holdsOnly (place next : String) {name : String} {attributes : List (String × Value)}
    (hall : ((c.model? name).map fun m => (c.describe m).toOption.map (List.all · (holdsOnly place next))) =
      some (some true))
    (hheld : ∀ other inner, attributes.lookup place = some (.record other inner) →
      other = next ∧ HasDeclaredModels c (.record other inner)) : HasDeclaredModels c (.record name attributes) := by
  have hwithin : ∀ m fields d y, c.model? name = some m → c.describe m = .ok fields → d ∈ fields →
      Validation.IsWithin d (Validation.held attributes d) y → d.model = some (modelOf y) ∧ HasDeclaredModels c y := by
    rintro m fields d y hm hfields hd ⟨⟨other, inner, rfl⟩, hy⟩
    have honly := Markup.forall_of_all_described hall hm hfields d hd
    simp only [holdsOnly, Bool.and_eq_true, bne_iff_ne, Bool.or_eq_true, beq_iff_eq] at honly
    obtain ⟨helement, hrecord⟩ := honly
    rcases hy with ⟨hkind, hy⟩ | ⟨-, harray, -⟩
    · obtain ⟨hplace, hmodel⟩ := hrecord.resolve_left (not_not_intro hkind)
      have hlookup : attributes.lookup place = some (.record other inner) := by
        rw [Validation.held, Value.attribute?, hplace] at hy
        cases hlookup : attributes.lookup place <;> rw [hlookup] at hy <;> cases hy
        rfl
      obtain ⟨rfl, hinner⟩ := hheld other inner hlookup
      exact ⟨hmodel, hinner⟩
    · exact absurd harray helement
  exact .record (fun m fields d y hm hfields hd hy => (hwithin m fields d y hm hfields hd hy).1)
    fun m fields d y hm hfields hd hy => (hwithin m fields d y hm hfields hd hy).2

/-- The question holds records as they are declared. -/
theorem hasDeclaredModels_question : HasDeclaredModels answerCatalogue question := by
  refine hasDeclaredModels_of_holdsOnly "answer" "Answer" (by decide +kernel) ?_
  rintro other inner ⟨⟩
  refine ⟨rfl, hasDeclaredModels_of_holdsOnly "question" "Question" (by decide +kernel) ?_⟩
  rintro other inner ⟨⟩
  refine ⟨rfl, hasDeclaredModels_of_holdsOnly "answer" "Answer" (by decide +kernel) ?_⟩
  rintro other inner ⟨⟩

/-- The check of questions tells of the rule of questions and that of answers; validating a question after it notes
neither. -/
theorem checkModel_visits_once_questions :
    ∃ later, (checkModel answerCatalogue "Question").outcome Journal.empty =
        (.ok ["Question.text: validation rule 'min' can only be applied to integer or float types, but field is string",
          "Answer.text: unknown validation rule 'bold'"], later) ∧
      modelOf question = "Question" ∧ HasDeclaredModels answerCatalogue question ∧
      ∀ between, later.seen ⊆ between.seen → ∃ result fresh seen,
        (Validation.validate answerCatalogue question).outcome between =
            (result, ⟨between.notices ++ fresh, seen⟩) ∧
          ∀ n ∈ fresh, n.event ≠ "validation_rule_misapplied" := by
  have htexts : ((checkModel answerCatalogue "Question").outcome Journal.empty).1 =
      .ok ["Question.text: validation rule 'min' can only be applied to integer or float types, but field is string",
        "Answer.text: unknown validation rule 'bold'"] := by decide +kernel
  obtain ⟨-, ⟨next, e, -, -, hfails⟩ | ⟨visits, -, -, -, -, htour⟩⟩ :=
    checkModel_visits_once answerCatalogue "Question"
  · obtain ⟨later, hlater⟩ := hfails Journal.empty
    rw [hlater] at htexts
    cases htexts
  · obtain ⟨later, hlater, hafter⟩ := htour Journal.empty
    rw [hlater] at htexts
    rw [Except.ok.inj htexts] at hlater
    exact ⟨later, hlater, rfl, hasDeclaredModels_question, hafter question rfl hasDeclaredModels_question⟩

/-! ### A pair of records -/

/-- A couple has a pair, of a record of one model and a record of another, in which a rule does not apply. -/
def coupleCatalogue : Catalogue :=
  ⟨[plainModel "Couple" [plainField "pair" (.tuple [.record "Left", .record "Right"])],
    plainModel "Left" [plainField "a" .int], plainModel "Right" [ruledField "b" .int "minlength=3"]], []⟩

def coupleDocument : Value :=
  .dict [(.text "pair", .list [.dict [(.text "a", .int 1)], .dict [(.text "b", .int 2)]])]

def couple : Value :=
  .record "Couple" [("pair", .tuple [.record "Left" [("a", .int 1)], .record "Right" [("b", .int 2)]])]

/-- What was noted when couples were checked. -/
def coupleJournal : Journal := ((checkModel coupleCatalogue "Couple").outcome Journal.empty).2

/-- The check follows a pair to the model of its first item only: it finds nothing, and after it validating a couple,
as it was built from a document, notes a rule of the second that does not apply. -/
theorem checkModel_misses_second_of_pair :
    ((checkModel coupleCatalogue "Couple").outcome Journal.empty).1 = .ok [] ∧
      Shape.build coupleCatalogue "Couple" coupleDocument = .ok couple ∧
      ((Validation.validate coupleCatalogue couple).outcome coupleJournal).1 = .ok [] ∧
      ((Validation.validate coupleCatalogue couple).outcome coupleJournal).2.notices.map Notice.event =
        ["validation_rule_misapplied"] :=
  ⟨by decide +kernel, by with_unfolding_all rfl, by decide +kernel, by decide +kernel⟩

end Intake
