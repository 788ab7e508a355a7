import Intake.Proofs.Model.Unwrapping
import Intake.Proofs.Schema.Filling

/-!
A frozen registry. Whatever is asked of it afterwards, in whatever order, it stays as it is: what writes
is refused, and deriving a schema comes to an end without a write exactly where the record that the type
leads to has its component already.
-/

namespace Intake

namespace Registering

variable {α β : Type} {r : Registry}

/-- Whether an operation comes to a result and leaves a registry as it is, whatever was noted before. -/
def Answers (a : Registering α) (r : Registry) (x : Except Fault α) : Prop :=
  ∀ j, ∃ later, a.outcome r j = ((x, r), later)

theorem Answers.pure (v : α) : Answers (Pure.pure v) r (.ok v) := fun j => ⟨j, rfl⟩

theorem Answers.liftM (x : Except Fault α) : Answers (liftM x) r x := fun j => ⟨j, rfl⟩

theorem Answers.ofAction {a : Action α} {x : Except Fault α} (ha : ∀ j, (a.outcome j).1 = x) :
    Answers (ofAction a) r x := by
  intro j
  refine ⟨(a.outcome j).2, ?_⟩
  rw [outcome_ofAction, ha]

theorem Answers.bind {a : Registering α} {f : α → Registering β} {x : Except Fault α}
    {y : α → Except Fault β} (ha : Answers a r x) (hf : ∀ v, Answers (f v) r (y v)) :
    Answers (a >>= f) r (x.bind y) := by
  intro j
  obtain ⟨later, ha⟩ := ha j
  rw [outcome_bind, ha]
  cases x with
  | error fault => exact ⟨later, rfl⟩
  | ok v => exact hf v later

theorem Answers.map {a : Registering α} {x : Except Fault α} (ha : Answers a r x) (change : α → β) :
    Answers (a >>= fun v => Pure.pure (change v)) r (x.map change) := by
  have hboth := ha.bind fun v => Answers.pure (change v)
  cases x <;> exact hboth

/-- An answer to which a second one is added comes to nothing if either fails. -/
theorem Answers.and_then {γ δ : Type} {a : Registering β} {b : Registering γ} {x : Except Fault α}
    {y : Except Fault γ} {first : α → β} (ha : Answers a r (x.map first)) (hb : Answers b r y)
    (both : β → γ → δ) :
    Answers (a >>= fun v => b >>= fun w => Pure.pure (both v w)) r
      (x.bind fun v => y.map (both (first v))) := by
  have hboth := ha.bind fun v => hb.map (both v)
  cases x <;> exact hboth

/-- Asking for the registry first is going on from the one that is there. -/
theorem Answers.get_bind {f : Registry → Registering α} {x : Except Fault α} (hf : Answers (f r) r x) :
    Answers (get >>= f) r x := hf

/-- Whether an operation leaves a registry as it is, even if it fails. -/
def Leaves (a : Registering α) (r : Registry) : Prop := ∀ j, (a.outcome r j).1.2 = r

theorem Answers.leaves {a : Registering α} {x : Except Fault α} (ha : Answers a r x) : Leaves a r := by
  intro j
  obtain ⟨later, ha⟩ := ha j
  rw [ha]

theorem Leaves.bind {a : Registering α} {f : α → Registering β} (ha : Leaves a r)
    (hf : ∀ v, Leaves (f v) r) : Leaves (a >>= f) r := by
  intro j
  have hfirst := ha j
  rw [outcome_bind]
  rcases hout : a.outcome r j with ⟨⟨fault | v, next⟩, later⟩
  · rw [hout] at hfirst
    exact hfirst
  · rw [hout] at hfirst
    subst hfirst
    exact hf v later

theorem Leaves.discard {a : Registering α} (ha : Leaves a r) : Leaves (Functor.discard a) r := by
  change Leaves ((fun _ => ()) <$> a) r
  rw [map_eq_pure_bind]
  exact ha.bind fun _ => (Answers.pure ()).leaves

/-- Nothing can be put into a frozen registry. -/
theorem outcome_put_of_frozen (hfrozen : r.frozen = true) (name : String) (s : Schema) (j : Journal) :
    (put name s).outcome r j = ((.error (.frozenRegistry name), r), j) := by
  have hget : (get : Registering Registry).outcome r j = ((.ok r, r), j) := rfl
  rw [put, outcome_bind, hget]
  dsimp only
  rw [outcome_bind, outcome_liftM, Registry.insert?_of_frozen name s hfrozen]

end Registering

namespace Schema

open Registering (Answers Leaves)

variable {c : Catalogue} {dialect : Dialect} {r : Registry}

/-- What a frozen registry has for a model: the reference to its component, which has to be there. -/
def present (c : Catalogue) (dialect : Dialect) (r : Registry) (name : String) : Except Fault Schema :=
  match c.model? name with
  | none => .ok anything
  | some m =>
    if r.contains (dialect.componentName m) then .ok (component (dialect.componentName m))
    else .error (.frozenRegistry (dialect.componentName m))

/-- Deriving the component of a model writes nothing before it takes the name, and that is refused. -/
theorem answers_component? (hfrozen : r.frozen = true) (fuel : Nat) (root : Option String) (name : String) :
    Answers (component? c dialect (fuel + 1) root name) r (present c dialect r name) := by
  simp only [component?, present]
  cases c.model? name with
  | none => exact Answers.pure _
  | some m =>
      apply Answers.get_bind
      dsimp only
      by_cases hthere : r.contains (dialect.componentName m) = true
      · rw [if_pos hthere, if_pos hthere]
        exact Answers.pure _
      · rw [if_neg hthere, if_neg hthere]
        intro j
        have hreserve : (Functor.discard (Registering.reserve (dialect.componentName m))).outcome r j =
            ((.error (.frozenRegistry (dialect.componentName m)), r), j) := by
          change ((fun _ => ()) <$> Registering.reserve _).outcome r j = _
          rw [map_eq_pure_bind, Registering.outcome_bind, Registering.outcome_reserve_of_frozen hfrozen]
        exact ⟨j, by rw [Registering.outcome_bind, hreserve]⟩

/-- The schema of the model that a type leads to, where `at?` tells it of every model. -/
def leading (at? : String → Except Fault Schema) (name : Option String) : Except Fault Schema :=
  match name with
  | none => .ok anything
  | some name => at? name

/-- What asks for one record at most is answered by what is told of that, and then only adds to the answer. -/
theorem AsksFor.exists_answers {name : Option String}
    {derivation : (String → Registering Schema) → Registering Schema} (h : AsksFor name derivation)
    {record : String → Registering Schema} {at? : String → Except Fault Schema}
    (hrecord : ∀ name, Answers (record name) r (at? name)) :
    ∃ change, Answers (derivation record) r ((leading at? name).map change) := by
  obtain ⟨change, -, hchange⟩ := h
  rw [hchange]
  refine ⟨change, Answers.map ?_ change⟩
  cases name with
  | none => exact Answers.pure anything
  | some name => exact hrecord name

theorem exists_answers_derive (hfrozen : r.frozen = true) (root : Option String) (t : Ty)
    (rules : List Rule) :
    ∃ change, Answers (derive c (ofRecord c dialect root) t rules) r
      ((leading (present c dialect r) t.leadsTo?).map change) :=
  (asksFor_derive c t rules).exists_answers (answers_component? hfrozen c.models.length root)

/-- The example of a list of records of a model in documents of elements, if the model accepts one. -/
def listExample (c : Catalogue) (model wrapper : String) : Except Fault (Option String) := do
  match ← Mock.record? c model with
  | .ok v => return some (← Markup.encodeAll c [v] wrapper true)
  | .error _ => return none

/-- Why something comes to no value, if it comes to none. -/
def faultOf? {α : Type} : Except Fault α → Option Fault
  | .ok _ => none
  | .error fault => some fault

/-- Why the example that goes with the schema of a type in documents of elements cannot be made. That of
a record is made with its component. -/
def exampleFault? (c : Catalogue) (t : Ty) (root : Option String) : Option Fault :=
  let inner := t.unwrap.1
  match c.kindOf inner with
  | .record => none
  | .array =>
    match inner.element?.bind Ty.recordName? with
    | some model => faultOf? (listExample c model (wrapperOf root inner.element?))
    | none => none
  | _ => faultOf? (Mock.ofType c inner)

/-- The component that a type leads to, if it is not there. -/
def missingName? (c : Catalogue) (dialect : Dialect) (r : Registry) (t : Ty) : Option String :=
  match t.leadsTo?.bind c.model? with
  | some m => if r.contains (dialect.componentName m) then none else some (dialect.componentName m)
  | none => none

/-- Whether deriving a schema comes to what it has to: the name that is missing is refused, then the
example may fail, and otherwise there is a schema. -/
def IsDerived (missing : Option String) (example? : Option Fault) (x : Except Fault Schema) : Prop :=
  match missing, example? with
  | some name, _ => x = .error (.frozenRegistry name)
  | none, some fault => x = .error fault
  | none, none => ∃ s, x = .ok s

theorem isDerived_bind {α : Type} (c : Catalogue) (dialect : Dialect) (r : Registry) (t : Ty)
    (sample : Except Fault α) (change : Schema → α → Schema) :
    IsDerived (missingName? c dialect r t) (faultOf? sample)
      ((leading (present c dialect r) t.leadsTo?).bind fun s => sample.map (change s)) := by
  have hsample : ∀ s, IsDerived none (faultOf? sample) (sample.map (change s)) := by
    intro s
    cases sample with
    | error fault => rfl
    | ok v => exact ⟨_, rfl⟩
  rw [missingName?]
  cases t.leadsTo? with
  | none => exact hsample anything
  | some name =>
      rw [Option.bind_some, leading, present]
      cases c.model? name with
      | none => exact hsample anything
      | some m =>
          dsimp only
          by_cases hthere : r.contains (dialect.componentName m) = true
          · rw [if_pos hthere, if_pos hthere]
            exact hsample _
          · rw [if_neg hthere, if_neg hthere]
            rfl

theorem outcome_written? (c : Catalogue) (model wrapper : String) (j : Journal) :
    ((Mock.written? c model fun v => Markup.encodeAll c [v] wrapper true).outcome j).1 =
      listExample c model wrapper := by
  rw [Mock.written?, Action.outcome_bind, Action.outcome_liftM, listExample]
  cases Mock.record? c model with
  | error fault => rfl
  | ok made =>
      cases made with
      | error rejections => rfl
      | ok v =>
          dsimp only
          rw [Action.outcome_bind, Action.outcome_liftM]
          cases hwritten : Markup.encodeAll c [v] wrapper true <;> simp [hwritten, bind, Except.bind]

/-- An array leads to what its items lead to. -/
theorem leadsTo?_element {t : Ty} (hkind : c.kindOf t = .array) :
    t.element?.bind Ty.leadsTo? = t.leadsTo? := by
  cases t with
  | list item | set _ item | sequence item => exact Ty.leadsTo?_unwrap item
  | tuple items =>
      cases items with
      | nil => rfl
      | cons item rest => exact Ty.leadsTo?_unwrap item
  | annotated inner | union choices | record name | dict key value => cases hkind
  | _ => rfl

/-- The schema of a list needs the component that its items lead to, and then its example. -/
theorem exists_answers_ofXmlList (hfrozen : r.frozen = true) (root : Option String) (item : Option Ty) :
    ∃ change : Schema → Option String → Schema, Answers (ofXmlList c root item) r
      ((leading (present c .xml r) (item.bind Ty.leadsTo?)).bind fun s =>
        (match item.bind Ty.recordName? with
          | some model => listExample c model (wrapperOf root item)
          | none => .ok none).map (change s)) := by
  have hnone : Answers (pure none : Registering (Option String)) r (.ok none) := Answers.pure none
  cases item with
  | none =>
      have hitems : Answers (pure anything) r (Except.map id (.ok anything)) := Answers.pure anything
      exact ⟨_, hitems.and_then hnone _⟩
  | some t =>
      obtain ⟨change, hitems⟩ := @exists_answers_derive c .xml r hfrozen none t []
      unfold ofXmlList
      simp only [Option.bind_some]
      cases t.recordName? with
      | none => exact ⟨_, hitems.and_then hnone _⟩
      | some model =>
          exact ⟨_, hitems.and_then (Answers.ofAction (outcome_written? c model (wrapperOf root (some t)))) _⟩

/-- The schema of a type needs the component that the type leads to. -/
theorem exists_answers_ofJson (hfrozen : r.frozen = true) (t : Ty) :
    ∃ x, Answers (ofJson c t) r x ∧ IsDerived (missingName? c .json r t) none x := by
  obtain ⟨change, hderive⟩ := @exists_answers_derive c .json r hfrozen none t []
  refine ⟨_, hderive, ?_⟩
  have hderived := isDerived_bind c .json r t (.ok ()) fun s _ => change s
  cases hleads : leading (present c .json r) t.leadsTo? <;> rw [hleads] at hderived <;> exact hderived

/-- The schema of a type in documents of elements needs the component that the type leads to, and then
its example. -/
theorem exists_answers_ofXml (hfrozen : r.frozen = true) (t : Ty) (root : Option String) :
    ∃ x, Answers (ofXml c t root) r x ∧
      IsDerived (missingName? c .xml r t) (exampleFault? c t root) x := by
  have hunwrap : missingName? c .xml r t = missingName? c .xml r t.unwrap.1 := by
    rw [missingName?, missingName?, Ty.leadsTo?_unwrap]
  rw [hunwrap]
  unfold ofXml exampleFault?
  dsimp only
  generalize t.unwrap.1 = inner
  cases hkind : c.kindOf inner with
  | record =>
      obtain ⟨name, rfl⟩ := Catalogue.exists_record_of_kindOf hkind
      have hmodel := @answers_component? c .xml r hfrozen c.models.length root name
      refine ⟨_, hmodel, ?_⟩
      have hderived := isDerived_bind c .xml r (.record name) (.ok ()) fun s _ => s
      dsimp only [Ty.leadsTo?, leading] at hderived
      cases hleads : present c .xml r name <;> rw [hleads] at hderived <;> exact hderived
  | array =>
      obtain ⟨change, hlist⟩ := exists_answers_ofXmlList (c := c) hfrozen root inner.element?
      rw [leadsTo?_element hkind] at hlist
      refine ⟨_, hlist, ?_⟩
      have hderived := fun sample => isDerived_bind c .xml r inner sample change
      dsimp only
      cases hrecord : inner.element?.bind Ty.recordName? with
      | none => exact hderived (.ok none)
      | some model => exact hderived (listExample c model (wrapperOf root inner.element?))
  | _ =>
      obtain ⟨change, hderive⟩ := @exists_answers_derive c .xml r hfrozen none inner []
      exact ⟨_, hderive.and_then (Answers.liftM (Mock.ofType c inner)) fun s sample =>
        s.mapFacts fun f => { f with sample := sample }, isDerived_bind c .xml r inner _ _⟩

theorem leaves_freeze (hfrozen : r.frozen = true) : Leaves Registering.freeze r := by
  intro j
  change { r with frozen := true } = r
  rw [← hfrozen]

theorem leaves_registerChecked (hfrozen : r.frozen = true) (check : Bool) (model : String) :
    Leaves (registerChecked c check model) r := by
  obtain ⟨_, hjson, -⟩ := exists_answers_ofJson (c := c) hfrozen (.record model)
  obtain ⟨_, hxml, -⟩ := exists_answers_ofXml (c := c) hfrozen (.record model) none
  have hone : Leaves (registerOne c model) r :=
    hjson.leaves.discard.bind fun _ => hxml.leaves.discard.bind fun _ => (Answers.pure _).leaves
  cases check with
  | false => exact hone
  | true => exact Leaves.bind (a := Registering.ofAction (noteDiagnostics c model)) (fun _ => rfl) fun _ => hone

/-- Putting models into a frozen registry leaves it as it is. -/
theorem leaves_registerAll (hfrozen : r.frozen = true) (models : List String) (check : Bool) :
    Leaves (registerAll c models check) r := by
  have heach : Leaves (forIn models PUnit.unit fun model _ => registerChecked c check model) r := by
    induction models with
    | nil => exact (Answers.pure _).leaves
    | cons model rest ih =>
        rw [List.forIn_cons]
        apply (leaves_registerChecked hfrozen check model).bind
        intro step
        cases step with
        | done _ => exact (Answers.pure _).leaves
        | yield _ => exact ih
  rw [registerAll_eq]
  exact heach.bind fun _ => leaves_freeze hfrozen

/-- What can be asked of a registry. -/
inductive Call where
  | reserve (name : String)
  | put (name : String) (s : Schema)
  | freeze
  | get (name : String)
  | document
  | json (t : Ty)
  | xml (t : Ty) (root : Option String)
  | build (models : List String) (check : Bool)

/-- What is answered. -/
inductive Answer where
  | done
  | taken (isNew : Bool)
  | found (s : Option Schema)
  | document (v : Value)
  | schema (s : Schema)
  | built (r : Registry)

/-- What a call comes to from a registry and a journal, and what it leaves of them. -/
def perform (c : Catalogue) (r : Registry) (j : Journal) :
    Call → (Except Fault Answer × Registry) × Journal
  | .reserve name => (do return Answer.taken (← Registering.reserve name) : Registering Answer).outcome r j
  | .put name s =>
    (do Registering.put name s; return Answer.done : Registering Answer).outcome r j
  | .freeze => (do Registering.freeze; return Answer.done : Registering Answer).outcome r j
  | .get name => ((.ok (.found (r.get? name)), r), j)
  | .document => ((.ok (.document r.toValue), r), j)
  | .json t => (do return Answer.schema (← ofJson c t) : Registering Answer).outcome r j
  | .xml t root => (do return Answer.schema (← ofXml c t root) : Registering Answer).outcome r j
  | .build models check =>
    let ((result, left), later) := (buildComponents c models check (some r)).run j
    ((result.map Answer.built, left.getD r), later)

/-- What calls come to one after another, whether they fail or not. -/
def performAll (c : Catalogue) (r : Registry) (j : Journal) :
    List Call → (List (Except Fault Answer) × Registry) × Journal
  | [] => (([], r), j)
  | call :: rest =>
    let ((answer, next), later) := perform c r j call
    let ((answers, last), final) := performAll c next later rest
    ((answer :: answers, last), final)

/-- What a frozen registry answers: names are refused, a schema is derived unless its component is missing
or its example fails, and models are put into no other registry than the given one. -/
def IsAnswered (c : Catalogue) (r : Registry) (call : Call) (answer : Except Fault Answer) : Prop :=
  match call with
  | .reserve name | .put name _ => answer = .error (.frozenRegistry name)
  | .freeze => answer = .ok .done
  | .get name => answer = .ok (.found (r.get? name))
  | .document => answer = .ok (.document r.toValue)
  | .json t => ∃ x, answer = x.map Answer.schema ∧ IsDerived (missingName? c .json r t) none x
  | .xml t root =>
    ∃ x, answer = x.map Answer.schema ∧ IsDerived (missingName? c .xml r t) (exampleFault? c t root) x
  | .build _ _ => ∀ done, answer = .ok (.built done) → r.size ≠ 0 → done = r

theorem exists_perform_freeze (c : Catalogue) (r : Registry) (j : Journal) :
    ∃ later, perform c r j .freeze = ((.ok .done, { r with frozen := true }), later) := ⟨_, rfl⟩

/-- Models are put into a frozen registry without changing it, unless it is empty and so was passed over. -/
theorem exists_perform_build (c : Catalogue) (hfrozen : r.frozen = true) (j : Journal) (models : List String)
    (check : Bool) :
    ∃ answer later, perform c r j (.build models check) = ((answer, r), later) ∧
      IsAnswered c r (.build models check) answer := by
  rcases hrun : (registerAll c models check).outcome (startingFrom (some r)) j with
    ⟨⟨result, next⟩, later⟩
  have hfilled : r.size ≠ 0 → next = r := by
    intro hsome
    have hleaves := leaves_registerAll (c := c) hfrozen models check j
    rw [startingFrom_of_size_ne_zero hsome] at hrun
    rw [hrun] at hleaves
    exact hleaves
  have hleft : (if r.size == 0 then r else next) = r := by
    split
    · rfl
    · rename_i hsome
      exact hfilled fun hnone => hsome (by simp [hnone])
  refine ⟨result.map fun _ => Answer.built next, later, ?_, ?_⟩
  · rw [perform, run_buildComponents hrun]
    dsimp only
    rw [Option.getD_some, hleft]
    cases result <;> rfl
  · intro done hdone hsome
    cases result with
    | error fault => cases hdone
    | ok u =>
        cases hdone
        exact hfilled hsome

/-- One call leaves a frozen registry as it is. -/
theorem perform_frozen (c : Catalogue) (hfrozen : r.frozen = true) (j : Journal) (call : Call) :
    ∃ answer later, perform c r j call = ((answer, r), later) ∧ IsAnswered c r call answer := by
  cases call with
  | reserve name =>
      refine ⟨_, j, ?_, rfl⟩
      rw [perform, Registering.outcome_bind, Registering.outcome_reserve_of_frozen hfrozen]
  | put name s =>
      refine ⟨_, j, ?_, rfl⟩
      rw [perform, Registering.outcome_bind, Registering.outcome_put_of_frozen hfrozen]
  | freeze =>
      obtain ⟨later, hfreeze⟩ := exists_perform_freeze c r j
      exact ⟨_, later, by rw [hfreeze, ← hfrozen], rfl⟩
  | get name => exact ⟨_, j, rfl, rfl⟩
  | document => exact ⟨_, j, rfl, rfl⟩
  | json t =>
      obtain ⟨x, hx, hderived⟩ := exists_answers_ofJson (c := c) hfrozen t
      obtain ⟨later, hlater⟩ := hx.map Answer.schema j
      exact ⟨_, later, hlater, x, rfl, hderived⟩
  | xml t root =>
      obtain ⟨x, hx, hderived⟩ := exists_answers_ofXml (c := c) hfrozen t root
      obtain ⟨later, hlater⟩ := hx.map Answer.schema j
      exact ⟨_, later, hlater, x, rfl, hderived⟩
  | build models check => exact exists_perform_build c hfrozen j models check

/-- A frozen registry stays as it is under any calls, and so do its answers. -/
theorem performAll_frozen (c : Catalogue) (hfrozen : r.frozen = true) (j : Journal) (calls : List Call) :
    ∃ answers later, performAll c r j calls = ((answers, r), later) ∧
      List.Forall₂ (IsAnswered c r) calls answers := by
  induction calls generalizing j with
  | nil => exact ⟨[], j, rfl, List.Forall₂.nil⟩
  | cons call rest ih =>
      obtain ⟨answer, later, hone, hanswer⟩ := perform_frozen c hfrozen j call
      obtain ⟨answers, final, hrest, hanswers⟩ := ih later
      refine ⟨answer :: answers, final, ?_, List.Forall₂.cons hanswer hanswers⟩
      rw [performAll, hone]
      dsimp only
      rw [hrest]

/-- Once a registry was frozen it stays as it is, in its components, their names and their order, whatever
is asked of it and whether that fails. Taking a name and putting a schema are refused, and a schema is
derived exactly if the component that the type leads to is there, and its example, if there is one to
be made, can be made. -/
theorem performAll_after_freeze (c : Catalogue) (r : Registry) (j : Journal) (calls : List Call) :
    ∃ answers later,
      performAll c r j (.freeze :: calls) = ((.ok .done :: answers, { r with frozen := true }), later) ∧
        List.Forall₂ (IsAnswered c { r with frozen := true }) calls answers := by
  obtain ⟨later, hfreeze⟩ := exists_perform_freeze c r j
  obtain ⟨answers, final, hrest, hanswers⟩ :=
    performAll_frozen c (r := { r with frozen := true }) rfl later calls
  refine ⟨answers, final, ?_, hanswers⟩
  rw [performAll, hfreeze]
  dsimp only
  rw [hrest]

/-- The calls that derive the schema of a list of records after that of the record has failed, which has
left the name of its component taken. -/
def loopCalls : List Call :=
  [.xml (.record "Loop") none, .freeze, .xml (.list (.record "Loop")) none]

/-- A component that is there is not enough for the schema of a list of records: the example of the list
takes a default that no array could be. -/
theorem performAll_fails_on_example :
    (performAll ⟨[loopModel], []⟩ Registry.empty Journal.empty loopCalls).1.1.map faultOf? =
        [some (.noItems "int"), none, some (.noItems "int")] ∧
      (performAll ⟨[loopModel], []⟩ Registry.empty Journal.empty loopCalls).1.2.names = ["app.Loop.XML"] ∧
      ¬ ∀ (c : Catalogue) (r : Registry) (j : Journal) (t : Ty) (root : Option String),
        r.frozen = true → missingName? c .xml r t = none →
          ∃ s, (perform c r j (.xml t root)).1.1 = .ok (.schema s) := by
  refine ⟨by decide +kernel, by decide +kernel, fun hall => ?_⟩
  let r : Registry := ⟨[("app.Loop.XML", Registry.placeholder "app.Loop.XML")], true⟩
  obtain ⟨s, hs⟩ := hall ⟨[loopModel], []⟩ r Journal.empty (.list (.record "Loop")) none rfl
    (by decide +kernel)
  have hfault : faultOf? (perform ⟨[loopModel], []⟩ r Journal.empty (.xml (.list (.record "Loop")) none)).1.1 =
      some (.noItems "int") := by decide +kernel
  rw [hs] at hfault
  cases hfault

end Schema
end Intake
