import Intake.Proofs.Schema.Frozen

/-!
Derivations that fail. A failure takes nothing back: behind what the registry held stand the components that were
finished before, and a placeholder for every model whose derivation was broken off. These models are inside each
other, from the one that the type leads to down to one that has no description or whose example cannot be written.
-/

namespace Intake

namespace Registry

/-- What is put under a name that does not stand in front is put into what stands behind. -/
theorem putInto_append {name : String} {front : List (String × Schema)} (hfree : front.lookup name = none)
    (s : Schema) (back : List (String × Schema)) : putInto name s (front ++ back) = front ++ putInto name s back := by
  induction front with
  | nil => rfl
  | cons entry rest ih =>
      obtain ⟨n, t⟩ := entry
      have hne : name ≠ n := by
        rintro rfl
        simp at hfree
      rw [List.lookup_cons, beq_false_of_ne hne] at hfree
      rw [List.cons_append, putInto, beq_false_of_ne hne.symm, if_neg Bool.false_ne_true, ih hfree, List.cons_append]

/-- Whether a registry holds what another held, as it stood there, and behind it entries under new names. -/
structure GrowsBy (r r' : Registry) (added : List (String × Schema)) : Prop where
  frozen : r'.frozen = r.frozen
  components : r'.components = r.components ++ added
  fresh : ∀ e ∈ added, r.get? e.1 = none
  nodup : (added.map Prod.fst).Nodup

theorem GrowsBy.refl (r : Registry) : r.GrowsBy r [] :=
  ⟨rfl, (List.append_nil _).symm, List.forall_mem_nil _, List.nodup_nil⟩

/-- What is found is what was there, and else what was added. -/
theorem GrowsBy.get? {r r' : Registry} {added : List (String × Schema)} (h : r.GrowsBy r' added) (name : String) :
    r'.get? name = (r.get? name).or (added.lookup name) := by
  rw [Registry.get?, h.components, List.lookup_append]
  rfl

theorem GrowsBy.trans {r next r' : Registry} {added more : List (String × Schema)} (hfirst : r.GrowsBy next added)
    (hsecond : next.GrowsBy r' more) : r.GrowsBy r' (added ++ more) := by
  have hnew : ∀ e ∈ more, r.get? e.1 = none ∧ added.lookup e.1 = none := by
    intro e he
    have hnone := hsecond.fresh e he
    rwa [hfirst.get?, Option.or_eq_none_iff] at hnone
  refine ⟨hsecond.frozen.trans hfirst.frozen, ?_, ?_, ?_⟩
  · rw [hsecond.components, hfirst.components, List.append_assoc]
  · exact List.forall_mem_append.mpr ⟨hfirst.fresh, fun e he => (hnew e he).1⟩
  · rw [List.map_append]
    refine List.nodup_append.mpr ⟨hfirst.nodup, hsecond.nodup, fun name hname other hother hsame => ?_⟩
    obtain ⟨e, he, rfl⟩ := List.mem_map.mp hother
    obtain ⟨e', he', rfl⟩ := List.mem_map.mp hname
    exact List.lookup_eq_none_iff.mp (hnew e he).2 e' he' |> fun hne => by simp [hsame] at hne

/-- A schema under a new name is added. -/
theorem growsBy_withSchema {r : Registry} {name : String} (hfree : r.get? name = none) (s : Schema) :
    r.GrowsBy (r.withSchema name s) [(name, s)] := by
  refine ⟨rfl, ?_, by simpa using hfree, List.nodup_singleton _⟩
  have happend := putInto_append hfree s []
  rwa [List.append_nil] at happend

/-- The schema under an added name can be replaced where it stands. -/
theorem GrowsBy.replace {r r' : Registry} {name : String} {s : Schema} {added : List (String × Schema)}
    (h : r.GrowsBy r' ((name, s) :: added)) (s' : Schema) : r.GrowsBy (r'.withSchema name s') ((name, s') :: added) := by
  obtain ⟨hfrozen, hcomponents, hfresh, hnodup⟩ := h
  rw [List.forall_mem_cons] at hfresh
  refine ⟨hfrozen, ?_, List.forall_mem_cons.mpr hfresh, hnodup⟩
  rw [withSchema, hcomponents, putInto_append hfresh.1, putInto, beq_self_eq_true, if_pos rfl]

end Registry

namespace Schema

open Registering (Answers Yields)

variable {α β : Type} {c : Catalogue} {dialect : Dialect}

/-! ### What a failure leaves -/

/-- Whether entries are the components of models. -/
def AreComponents (c : Catalogue) (entries : List (String × Schema)) : Prop := ∀ e ∈ entries, IsComponent c e.1 e.2

/-- A model whose derivation was broken off, and the components that were finished inside it before. -/
structure Unfinished where
  model : Model
  inside : List (String × Schema)

/-- What a model whose derivation was broken off leaves: its placeholder, and what was finished. -/
def Unfinished.entries (dialect : Dialect) (u : Unfinished) : List (String × Schema) :=
  (dialect.componentName u.model, Registry.placeholder (dialect.componentName u.model)) :: u.inside

/-- Whether a registry came from another by deriving until some models were broken off, from the outermost to the
innermost: behind what was there stand finished components, and then what each of the models leaves. -/
def IsStopped (c : Catalogue) (dialect : Dialect) (r r' : Registry) (models : List Model) : Prop :=
  ∃ (finished : List (String × Schema)) (unfinished : List Unfinished),
    r.GrowsBy r' (finished ++ unfinished.flatMap (Unfinished.entries dialect)) ∧ AreComponents c finished ∧
      (∀ u ∈ unfinished, AreComponents c u.inside) ∧ unfinished.map Unfinished.model = models

theorem IsStopped.refl (r : Registry) : IsStopped c dialect r r [] :=
  ⟨[], [], Registry.GrowsBy.refl r, List.forall_mem_nil _, List.forall_mem_nil _, rfl⟩

/-- Components that were finished before stand in front. -/
theorem IsStopped.after {r next r' : Registry} {added : List (String × Schema)} {models : List Model}
    (hgrows : r.GrowsBy next added) (hadded : AreComponents c added) (h : IsStopped c dialect next r' models) :
    IsStopped c dialect r r' models := by
  obtain ⟨finished, unfinished, hrest, hfinished, hinside, hmodels⟩ := h
  refine ⟨added ++ finished, unfinished, ?_, List.forall_mem_append.mpr ⟨hadded, hfinished⟩, hinside, hmodels⟩
  rw [List.append_assoc]
  exact hgrows.trans hrest

/-- What is broken off inside a model breaks off the model, which leaves its placeholder. -/
theorem IsStopped.inside {r r' : Registry} {m : Model} {models : List Model}
    (hfree : r.get? (dialect.componentName m) = none)
    (h : IsStopped c dialect (r.withSchema (dialect.componentName m) (Registry.placeholder (dialect.componentName m))) r'
      models) : IsStopped c dialect r r' (m :: models) := by
  obtain ⟨finished, unfinished, hrest, hfinished, hinside, hmodels⟩ := h
  refine ⟨[], ⟨m, finished⟩ :: unfinished, ?_, List.forall_mem_nil _, ?_, by rw [List.map_cons, hmodels]⟩
  · exact (Registry.growsBy_withSchema hfree _).trans hrest
  · exact List.forall_mem_cons.mpr ⟨hfinished, hinside⟩

/-- The models that are broken off have their placeholders. -/
theorem IsStopped.get?_placeholder {r r' : Registry} {models : List Model} (h : IsStopped c dialect r r' models)
    {m : Model} (hm : m ∈ models) :
    r'.get? (dialect.componentName m) = some (Registry.placeholder (dialect.componentName m)) := by
  obtain ⟨finished, unfinished, hgrows, -, -, rfl⟩ := h
  obtain ⟨u, hu, rfl⟩ := List.mem_map.mp hm
  have hthere : (dialect.componentName u.model, Registry.placeholder (dialect.componentName u.model)) ∈
      finished ++ unfinished.flatMap (Unfinished.entries dialect) :=
    List.mem_append_right _ (List.mem_flatMap.mpr ⟨u, hu, List.mem_cons_self⟩)
  rw [hgrows.get?, hgrows.fresh _ hthere, Option.none_or]
  exact (lookup_eq_some_iff_mem hgrows.nodup).mpr hthere

/-- Whether an operation only adds the components of models to a registry, and leaves it stopped at models that go
with the fault if it fails. -/
structure BuildsFrom (c : Catalogue) (dialect : Dialect) (stops : Fault → List Model → Prop) (r : Registry)
    (a : Registering α) : Prop where
  done : ∀ j v r' later, a.outcome r j = ((.ok v, r'), later) → ∃ added, r.GrowsBy r' added ∧ AreComponents c added
  failed : ∀ j fault r' later, a.outcome r j = ((.error fault, r'), later) →
    ∃ models, IsStopped c dialect r r' models ∧ stops fault models

/-- Whether an operation does so from every open registry. -/
def Builds (c : Catalogue) (dialect : Dialect) (stops : Fault → List Model → Prop) (a : Registering α) : Prop :=
  ∀ r, r.frozen = false → BuildsFrom c dialect stops r a

section
variable {stops : Fault → List Model → Prop}

/-- What leaves a registry as it is stops at no model. -/
theorem BuildsFrom.of_same {a : Registering α} {r : Registry} (hsame : ∀ j, (a.outcome r j).1.2 = r)
    (hstops : ∀ j fault, (a.outcome r j).1.1 = .error fault → stops fault []) : BuildsFrom c dialect stops r a := by
  constructor
  · intro j v r' later hdone
    have hleft := hsame j
    rw [hdone] at hleft
    subst hleft
    exact ⟨[], Registry.GrowsBy.refl _, List.forall_mem_nil _⟩
  · intro j fault r' later hfailed
    have hleft := hsame j
    have hfault := hstops j fault
    rw [hfailed] at hleft hfault
    subst hleft
    exact ⟨[], IsStopped.refl _, hfault rfl⟩

theorem Builds.pure (v : α) : Builds c dialect stops (Pure.pure v : Registering α) :=
  fun _ _ => BuildsFrom.of_same (fun _ => rfl) fun _ fault hfault => by cases hfault

theorem Builds.ofAction {a : Action α} (hstops : ∀ j fault, (a.outcome j).1 = .error fault → stops fault []) :
    Builds c dialect stops (Registering.ofAction a) :=
  fun _ _ => BuildsFrom.of_same (fun _ => rfl) hstops

theorem Builds.liftM {x : Except Fault α} (hstops : ∀ fault, x = .error fault → stops fault []) :
    Builds c dialect stops (liftM x : Registering α) :=
  fun _ _ => BuildsFrom.of_same (fun _ => rfl) fun _ => hstops

/-- The second operation goes on in the registry of the first, which is still open. -/
theorem Builds.bind_of {a : Registering α} {f : α → Registering β} (ha : Builds c dialect stops a)
    (hf : ∀ r j v r' later, a.outcome r j = ((.ok v, r'), later) → Builds c dialect stops (f v)) :
    Builds c dialect stops (a >>= f) := by
  intro r hopen
  constructor
  · intro j w r' last hdone
    obtain ⟨v, next, later, hfirst, hsecond⟩ := Registering.of_outcome_bind hdone
    obtain ⟨added, hgrows, hadded⟩ := (ha r hopen).done j v next later hfirst
    have hrest := hf r j v next later hfirst next (hgrows.frozen.trans hopen)
    obtain ⟨more, hmoregrows, hmore⟩ := hrest.done later w r' last hsecond
    exact ⟨added ++ more, hgrows.trans hmoregrows, List.forall_mem_append.mpr ⟨hadded, hmore⟩⟩
  · intro j fault r' last hfailed
    rw [Registering.outcome_bind] at hfailed
    rcases hout : a.outcome r j with ⟨⟨fault' | v, next⟩, later⟩
    · rw [hout] at hfailed
      cases hfailed
      exact (ha r hopen).failed j fault _ _ hout
    · rw [hout] at hfailed
      obtain ⟨added, hgrows, hadded⟩ := (ha r hopen).done j v next later hout
      have hrest := hf r j v next later hout next (hgrows.frozen.trans hopen)
      obtain ⟨models, hstopped, hstops⟩ := hrest.failed later fault r' last hfailed
      exact ⟨models, hstopped.after hgrows hadded, hstops⟩

theorem Builds.bind {a : Registering α} {f : α → Registering β} (ha : Builds c dialect stops a)
    (hf : ∀ v, Builds c dialect stops (f v)) : Builds c dialect stops (a >>= f) :=
  ha.bind_of fun _ _ v _ _ _ => hf v

/-- Asking for the registry first is going on from the one that is there. -/
theorem Builds.get_bind {f : Registry → Registering α}
    (hf : ∀ r, r.frozen = false → BuildsFrom c dialect stops r (f r)) : Builds c dialect stops (get >>= f) :=
  fun r hopen => ⟨(hf r hopen).done, (hf r hopen).failed⟩

theorem Builds.mono {stops' : Fault → List Model → Prop} {a : Registering α} (ha : Builds c dialect stops a)
    (hstops : ∀ fault models, stops fault models → stops' fault models) : Builds c dialect stops' a := by
  refine fun r hopen => ⟨(ha r hopen).done, fun j fault r' later hfailed => ?_⟩
  obtain ⟨models, hstopped, h⟩ := (ha r hopen).failed j fault r' later hfailed
  exact ⟨models, hstopped, hstops fault models h⟩

end

/-! ### Where a derivation is broken off -/

/-- Whether a field of a model in documents of a dialect leads to another model. -/
def HasInside (c : Catalogue) (dialect : Dialect) (m next : Model) : Prop :=
  ∃ fields, c.describe m = .ok fields ∧ ∃ d ∈ dialect.fieldsOf fields, ∃ name, d.type.leadsTo? = some name ∧
    c.model? name = some next

/-- Why a model itself cannot be derived: it has no description, or its example in documents of elements cannot
be written. -/
inductive FailsAlone (c : Catalogue) (dialect : Dialect) (m : Model) : Fault → Prop where
  | undescribed {e : UnknownSource} (h : c.describe m = .error e) : FailsAlone c dialect m (.unknownSource e)
  | unwritten {root : Option String} {j : Journal} {fault : Fault} (hxml : dialect = .xml)
    (h : ((Mock.xmlExample c m.name root).outcome j).1 = .error fault) : FailsAlone c dialect m fault

/-- Whether models are inside each other, from a given one down to one that cannot be derived. -/
inductive IsBrokenOff (c : Catalogue) (dialect : Dialect) (fault : Fault) : Model → List Model → Prop where
  | here {m : Model} (h : FailsAlone c dialect m fault) : IsBrokenOff c dialect fault m [m]
  | inside {m next : Model} {models : List Model} (hnext : HasInside c dialect m next)
    (h : IsBrokenOff c dialect fault next models) : IsBrokenOff c dialect fault m (m :: models)

/-- Whether a failure broke off the model of a name, if there is one. -/
def StopsInside (c : Catalogue) (dialect : Dialect) (name : Option String) (fault : Fault)
    (models : List Model) : Prop :=
  ∃ m, name.bind c.model? = some m ∧ IsBrokenOff c dialect fault m models

section
variable {record : String → Registering Schema}
  (hrecord : ∀ name, Builds c dialect (StopsInside c dialect (some name)) (record name))
include hrecord

theorem AsksFor.builds {name : Option String} {derivation : (String → Registering Schema) → Registering Schema}
    (h : AsksFor name derivation) : Builds c dialect (StopsInside c dialect name) (derivation record) := by
  obtain ⟨change, -, hchange⟩ := h
  rw [hchange]
  refine Builds.bind ?_ fun s => Builds.pure (change s)
  cases name with
  | none => exact Builds.pure _
  | some name => exact hrecord name

theorem builds_propertiesOf (fields : List Descriptor) (found : List (String × Schema)) :
    Builds c dialect (fun fault models => ∃ d ∈ fields, StopsInside c dialect d.type.leadsTo? fault models)
      (propertiesOf dialect (ofField c dialect record) fields found) := by
  induction fields generalizing found with
  | nil => exact Builds.pure found
  | cons d rest ih =>
      rw [propertiesOf]
      refine Builds.bind (((asksFor_ofField c dialect d).builds hrecord).mono fun fault models h => ?_) fun s => ?_
      · exact ⟨d, List.mem_cons_self, h⟩
      · refine (ih _).mono fun fault models h => ?_
        obtain ⟨d', hd', h⟩ := h
        exact ⟨d', List.mem_cons_of_mem d hd', h⟩

/-- Deriving the component of a model fails because of the model itself, or inside a model that it leads to. -/
theorem builds_nodeOf (root : Option String) (m : Model) :
    Builds c dialect
      (fun fault models => (models = [] ∧ FailsAlone c dialect m fault) ∨
        ∃ next, HasInside c dialect m next ∧ IsBrokenOff c dialect fault next models)
      (nodeOf c dialect record root m) := by
  refine Builds.bind_of (Builds.liftM fun fault hfault => Or.inl ⟨rfl, ?_⟩) fun r j fields r' later hfields => ?_
  · cases hdescribe : c.describe m with
    | ok fields =>
        rw [Action.describe_eq_ok hdescribe] at hfault
        cases hfault
    | error e =>
        rw [Action.describe, hdescribe] at hfault
        cases hfault
        exact FailsAlone.undescribed hdescribe
  · rw [Registering.outcome_liftM] at hfields
    have hdescribe := Action.of_describe_eq_ok (Prod.mk.inj (Prod.mk.inj hfields).1).1
    refine Builds.bind ((builds_propertiesOf hrecord _ []).mono ?_) fun properties => ?_
    · rintro fault models ⟨d, hd, next, hnext, hstopped⟩
      obtain ⟨name, hname, hmodel⟩ := Option.bind_eq_some_iff.mp hnext
      exact Or.inr ⟨next, ⟨fields, hdescribe, d, hd, name, hname, hmodel⟩, hstopped⟩
    · cases dialect with
      | json => exact Builds.pure _
      | xml =>
          refine Builds.bind (Builds.ofAction fun j fault hfault => ?_) fun sample => Builds.pure _
          exact Or.inl ⟨rfl, FailsAlone.unwritten rfl hfault⟩

end

/-- Taking the name of a model, deriving its component and putting that adds the component in front of those that
were finished inside. If deriving it fails, the placeholder stays there. -/
theorem buildsFrom_taken {m : Model} (hm : m ∈ c.models) {fuel : Nat} (root : Option String)
    (hinside : ∀ name, Builds c dialect (StopsInside c dialect (some name)) (component? c dialect fuel none name))
    {r : Registry} (hopen : r.frozen = false) {name : String} (hname : name = dialect.componentName m)
    (hfree : r.get? name = none) :
    BuildsFrom c dialect (fun fault models => IsBrokenOff c dialect fault m models) r (do
      discard (Registering.reserve name)
      Registering.put name (← nodeOf c dialect (component? c dialect fuel none) root m)
      return component name) := by
  have hnode := builds_nodeOf hinside root m (r.withSchema name (Registry.placeholder name)) hopen
  have hreserve := Registering.yields_reserve hopen (show r.contains name = false by rw [Registry.contains, hfree]; rfl)
  constructor
  · intro j v r' later hdone
    obtain ⟨j₁, hreserve⟩ := hreserve j
    rw [Registering.outcome_bind, hreserve] at hdone
    obtain ⟨node, next, j₂, hderived, hdone⟩ := Registering.of_outcome_bind hdone
    obtain ⟨added, hgrows, hadded⟩ := hnode.done j₁ node next j₂ hderived
    obtain ⟨j₃, hput⟩ := Registering.yields_put (hgrows.frozen.trans hopen) name node j₂
    rw [Registering.outcome_bind, hput] at hdone
    cases hdone
    refine ⟨(name, node) :: added, ((Registry.growsBy_withSchema hfree _).trans hgrows).replace node, ?_⟩
    exact List.forall_mem_cons.mpr ⟨⟨dialect, m, root, fuel, _, _, _, _, hm, hname, hderived⟩, hadded⟩
  · intro j fault r' later hfailed
    obtain ⟨j₁, hreserve⟩ := hreserve j
    rw [Registering.outcome_bind, hreserve] at hfailed
    dsimp only at hfailed
    rw [Registering.outcome_bind] at hfailed
    rcases hout : (nodeOf c dialect (component? c dialect fuel none) root m).outcome
      (r.withSchema name (Registry.placeholder name)) j₁ with ⟨⟨fault' | node, next⟩, j₂⟩
    · rw [hout] at hfailed
      cases hfailed
      obtain ⟨models, hstopped, hstops⟩ := hnode.failed j₁ fault _ _ hout
      subst hname
      refine ⟨m :: models, hstopped.inside hfree, ?_⟩
      rcases hstops with ⟨rfl, halone⟩ | ⟨next, hnext, hrest⟩
      · exact IsBrokenOff.here halone
      · exact IsBrokenOff.inside hnext hrest
    · rw [hout] at hfailed
      obtain ⟨added, hgrows, -⟩ := hnode.done j₁ node next j₂ hout
      obtain ⟨j₃, hput⟩ := Registering.yields_put (hgrows.frozen.trans hopen) name node j₂
      dsimp only at hfailed
      rw [Registering.outcome_bind, hput] at hfailed
      cases hfailed

theorem builds_component? (fuel : Nat) (root : Option String) (name : String) :
    Builds c dialect (StopsInside c dialect (some name)) (component? c dialect fuel root name) := by
  induction fuel generalizing root name with
  | zero => exact Builds.pure _
  | succ fuel ih =>
      simp only [component?]
      cases hmodel : c.model? name with
      | none => exact Builds.pure _
      | some m =>
          have hstops : ∀ fault models, IsBrokenOff c dialect fault m models →
              StopsInside c dialect (some name) fault models := fun fault models h => ⟨m, hmodel, h⟩
          apply Builds.get_bind
          intro r hopen
          by_cases hthere : r.contains (dialect.componentName m) = true
          · rw [if_pos hthere]
            exact Builds.pure _ r hopen
          · rw [if_neg hthere]
            have hfree : r.get? (dialect.componentName m) = none := by simpa [Registry.contains] using hthere
            have htaken := buildsFrom_taken (List.mem_of_find?_eq_some hmodel) root (ih none) hopen rfl hfree
            refine ⟨htaken.done, fun j fault r' later hfailed => ?_⟩
            obtain ⟨models, hstopped, h⟩ := htaken.failed j fault r' later hfailed
            exact ⟨models, hstopped, hstops fault models h⟩

/-! ### Schemas of types -/

/-- The schema of a type in documents of a dialect. -/
def ofTarget (c : Catalogue) (dialect : Dialect) (t : Ty) (root : Option String) : Registering Schema :=
  match dialect with
  | .json => ofJson c t
  | .xml => ofXml c t root

/-- Whether models are those at which deriving the schema of a type was broken off: models inside each other, from
the one that the type leads to, or none, if the example that goes with the schema cannot be made. -/
def IsStopOf (c : Catalogue) (dialect : Dialect) (t : Ty) (root : Option String) (fault : Fault)
    (models : List Model) : Prop :=
  StopsInside c dialect t.leadsTo? fault models ∨
    (models = [] ∧ dialect = .xml ∧ exampleFault? c t root = some fault)

theorem builds_derive (root : Option String) (t : Ty) (rules : List Rule) :
    Builds c dialect (StopsInside c dialect t.leadsTo?) (derive c (ofRecord c dialect root) t rules) :=
  (asksFor_derive c t rules).builds fun name => builds_component? _ root name

/-- Deriving the schema of a list stops inside the record that its items lead to, or at its example. -/
theorem builds_ofXmlList {item : Option Ty} {root : Option String} {stops : Fault → List Model → Prop}
    (hinside : ∀ fault models, StopsInside c .xml (item.bind Ty.leadsTo?) fault models → stops fault models)
    (hsample : ∀ model fault, item.bind Ty.recordName? = some model →
      listExample c model (wrapperOf root item) = .error fault → stops fault []) :
    Builds c .xml stops (ofXmlList c root item) := by
  unfold ofXmlList
  cases item with
  | none => exact Builds.bind (Builds.pure _) fun items => Builds.bind (Builds.pure _) fun sample => Builds.pure _
  | some t =>
      refine Builds.bind ((builds_derive none t []).mono hinside) fun items => ?_
      simp only [Option.bind_some] at hsample ⊢
      cases hmodel : t.recordName? with
      | none => exact Builds.bind (Builds.pure _) fun sample => Builds.pure _
      | some model =>
          refine Builds.bind (Builds.ofAction fun j fault hfault => ?_) fun sample => Builds.pure _
          rw [outcome_written?] at hfault
          exact hsample model fault hmodel hfault

theorem builds_ofTarget (c : Catalogue) (dialect : Dialect) (t : Ty) (root : Option String) :
    Builds c dialect (IsStopOf c dialect t root) (ofTarget c dialect t root) := by
  cases dialect with
  | json => exact (builds_derive none t []).mono fun fault models h => Or.inl h
  | xml =>
      have hinside : ∀ fault models, StopsInside c .xml t.unwrap.1.leadsTo? fault models →
          IsStopOf c .xml t root fault models := by
        intro fault models h
        rw [Ty.leadsTo?_unwrap] at h
        exact Or.inl h
      rw [ofTarget, ofXml]
      cases hkind : c.kindOf t.unwrap.1 with
      | record =>
          obtain ⟨name, hname⟩ := Catalogue.exists_record_of_kindOf hkind
          simp only [hname, Ty.recordName?]
          refine (builds_component? _ root name).mono fun fault models h => hinside fault models ?_
          rwa [hname, Ty.leadsTo?]
      | array =>
          refine builds_ofXmlList (fun fault models h => hinside fault models ?_) fun model fault hmodel hfault => ?_
          · rwa [leadsTo?_element hkind] at h
          · exact Or.inr ⟨rfl, rfl, by simp [exampleFault?, hkind, hmodel, hfault, faultOf?]⟩
      | _ =>
          refine Builds.bind ((builds_derive none _ []).mono hinside) fun s =>
            Builds.bind (Builds.liftM fun fault hfault => ?_) fun sample => Builds.pure _
          exact Or.inr ⟨rfl, rfl, by simp [exampleFault?, hkind, hfault, faultOf?]⟩

theorem answers_ofTarget_of_frozen (c : Catalogue) (dialect : Dialect) {r : Registry} (hfrozen : r.frozen = true)
    (t : Ty) (root : Option String) : ∃ x, Answers (ofTarget c dialect t root) r x := by
  cases dialect with
  | json =>
      obtain ⟨x, hx, -⟩ := exists_answers_ofJson (c := c) hfrozen t
      exact ⟨x, hx⟩
  | xml =>
      obtain ⟨x, hx, -⟩ := exists_answers_ofXml (c := c) hfrozen t root
      exact ⟨x, hx⟩

/-- Models at which a derivation was broken off are found by their names. -/
theorem IsBrokenOff.model?_self {fault : Fault} {m : Model} {models : List Model}
    (h : IsBrokenOff c dialect fault m models) (hm : c.model? m.name = some m) :
    ∀ other ∈ models, c.model? other.name = some other := by
  induction h with
  | here _ => simpa using hm
  | inside hnext _ ih =>
      obtain ⟨fields, -, d, -, name, -, hmodel⟩ := hnext
      exact List.forall_mem_cons.mpr ⟨hm, ih (Catalogue.model?_self hmodel)⟩

/-- A derivation that fails takes nothing back. A frozen registry stays as it is. Any other keeps what it held as it
stood there, and behind it stand finished components and the placeholders of models that are inside each other, from
the one that the type leads to down to the one that could not be derived; there are none if only the example of the
schema could not be made. Each placeholder is what its model is referred to by from then on. -/
theorem failed_ofTarget_leaves_placeholders {t : Ty} {root : Option String} {r r' : Registry} {j later : Journal}
    {fault : Fault} (hfailed : (ofTarget c dialect t root).outcome r j = ((.error fault, r'), later)) :
    (r.frozen = true → r' = r) ∧
      (r.frozen = false → ∃ models, IsStopped c dialect r r' models ∧ IsStopOf c dialect t root fault models ∧
        ∀ m ∈ models, r'.get? (dialect.componentName m) = some (Registry.placeholder (dialect.componentName m)) ∧
          ∀ root, Yields (ofRecord c dialect root m.name) r' (component (dialect.componentName m)) r') := by
  refine ⟨fun hfrozen => ?_, fun hopen => ?_⟩
  · obtain ⟨x, hx⟩ := answers_ofTarget_of_frozen c dialect hfrozen t root
    have hleft := hx.leaves j
    rwa [hfailed] at hleft
  · obtain ⟨models, hstopped, hstops⟩ := (builds_ofTarget c dialect t root r hopen).failed j fault r' later hfailed
    refine ⟨models, hstopped, hstops, fun m hm => ?_⟩
    have hthere := hstopped.get?_placeholder hm
    refine ⟨hthere, fun root => ?_⟩
    have hmodel : c.model? m.name = some m := by
      rcases hstops with ⟨first, hfirst, hbroken⟩ | ⟨rfl, -⟩
      · obtain ⟨name, -, hfirst⟩ := Option.bind_eq_some_iff.mp hfirst
        exact hbroken.model?_self (Catalogue.model?_self hfirst) m hm
      · cases hm
    exact yields_ofRecord_of_contains hmodel (by rw [Registry.contains, hthere]; rfl) root

/-- A model with a field that is to be read from a part of requests that there is not. -/
def strayModel : Model :=
  plainModel "Stray" [{ plainField "size" .int with annotations := { Annotations.none with source := some "nowhere" } }]

/-- A model that holds a model that can be described, and then one that cannot. -/
def trunkModel : Model := plainModel "Trunk" [plainField "label" (.record "Label"), plainField "stray" (.record "Stray")]

def trunkCatalogue : Catalogue := ⟨[plainModel "Label" [plainField "text" .str], strayModel, trunkModel], []⟩

/-- A frozen registry that holds something else. -/
def frozenRegistry : Registry := { otherRegistry with frozen := true }

/-- The registry keeps what it held. The component of the first model inside is finished, and the placeholders of the
other model and of the one around them stay. A frozen registry refuses the first name and stays as it is. -/
theorem failed_ofTarget_leaves_placeholders_trunk :
    (∃ r' later models, (ofTarget trunkCatalogue .json (.record "Trunk") none).outcome otherRegistry Journal.empty =
        ((.error (.unknownSource ⟨"nowhere"⟩), r'), later) ∧
      r'.names = ["other", "app.Trunk", "app.Label", "app.Stray"] ∧
      IsStopped trunkCatalogue .json otherRegistry r' models ∧
      IsStopOf trunkCatalogue .json (.record "Trunk") none (.unknownSource ⟨"nowhere"⟩) models ∧
      ∀ m ∈ models, r'.get? (Dialect.json.componentName m) =
        some (Registry.placeholder (Dialect.json.componentName m))) ∧
      ∃ later, (ofTarget trunkCatalogue .json (.record "Trunk") none).outcome frozenRegistry Journal.empty =
        ((.error (.frozenRegistry "app.Trunk"), frozenRegistry), later) := by
  constructor
  · have hfault : (ofTarget trunkCatalogue .json (.record "Trunk") none).fault? otherRegistry Journal.empty =
        some (.unknownSource ⟨"nowhere"⟩) := by decide +kernel
    have hnames : ((ofTarget trunkCatalogue .json (.record "Trunk") none).outcome otherRegistry
        Journal.empty).1.2.names = ["other", "app.Trunk", "app.Label", "app.Stray"] := by decide +kernel
    obtain ⟨r', later, hout⟩ := Registering.fault?_eq_some_iff.mp hfault
    rw [hout] at hnames
    obtain ⟨models, hstopped, hstops, hthere⟩ := (failed_ofTarget_leaves_placeholders hout).2 rfl
    exact ⟨r', later, models, hout, hnames, hstopped, hstops, fun m hm => (hthere m hm).1⟩
  · have hfault : (ofTarget trunkCatalogue .json (.record "Trunk") none).fault? frozenRegistry Journal.empty =
        some (.frozenRegistry "app.Trunk") := by decide +kernel
    obtain ⟨r', later, hout⟩ := Registering.fault?_eq_some_iff.mp hfault
    obtain rfl := (failed_ofTarget_leaves_placeholders hout).1 rfl
    exact ⟨later, hout⟩

/-- A failure is not taken back: an empty registry is left with three names, and when the schema is asked for again
there is no failure any more but a reference to what was left. -/
theorem failed_ofTarget_changes_registry :
    (ofTarget trunkCatalogue .json (.record "Trunk") none).fault? Registry.empty Journal.empty =
        some (.unknownSource ⟨"nowhere"⟩) ∧
      ((ofTarget trunkCatalogue .json (.record "Trunk") none).outcome Registry.empty Journal.empty).1.2.names =
        ["app.Trunk", "app.Label", "app.Stray"] ∧
      (ofTarget trunkCatalogue .json (.record "Trunk") none).fault?
        ((ofTarget trunkCatalogue .json (.record "Trunk") none).outcome Registry.empty Journal.empty).1.2 Journal.empty =
          none ∧
      ¬ ∀ (c : Catalogue) (dialect : Dialect) (t : Ty) (root : Option String) (r r' : Registry) (j later : Journal)
        (fault : Fault), (ofTarget c dialect t root).outcome r j = ((.error fault, r'), later) → r'.names = r.names := by
  have hfault : (ofTarget trunkCatalogue .json (.record "Trunk") none).fault? Registry.empty Journal.empty =
      some (.unknownSource ⟨"nowhere"⟩) := by decide +kernel
  have hnames : ((ofTarget trunkCatalogue .json (.record "Trunk") none).outcome Registry.empty Journal.empty).1.2.names =
      ["app.Trunk", "app.Label", "app.Stray"] := by decide +kernel
  refine ⟨hfault, hnames, by decide +kernel, fun hall => ?_⟩
  obtain ⟨r', later, hout⟩ := Registering.fault?_eq_some_iff.mp hfault
  have hsame := hall _ _ _ _ _ _ _ _ _ hout
  rw [hout, hsame] at hnames
  cases hnames

end Schema
end Intake
