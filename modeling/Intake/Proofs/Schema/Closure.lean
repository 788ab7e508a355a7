import Intake.Proofs.Schema.Finished

/-!
Deriving components closes the registry under references. A name is taken before the records inside are
derived, so every derivation leaves fewer models without a name, and what it adds is finished by the time
that it ends: names that were taken before are left alone.
-/

namespace Intake

namespace Registry

/-- The registry with a schema under a name. -/
def withSchema (r : Registry) (name : String) (s : Schema) : Registry :=
  { r with components := putInto name s r.components }

theorem get?_withSchema (r : Registry) (name : String) (s : Schema) (asked : String) :
    (r.withSchema name s).get? asked = if asked = name then some s else r.get? asked := by
  by_cases hsame : asked = name
  · simp [withSchema, get?, hsame, lookup_putInto_self]
  · simp [withSchema, get?, hsame, lookup_putInto_of_ne]

theorem contains_withSchema {r : Registry} {name : String} {s : Schema} {asked : String}
    (hasked : asked = name ∨ r.contains asked = true) :
    (r.withSchema name s).contains asked = true := by
  rw [contains, get?_withSchema]
  split
  · rfl
  · rename_i hother
    exact hasked.resolve_left hother

theorem names_putInto (name : String) (s : Schema) (components : List (String × Schema)) :
    (putInto name s components).map Prod.fst =
      if name ∈ components.map Prod.fst then components.map Prod.fst
      else components.map Prod.fst ++ [name] := by
  induction components with
  | nil => simp [putInto]
  | cons entry rest ih =>
      obtain ⟨n, t⟩ := entry
      simp only [putInto]
      split
      · rename_i hsame
        simp [eq_of_beq hsame]
      · rename_i hother
        have hne : name ≠ n := fun h => hother (by simp [h])
        simp only [List.map_cons, ih, List.mem_cons, hne, false_or]
        split <;> simp

/-- A name is taken once. -/
theorem nodup_names_withSchema {r : Registry} (hnodup : r.names.Nodup) (name : String) (s : Schema) :
    (r.withSchema name s).names.Nodup := by
  unfold names withSchema at *
  rw [names_putInto]
  split
  · exact hnodup
  · rename_i hfree
    exact List.nodup_append.mpr ⟨hnodup, by simp, by
      rintro a ha b hb rfl
      exact hfree (List.mem_singleton.mp hb ▸ ha)⟩

end Registry

namespace Registering

theorem Yields.discard {α : Type} {a : Registering α} {r r' : Registry} {v : α}
    (ha : Yields a r v r') : Yields (discard a) r () r' := by
  change Yields ((fun _ => ()) <$> a) r () r'
  rw [map_eq_pure_bind]
  exact ha.bind (Yields.pure () r')

theorem Yields.get (r : Registry) : Yields MonadState.get r r r := fun j => ⟨j, rfl⟩

theorem Yields.set (r next : Registry) : Yields (MonadStateOf.set next) r PUnit.unit next := fun j => ⟨j, rfl⟩

theorem insert?_of_open {r : Registry} (hopen : r.frozen = false) (name : String) (s : Schema) :
    r.insert? name s = .ok (r.withSchema name s) := by
  simp [Registry.insert?, hopen, Registry.withSchema]

theorem yields_reserve {r : Registry} {name : String} (hopen : r.frozen = false)
    (hfree : r.contains name = false) :
    Yields (Functor.discard (reserve name)) r () (r.withSchema name (Registry.placeholder name)) := by
  refine Yields.discard (v := true) ((Yields.get r).bind ?_)
  refine (Yields.liftM (insert?_of_open hopen name _) r).bind ?_
  rw [if_neg (by simp [hfree])]
  exact (Yields.set r _).bind (Yields.pure true _)

theorem yields_put {r : Registry} (hopen : r.frozen = false) (name : String) (s : Schema) :
    Yields (put name s) r () (r.withSchema name s) := by
  apply (Yields.get r).bind
  refine (Yields.liftM (insert?_of_open hopen name s) r).bind ?_
  apply (Yields.set r _).bind
  exact fun j => ⟨_, rfl⟩

end Registering

namespace Schema

open Registering (Yields)

/-- The models that are reached from models by name through the fields of documents of a dialect. -/
inductive Reaches (c : Catalogue) (dialect : Dialect) (roots : List String) : Model → Prop where
  | root {name : String} {m : Model} (hroot : name ∈ roots) (hmodel : c.model? name = some m) :
      Reaches c dialect roots m
  | field {m next : Model} {fields : List Descriptor} {d : Descriptor} {name : String}
      (hm : Reaches c dialect roots m) (hfields : c.describe m = .ok fields)
      (hd : d ∈ dialect.fieldsOf fields) (hname : d.type.leadsTo? = some name)
      (hmodel : c.model? name = some next) : Reaches c dialect roots next

theorem mem_namesInside {fields : List Descriptor} {name : String} :
    name ∈ namesInside fields ↔ ∃ d ∈ fields, d.type.leadsTo? = some name := by
  simp [namesInside]

/-- Documents of elements have no other fields than plain ones. -/
theorem reaches_json_of_reaches {c : Catalogue} {dialect : Dialect} {roots : List String} {m : Model}
    (hm : Reaches c dialect roots m) : Reaches c .json roots m := by
  induction hm with
  | root hroot hmodel => exact Reaches.root hroot hmodel
  | field hm hfields hd hname hmodel ih =>
      refine Reaches.field ih hfields ?_ hname hmodel
      cases dialect with
      | json => exact hd
      | xml => exact (List.mem_filter.mp hd).1

/-- Whether the component of every model that a model leads to is there. -/
def IsClosedAt (c : Catalogue) (dialect : Dialect) (r : Registry) (m : Model) : Prop :=
  ∀ fields, c.describe m = .ok fields → ∀ name ∈ namesInside (dialect.fieldsOf fields),
    ∀ next, c.model? name = some next → r.contains (dialect.componentName next) = true

/-- How derivation changes a registry: what is there stays, and what is new is the finished component of
a model, together with everything that the model leads to. -/
structure Grows (c : Catalogue) (roots : List String) (r r' : Registry) : Prop where
  frozen : r'.frozen = r.frozen
  nodup : r.names.Nodup → r'.names.Nodup
  kept : ∀ name s, r.get? name = some s → r'.get? name = some s
  added : ∀ name s, r'.get? name = some s → r.get? name = some s ∨ ∃ dialect m,
    Reaches c dialect roots m ∧ name = dialect.componentName m ∧ s = finished c dialect m ∧
      IsClosedAt c dialect r' m

variable {c : Catalogue} {roots : List String} {dialect : Dialect}

theorem Grows.contains {r r' : Registry} (hgrows : Grows c roots r r') {name : String}
    (hname : r.contains name = true) : r'.contains name = true := by
  obtain ⟨s, hs⟩ := Option.isSome_iff_exists.mp hname
  exact Option.isSome_iff_exists.mpr ⟨s, hgrows.kept name s hs⟩

theorem IsClosedAt.mono {r r' : Registry}
    (hmore : ∀ name, r.contains name = true → r'.contains name = true) {m : Model}
    (hclosed : IsClosedAt c dialect r m) : IsClosedAt c dialect r' m :=
  fun fields hfields name hname next hnext =>
    hmore _ (hclosed fields hfields name hname next hnext)

theorem Grows.refl (r : Registry) : Grows c roots r r :=
  ⟨rfl, id, fun _ _ => id, fun _ _ hs => Or.inl hs⟩

theorem Grows.trans {r r₁ r₂ : Registry} (hfirst : Grows c roots r r₁) (hsecond : Grows c roots r₁ r₂) :
    Grows c roots r r₂ := by
  refine ⟨hsecond.frozen.trans hfirst.frozen, hsecond.nodup ∘ hfirst.nodup,
    fun name s hs => hsecond.kept name s (hfirst.kept name s hs), ?_⟩
  intro name s hs
  rcases hsecond.added name s hs with hs | hnew
  · rcases hfirst.added name s hs with hs | ⟨dialect, m, hm, hname, hs, hclosed⟩
    · exact Or.inl hs
    · exact Or.inr ⟨dialect, m, hm, hname, hs, hclosed.mono fun _ => hsecond.contains⟩
  · exact Or.inr hnew

/-- The number of models that have no component yet. -/
def missing (c : Catalogue) (dialect : Dialect) (r : Registry) : Nat :=
  c.models.countP fun m => !r.contains (dialect.componentName m)

theorem missing_le {r r' : Registry}
    (hmore : ∀ name, r.contains name = true → r'.contains name = true) :
    missing c dialect r' ≤ missing c dialect r := by
  apply List.countP_mono_left
  intro m _ hfree
  rcases hname : r.contains (dialect.componentName m) with _ | _
  · rfl
  · rw [hmore _ hname] at hfree
    exact hfree

/-- A name that is taken for a model leaves fewer models without one. -/
theorem missing_withSchema_lt {r : Registry} {m : Model} (hm : m ∈ c.models)
    (hfree : r.contains (dialect.componentName m) = false) (s : Schema) :
    missing c dialect (r.withSchema (dialect.componentName m) s) < missing c dialect r := by
  have hmore : ∀ name, r.contains name = true →
      (r.withSchema (dialect.componentName m) s).contains name = true :=
    fun name hname => Registry.contains_withSchema (Or.inr hname)
  have hfewer : ∀ models : List Model,
      (models.countP fun m' =>
        !(r.withSchema (dialect.componentName m) s).contains (dialect.componentName m')) ≤
      models.countP fun m' => !r.contains (dialect.componentName m') := fun models =>
    missing_le (c := ⟨models, []⟩) hmore
  obtain ⟨before, after, hmodels⟩ := List.append_of_mem hm
  unfold missing
  rw [hmodels, List.countP_append, List.countP_append, List.countP_cons, List.countP_cons,
    Registry.contains_withSchema (Or.inl rfl), hfree]
  have hbefore := hfewer before
  have hafter := hfewer after
  simp only [Bool.not_true, Bool.false_eq_true, if_false, Bool.not_false, if_true]
  omega

/-- A model's component is put once the records inside are there; the name was taken until then. -/
theorem grows_of_between {r r' : Registry} {m : Model} (hm : Reaches c dialect roots m)
    (hfree : r.contains (dialect.componentName m) = false)
    (hgrows : Grows c roots
      (r.withSchema (dialect.componentName m) (Registry.placeholder (dialect.componentName m))) r')
    (hclosed : IsClosedAt c dialect r' m) :
    Grows c roots r (r'.withSchema (dialect.componentName m) (finished c dialect m)) := by
  have hmore : ∀ name, r'.contains name = true →
      (r'.withSchema (dialect.componentName m) (finished c dialect m)).contains name = true :=
    fun name hname => Registry.contains_withSchema (Or.inr hname)
  refine ⟨hgrows.frozen, ?_, ?_, ?_⟩
  · intro hnodup
    exact Registry.nodup_names_withSchema
      (hgrows.nodup (Registry.nodup_names_withSchema hnodup _ _)) _ _
  · intro name s hs
    have hother : name ≠ dialect.componentName m := by
      rintro rfl
      rw [Registry.contains, hs] at hfree
      cases hfree
    rw [Registry.get?_withSchema, if_neg hother]
    apply hgrows.kept name s
    rw [Registry.get?_withSchema, if_neg hother]
    exact hs
  · intro name s hs
    rw [Registry.get?_withSchema] at hs
    split at hs
    · rename_i hname
      exact Or.inr ⟨dialect, m, hm, hname, (Option.some.inj hs).symm, hclosed.mono hmore⟩
    · rename_i hother
      rcases hgrows.added name s hs with hs | ⟨dialect', m', hm', hname, hs, hclosed'⟩
      · rw [Registry.get?_withSchema, if_neg hother] at hs
        exact Or.inl hs
      · exact Or.inr ⟨dialect', m', hm', hname, hs, hclosed'.mono hmore⟩

section
variable (hdescribe : ∀ m, Reaches c .json roots m → ∃ fields, c.describe m = .ok fields)
  (hexample : ∀ m, Reaches c .xml roots m → HasExample c m)

/-- What deriving a record does to a registry in which there is room for the models without a name. -/
def VisitsWell (c : Catalogue) (roots : List String) (dialect : Dialect)
    (record : String → Registering Schema) (room : Nat) : Prop :=
  ∀ name r, r.frozen = false → missing c dialect r < room →
    (∀ m, c.model? name = some m → Reaches c dialect roots m) →
    ∃ r', Yields (record name) r (referTo c dialect name) r' ∧ Grows c roots r r' ∧
      ∀ m, c.model? name = some m → r'.contains (dialect.componentName m) = true

/-- Records that are derived one after another are all there in the end. -/
theorem exists_visits {record : String → Registering Schema} {room : Nat}
    (hrecord : VisitsWell c roots dialect record room) (names : List String)
    (hnames : ∀ name ∈ names, ∀ m, c.model? name = some m → Reaches c dialect roots m) {r : Registry}
    (hopen : r.frozen = false) (hroom : missing c dialect r < room) :
    ∃ r', Visits c dialect record names r r' ∧ Grows c roots r r' ∧
      ∀ name ∈ names, ∀ m, c.model? name = some m →
        r'.contains (dialect.componentName m) = true := by
  induction names generalizing r with
  | nil => exact ⟨r, Visits.nil r, Grows.refl r, by simp⟩
  | cons name rest ih =>
      obtain ⟨next, hfirst, hgrows, hthere⟩ :=
        hrecord name r hopen hroom (hnames name List.mem_cons_self)
      have hnext : missing c dialect next < room :=
        Nat.lt_of_le_of_lt (missing_le fun _ => hgrows.contains) hroom
      obtain ⟨r', hvisits, hgrows', hthere'⟩ :=
        ih (fun name hname => hnames name (List.mem_cons_of_mem _ hname))
          (hgrows.frozen.trans hopen) hnext
      refine ⟨r', Visits.cons hfirst hvisits, hgrows.trans hgrows', ?_⟩
      intro name' hname' m hm
      rcases List.mem_cons.mp hname' with rfl | hname'
      · exact hgrows'.contains (hthere m hm)
      · exact hthere' name' hname' m hm

include hdescribe hexample in
/-- Deriving a component takes names until nothing is missing: as many rounds as there are models
without a name are enough. -/
theorem visitsWell_component? (dialect : Dialect) (fuel : Nat) :
    VisitsWell c roots dialect (component? c dialect fuel none) fuel := by
  induction fuel with
  | zero => exact fun name r _ hroom => absurd hroom (Nat.not_lt_zero _)
  | succ fuel ih =>
      intro name r hopen hroom hreach
      rcases hmodel : c.model? name with _ | m
      · refine ⟨r, ?_, Grows.refl r, by simp⟩
        simp only [component?, referTo, hmodel]
        exact Yields.pure _ r
      have hm : Reaches c dialect roots m := hreach m hmodel
      simp only [component?, referTo, hmodel, Option.some.injEq, forall_eq']
      by_cases hthere : r.contains (dialect.componentName m) = true
      · refine ⟨r, (Yields.get r).bind ?_, Grows.refl r, hthere⟩
        rw [if_pos hthere]
        exact Yields.pure _ r
      have hfree : r.contains (dialect.componentName m) = false := Bool.not_eq_true _ ▸ hthere
      obtain ⟨fields, hfields⟩ := hdescribe m (reaches_json_of_reaches hm)
      have hderives := (derives_finished hfields fun hxml => hexample m (hxml ▸ hm)).1
      have hinside : ∀ name ∈ namesInside (dialect.fieldsOf fields),
          ∀ next, c.model? name = some next → Reaches c dialect roots next := by
        intro name hname next hnext
        obtain ⟨d, hd, hleads⟩ := mem_namesInside.mp hname
        exact Reaches.field hm hfields hd hleads hnext
      have hfewer := missing_withSchema_lt (List.mem_of_find?_eq_some hmodel) hfree
        (Registry.placeholder (dialect.componentName m))
      obtain ⟨r', hvisits, hgrows, hclosed⟩ := exists_visits ih _ hinside
        (r := r.withSchema (dialect.componentName m) (Registry.placeholder _)) hopen
        (Nat.lt_of_lt_of_le hfewer (Nat.le_of_lt_succ hroom))
      have hclosedAt : IsClosedAt c dialect r' m := by
        intro fields' hfields' name' hname' next hnext
        rw [hfields] at hfields'
        cases hfields'
        exact hclosed name' hname' next hnext
      refine ⟨_, (Yields.get r).bind ?_, grows_of_between hm hfree hgrows hclosedAt,
        Registry.contains_withSchema (Or.inl rfl)⟩
      rw [if_neg hthere]
      apply (Registering.yields_reserve hopen hfree).bind
      apply (hderives.2 _ _ r' hvisits).bind
      exact (Registering.yields_put (hgrows.frozen.trans hopen) _ _).bind (Yields.pure _ _)

end

end Schema
end Intake
