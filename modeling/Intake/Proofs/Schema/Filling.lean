import Intake.Proofs.Model.Instance
import Intake.Proofs.Schema.Components

/-!
Filling a registry. Whatever deriving schemas comes to, it leaves the components alone that were there,
and when it comes to an end everything that is new is the component of a model. So the registry of
models keeps what it started from; it is the given registry unless that has no components.
-/

namespace Intake

/-- Whether a registry still holds what another held, and is as open as that. -/
structure Registry.Keeps (r r' : Registry) : Prop where
  frozen : r'.frozen = r.frozen
  kept : ∀ name s, r.get? name = some s → r'.get? name = some s

theorem Registry.Keeps.refl (r : Registry) : r.Keeps r := ⟨rfl, fun _ _ hs => hs⟩

theorem Registry.Keeps.trans {r next r' : Registry} (hfirst : r.Keeps next) (hsecond : next.Keeps r') :
    r.Keeps r' :=
  ⟨hsecond.frozen.trans hfirst.frozen, fun name s hs => hsecond.kept name s (hfirst.kept name s hs)⟩

theorem Registry.Keeps.contains {r r' : Registry} (hkeeps : r.Keeps r') {name : String}
    (hname : r.contains name = true) : r'.contains name = true := by
  obtain ⟨s, hs⟩ := Option.isSome_iff_exists.mp hname
  exact Option.isSome_iff_exists.mpr ⟨s, hkeeps.kept name s hs⟩

/-- What is put under a free name, and replaced there, leaves all other names alone. -/
theorem Registry.Keeps.withSchema {r r' : Registry} {name : String} {first last : Schema}
    (hfree : r.contains name = false) (hkeeps : (r.withSchema name first).Keeps r') :
    r.Keeps r' ∧ r.Keeps (r'.withSchema name last) := by
  have hother : ∀ asked s, r.get? asked = some s → asked ≠ name ∧ r'.get? asked = some s := by
    intro asked s hs
    have hne : asked ≠ name := by
      rintro rfl
      rw [Registry.contains, hs] at hfree
      cases hfree
    refine ⟨hne, hkeeps.kept asked s ?_⟩
    rw [Registry.get?_withSchema, if_neg hne]
    exact hs
  refine ⟨⟨hkeeps.frozen, fun asked s hs => (hother asked s hs).2⟩, hkeeps.frozen, ?_⟩
  intro asked s hs
  rw [Registry.get?_withSchema, if_neg (hother asked s hs).1]
  exact (hother asked s hs).2

namespace Registering

variable {α β : Type} {made : String → Schema → Prop}

/-- Whether an operation only adds to a registry: it keeps what is there even if it fails, and if it
does not, all that is new was made in one way. -/
structure AddsTo (made : String → Schema → Prop) (r : Registry) (a : Registering α) : Prop where
  keeps : ∀ j, r.Keeps (a.outcome r j).1.2
  added : ∀ j v r' later, a.outcome r j = ((.ok v, r'), later) →
    ∀ name s, r'.get? name = some s → r.get? name = some s ∨ made name s

/-- Whether an operation only adds, to any registry. -/
def OnlyAdds (made : String → Schema → Prop) (a : Registering α) : Prop := ∀ r, AddsTo made r a

/-- What leaves the registry as it is adds nothing. -/
theorem AddsTo.of_same {a : Registering α} {r : Registry} (hsame : ∀ j, (a.outcome r j).1.2 = r) :
    AddsTo made r a := by
  constructor
  · intro j
    rw [hsame]
    exact Registry.Keeps.refl r
  · intro j v r' later hdone name s hs
    have hleft := hsame j
    rw [hdone] at hleft
    subst hleft
    exact Or.inl hs

theorem OnlyAdds.pure (v : α) : OnlyAdds made (Pure.pure v : Registering α) :=
  fun _ => AddsTo.of_same fun _ => rfl

theorem OnlyAdds.liftM (x : Except Fault α) : OnlyAdds made (liftM x : Registering α) :=
  fun _ => AddsTo.of_same fun _ => rfl

theorem OnlyAdds.ofAction (a : Action α) : OnlyAdds made (ofAction a) :=
  fun _ => AddsTo.of_same fun _ => rfl

theorem AddsTo.bind {a : Registering α} {f : α → Registering β} {r : Registry} (ha : AddsTo made r a)
    (hf : ∀ v, OnlyAdds made (f v)) : AddsTo made r (a >>= f) := by
  constructor
  · intro j
    have hfirst := ha.keeps j
    rw [outcome_bind]
    rcases hout : a.outcome r j with ⟨⟨fault | v, next⟩, later⟩
    · rw [hout] at hfirst
      exact hfirst
    · rw [hout] at hfirst
      exact hfirst.trans ((hf v next).keeps later)
  · intro j w r' last hdone name s hs
    obtain ⟨v, next, later, hfirst, hsecond⟩ := of_outcome_bind hdone
    rcases (hf v next).added later w r' last hsecond name s hs with hs | hmade
    · exact ha.added j v next later hfirst name s hs
    · exact Or.inr hmade

theorem OnlyAdds.bind {a : Registering α} {f : α → Registering β} (ha : OnlyAdds made a)
    (hf : ∀ v, OnlyAdds made (f v)) : OnlyAdds made (a >>= f) :=
  fun r => (ha r).bind hf

/-- Asking for the registry first is going on from the one that is there. -/
theorem OnlyAdds.get_bind {f : Registry → Registering α} (hf : ∀ r, AddsTo made r (f r)) :
    OnlyAdds made (get >>= f) := by
  intro r
  have hsame : ∀ j, (get >>= f).outcome r j = (f r).outcome r j := fun _ => rfl
  constructor
  · intro j
    rw [hsame]
    exact (hf r).keeps j
  · intro j v r' later hdone
    rw [hsame] at hdone
    exact (hf r).added j v r' later hdone

theorem OnlyAdds.discard {a : Registering α} (ha : OnlyAdds made a) :
    OnlyAdds made (Functor.discard a) := by
  change OnlyAdds made ((fun _ => ()) <$> a)
  rw [map_eq_pure_bind]
  exact ha.bind fun _ => OnlyAdds.pure ()

/-- An operation whose value is dropped came to one. -/
theorem of_outcome_discard {a : Registering α} {r r' : Registry} {j later : Journal} {u : Unit}
    (hdone : (Functor.discard a).outcome r j = ((.ok u, r'), later)) :
    ∃ v, a.outcome r j = ((.ok v, r'), later) := by
  change ((fun _ => ()) <$> a).outcome r j = _ at hdone
  rw [map_eq_pure_bind] at hdone
  obtain ⟨v, next, middle, hfirst, hrest⟩ := of_outcome_bind hdone
  cases hrest
  exact ⟨v, hfirst⟩

/-- A name cannot be taken in a frozen registry. -/
theorem outcome_reserve_of_frozen {r : Registry} (hfrozen : r.frozen = true) (name : String)
    (j : Journal) : (reserve name).outcome r j = ((.error (.frozenRegistry name), r), j) := by
  have hget : (get : Registering Registry).outcome r j = ((.ok r, r), j) := rfl
  rw [reserve, outcome_bind, hget]
  dsimp only
  rw [outcome_bind, outcome_liftM, Registry.insert?_of_frozen name _ hfrozen]

/-- What starts by taking a name adds nothing to a frozen registry. -/
theorem AddsTo.of_frozen {r : Registry} (hfrozen : r.frozen = true) (name : String) (f : Unit → Registering α) :
    AddsTo made r (Functor.discard (reserve name) >>= f) := by
  apply AddsTo.of_same
  intro j
  have hreserve : (Functor.discard (reserve name)).outcome r j = ((.error (.frozenRegistry name), r), j) := by
    change ((fun _ => ()) <$> reserve name).outcome r j = _
    rw [map_eq_pure_bind, outcome_bind, outcome_reserve_of_frozen hfrozen]
  rw [outcome_bind, hreserve]

end Registering

namespace Schema

open Registering (AddsTo OnlyAdds Yields)

/-- Whether a schema was derived as the component of a model, and the name is the model's. -/
def IsComponent (c : Catalogue) (name : String) (s : Schema) : Prop :=
  ∃ (dialect : Dialect) (m : Model) (root : Option String) (fuel : Nat) (r r' : Registry)
    (j later : Journal), m ∈ c.models ∧ name = dialect.componentName m ∧
      (nodeOf c dialect (component? c dialect fuel none) root m).outcome r j = ((.ok s, r'), later)

variable {c : Catalogue} {dialect : Dialect} {made : String → Schema → Prop}

section
variable {record : String → Registering Schema} (hrecord : ∀ name, OnlyAdds made (record name))
include hrecord

/-- What asks for one record at most adds what deriving that adds. -/
theorem AsksFor.onlyAdds {name : Option String}
    {derivation : (String → Registering Schema) → Registering Schema} (h : AsksFor name derivation) :
    OnlyAdds made (derivation record) := by
  obtain ⟨change, -, hchange⟩ := h
  rw [hchange]
  refine OnlyAdds.bind ?_ fun s => OnlyAdds.pure (change s)
  cases name with
  | none => exact OnlyAdds.pure anything
  | some name => exact hrecord name

theorem onlyAdds_propertiesOf (fields : List Descriptor) (found : List (String × Schema)) :
    OnlyAdds made (propertiesOf dialect (ofField c dialect record) fields found) := by
  induction fields generalizing found with
  | nil => exact OnlyAdds.pure found
  | cons d rest ih =>
      rw [propertiesOf]
      exact ((asksFor_ofField c dialect d).onlyAdds hrecord).bind fun s => ih _

/-- Deriving the component of a model adds what deriving the records inside adds. -/
theorem onlyAdds_nodeOf (root : Option String) (m : Model) :
    OnlyAdds made (nodeOf c dialect record root m) := by
  apply (OnlyAdds.liftM (Action.describe c m)).bind
  intro fields
  apply (onlyAdds_propertiesOf hrecord _ []).bind
  intro properties
  cases dialect with
  | json => exact OnlyAdds.pure _
  | xml => exact (OnlyAdds.ofAction _).bind fun _ => OnlyAdds.pure _

end

/-- Taking the name of a model, deriving its component and putting that adds components of models: the
placeholder is there only while the records inside are derived. -/
theorem addsTo_taken {m : Model} (hm : m ∈ c.models) {fuel : Nat} {root : Option String}
    (hinside : ∀ name, OnlyAdds (IsComponent c) (component? c dialect fuel none name))
    {r : Registry} {name : String} (hname : name = dialect.componentName m)
    (hfree : r.contains name = false) :
    AddsTo (IsComponent c) r (do
      discard (Registering.reserve name)
      Registering.put name (← nodeOf c dialect (component? c dialect fuel none) root m)
      return component name) := by
  have hnode : OnlyAdds (IsComponent c) (nodeOf c dialect (component? c dialect fuel none) root m) :=
    onlyAdds_nodeOf hinside root m
  by_cases hfrozen : r.frozen = true
  · exact AddsTo.of_frozen hfrozen name _
  have hopen : r.frozen = false := Bool.not_eq_true _ ▸ hfrozen
  have hreserve := Registering.yields_reserve hopen hfree
  constructor
  · intro j
    obtain ⟨j₁, hreserve⟩ := hreserve j
    rw [Registering.outcome_bind, hreserve]
    dsimp only
    have hkeeps := (hnode (r.withSchema name (Registry.placeholder name))).keeps j₁
    rw [Registering.outcome_bind]
    rcases hout : (nodeOf c dialect (component? c dialect fuel none) root m).outcome
      (r.withSchema name (Registry.placeholder name)) j₁ with ⟨⟨fault | node, next⟩, j₂⟩
    · rw [hout] at hkeeps
      exact (@Registry.Keeps.withSchema _ _ _ _ (.leaf (.ofType "")) hfree hkeeps).1
    · rw [hout] at hkeeps
      dsimp only
      obtain ⟨j₃, hput⟩ := Registering.yields_put (hkeeps.frozen.trans hopen) name node j₂
      rw [Registering.outcome_bind, hput]
      exact (hkeeps.withSchema hfree).2
  · intro j v r' later hdone asked s hs
    obtain ⟨_, r₁, j₁, hfirst, hdone⟩ := Registering.of_outcome_bind hdone
    obtain ⟨j₁', hreserve⟩ := hreserve j
    rw [hreserve] at hfirst
    cases hfirst
    obtain ⟨node, next, j₂, hsecond, hdone⟩ := Registering.of_outcome_bind hdone
    obtain ⟨_, r₂, j₃, hput, hdone⟩ := Registering.of_outcome_bind hdone
    cases hdone
    rw [Registry.get?_insert? (insert?_of_put hput)] at hs
    split at hs
    · rename_i hsame
      cases hs
      exact Or.inr ⟨dialect, m, root, fuel, _, _, _, _, hm, hsame.trans hname, hsecond⟩
    · rename_i hother
      rcases (hnode _).added _ _ _ _ hsecond asked s hs with hs | hmade
      · rw [Registry.get?_withSchema, if_neg hother] at hs
        exact Or.inl hs
      · exact Or.inr hmade

/-- Deriving the component of a model adds components of models. -/
theorem onlyAdds_component? (fuel : Nat) (root : Option String) (name : String) :
    OnlyAdds (IsComponent c) (component? c dialect fuel root name) := by
  induction fuel generalizing root name with
  | zero => exact OnlyAdds.pure _
  | succ fuel ih =>
      simp only [component?]
      cases hmodel : c.model? name with
      | none => exact OnlyAdds.pure _
      | some m =>
          apply OnlyAdds.get_bind
          intro r
          by_cases hthere : r.contains (dialect.componentName m) = true
          · rw [if_pos hthere]
            exact OnlyAdds.pure _ r
          · rw [if_neg hthere]
            exact addsTo_taken (List.mem_of_find?_eq_some hmodel) (ih none) rfl
              (Bool.not_eq_true _ ▸ hthere)

/-- When the component of a model was derived, it is there. -/
theorem contains_of_component? {fuel : Nat} {root : Option String} {name : String} {m : Model}
    (hmodel : c.model? name = some m) {r r' : Registry} {j later : Journal} {s : Schema}
    (hdone : (component? c dialect (fuel + 1) root name).outcome r j = ((.ok s, r'), later)) :
    r'.contains (dialect.componentName m) = true := by
  by_cases hthere : r.contains (dialect.componentName m) = true
  · have hkeeps := (@onlyAdds_component? c dialect (fuel + 1) root name r).keeps j
    rw [hdone] at hkeeps
    exact hkeeps.contains hthere
  · obtain ⟨node, hnode, -⟩ := get?_of_component? hmodel (Bool.not_eq_true _ ▸ hthere) hdone
    exact Option.isSome_iff_exists.mpr ⟨node, hnode⟩

/-- A model whose name is taken is referred to by what is there. -/
theorem yields_ofRecord_of_contains {name : String} {m : Model} (hmodel : c.model? name = some m) {r : Registry}
    (hthere : r.contains (dialect.componentName m) = true) (root : Option String) :
    Yields (ofRecord c dialect root name) r (component (dialect.componentName m)) r := by
  intro j
  refine ⟨j, ?_⟩
  simp only [ofRecord, component?, hmodel]
  rw [Registering.outcome_bind, show (get : Registering Registry).outcome r j = ((.ok r, r), j) from rfl]
  dsimp only
  rw [if_pos hthere, Registering.outcome_pure]

/-- The round of one model: its diagnostics, if they are asked for, and its component in both dialects. -/
def registerChecked (c : Catalogue) (check : Bool) (model : String) :
    Registering (ForInStep PUnit) := do
  if check then Registering.ofAction (noteDiagnostics c model)
  registerOne c model

theorem registerAll_eq (models : List String) (check : Bool) :
    registerAll c models check =
      (forIn models PUnit.unit fun model _ => registerChecked c check model) >>= fun _ =>
        Registering.freeze := by
  unfold registerAll registerChecked registerOne
  rfl

theorem onlyAdds_registerOne (model : String) : OnlyAdds (IsComponent c) (registerOne c model) := by
  have hrecord : ∀ dialect : Dialect, OnlyAdds (IsComponent c) (ofRecord c dialect none model) :=
    fun dialect => onlyAdds_component? _ none model
  have hjson : OnlyAdds (IsComponent c) (ofJson c (.record model)) :=
    (hrecord .json).bind fun _ => OnlyAdds.pure _
  exact hjson.discard.bind fun _ => (hrecord .xml).discard.bind fun _ => OnlyAdds.pure _

/-- A model that was put into the registry is there in both dialects, and another round may follow. -/
theorem contains_of_registerOne {model : String} {r r' : Registry} {j later : Journal}
    {step : ForInStep PUnit} (hdone : (registerOne c model).outcome r j = ((.ok step, r'), later)) :
    step = .yield PUnit.unit ∧ ∀ m, c.model? model = some m → ∀ dialect : Dialect,
      r'.contains (dialect.componentName m) = true := by
  obtain ⟨_, r₁, j₁, hjson, hdone⟩ := Registering.of_outcome_bind hdone
  obtain ⟨_, r₂, j₂, hxml, hdone⟩ := Registering.of_outcome_bind hdone
  cases hdone
  refine ⟨rfl, fun m hmodel dialect => ?_⟩
  obtain ⟨_, hjson⟩ := Registering.of_outcome_discard hjson
  obtain ⟨_, r₃, j₃, hjson, hnull⟩ := Registering.of_outcome_bind hjson
  cases hnull
  obtain ⟨s, hxml⟩ := Registering.of_outcome_discard hxml
  have hxml : (component? c .xml (c.models.length + 1) none model).outcome r₁ j₁ =
    ((.ok s, r'), later) := hxml
  cases dialect with
  | xml => exact contains_of_component? hmodel hxml
  | json =>
      have hkeeps := (@onlyAdds_component? c .xml (c.models.length + 1) none model r₁).keeps j₁
      rw [hxml] at hkeeps
      exact hkeeps.contains (contains_of_component? hmodel hjson)

theorem onlyAdds_registerChecked (check : Bool) (model : String) :
    OnlyAdds (IsComponent c) (registerChecked c check model) := by
  cases check with
  | true => exact (OnlyAdds.ofAction _).bind fun _ => onlyAdds_registerOne model
  | false => exact onlyAdds_registerOne model

theorem contains_of_registerChecked {check : Bool} {model : String} {r r' : Registry}
    {j later : Journal} {step : ForInStep PUnit}
    (hdone : (registerChecked c check model).outcome r j = ((.ok step, r'), later)) :
    step = .yield PUnit.unit ∧ ∀ m, c.model? model = some m → ∀ dialect : Dialect,
      r'.contains (dialect.componentName m) = true := by
  cases check with
  | true =>
      obtain ⟨_, r₁, j₁, -, hdone⟩ := Registering.of_outcome_bind
        (a := Registering.ofAction (noteDiagnostics c model)) (f := fun _ => registerOne c model) hdone
      exact contains_of_registerOne hdone
  | false => exact contains_of_registerOne hdone

theorem onlyAdds_registerEach (check : Bool) (models : List String) :
    OnlyAdds (IsComponent c)
      (forIn models PUnit.unit fun model _ => registerChecked c check model) := by
  induction models with
  | nil => exact OnlyAdds.pure _
  | cons model rest ih =>
      rw [List.forIn_cons]
      apply (onlyAdds_registerChecked check model).bind
      intro step
      cases step with
      | done _ => exact OnlyAdds.pure _
      | yield _ => exact ih

/-- Models that were put one after another are all there in the end. -/
theorem contains_of_registerEach {check : Bool} {models : List String} {r r' : Registry}
    {j later : Journal} {u : PUnit}
    (hdone : (forIn models PUnit.unit fun model _ => registerChecked c check model :
      Registering PUnit).outcome r j = ((.ok u, r'), later)) :
    ∀ model ∈ models, ∀ m, c.model? model = some m → ∀ dialect : Dialect,
      r'.contains (dialect.componentName m) = true := by
  induction models generalizing r j with
  | nil => simp
  | cons model rest ih =>
      rw [List.forIn_cons] at hdone
      obtain ⟨step, next, middle, hone, hdone⟩ := Registering.of_outcome_bind hdone
      obtain ⟨rfl, hthere⟩ := contains_of_registerChecked hone
      have hrest : (forIn rest PUnit.unit fun model _ => registerChecked c check model :
        Registering PUnit).outcome next middle = ((.ok u, r'), later) := hdone
      intro other hother m hmodel dialect
      rcases List.mem_cons.mp hother with rfl | hother
      · have hkeeps := (onlyAdds_registerEach (c := c) check rest next).keeps middle
        rw [hrest] at hkeeps
        exact hkeeps.contains (hthere m hmodel dialect)
      · exact ih hrest other hother m hmodel dialect

/-- The registry of models that a registry was filled to: nothing can be put into it any more, what was
there is there as it was, everything else is the component of a model, and the listed models have theirs
in both dialects. -/
structure IsFilled (c : Catalogue) (models : List String) (r done : Registry) : Prop where
  frozen : done.frozen = true
  kept : ∀ name s, r.get? name = some s → done.get? name = some s
  added : ∀ name s, done.get? name = some s → r.get? name = some s ∨ IsComponent c name s
  listed : ∀ model ∈ models, ∀ m, c.model? model = some m → ∀ dialect : Dialect,
    done.contains (dialect.componentName m) = true

/-- Putting models into a registry fills it, or keeps what was there when that fails. -/
theorem outcome_registerAll (c : Catalogue) (models : List String) (check : Bool) (r : Registry)
    (j : Journal) :
    ∃ result next later, (registerAll c models check).outcome r j = ((result, next), later) ∧
      ((∃ fault, result = .error fault ∧ r.Keeps next) ∨
        (result = .ok () ∧ IsFilled c models r next)) := by
  have heach := onlyAdds_registerEach (c := c) check models r
  rw [registerAll_eq, Registering.outcome_bind]
  rcases hout : (forIn models PUnit.unit fun model _ => registerChecked c check model :
    Registering PUnit).outcome r j with ⟨⟨fault | u, next⟩, later⟩
  · have hkeeps := heach.keeps j
    rw [hout] at hkeeps
    exact ⟨_, _, _, rfl, Or.inl ⟨fault, rfl, hkeeps⟩⟩
  · have hkeeps := heach.keeps j
    rw [hout] at hkeeps
    have hthere := contains_of_registerEach hout
    exact ⟨_, _, _, rfl, Or.inr ⟨rfl, rfl, hkeeps.kept, heach.added j u next later hout, hthere⟩⟩

/-- The registry of models and the given one, from what putting the models into a registry comes to. -/
theorem run_buildComponents {models : List String} {check : Bool} {r next : Registry} {j later : Journal}
    {result : Except Fault Unit}
    (hdone : (registerAll c models check).outcome (startingFrom (some r)) j = ((result, next), later)) :
    (buildComponents c models check (some r)).run j =
      ((result.map fun _ => next, some (if r.size == 0 then r else next)), later) := by
  change (let o := (registerAll c models check).outcome (startingFrom (some r)) j;
    ((o.1.1.map fun _ => o.1.2, some (if r.size == 0 then r else o.1.2)), o.2)) = _
  rw [hdone]

/-- A given registry without components is passed over for a new one. -/
theorem startingFrom_of_size_eq_zero {r : Registry} (hnone : r.size = 0) : startingFrom (some r) = Registry.empty :=
  if_pos (by simp [hnone])

theorem startingFrom_of_size_ne_zero {r : Registry} (hsome : r.size ≠ 0) : startingFrom (some r) = r :=
  if_neg (by simp [hsome])

/-- What a new registry is filled to holds all of a registry without components. -/
theorem IsFilled.of_size_eq_zero {models : List String} {r done : Registry} (hnone : r.size = 0)
    (hfilled : IsFilled c models Registry.empty done) : IsFilled c models r done := by
  have hempty : r.components = [] := List.length_eq_zero_iff.mp hnone
  refine ⟨hfilled.frozen, fun name s hs => ?_, fun name s hs => .inr ?_, hfilled.listed⟩
  · simp [Registry.get?, hempty] at hs
  · refine (hfilled.added name s hs).resolve_left ?_
    rintro ⟨⟩

/-- Building the components of models either fails, and then the given registry keeps what it held, or
gives a frozen registry that still holds all of it and the components of the listed models. That is the
given registry exactly if it held any component; a registry without components is left empty and open. -/
theorem buildComponents_fills (c : Catalogue) (models : List String) (check : Bool) {r : Registry}
    (hopen : r.frozen = false) (j : Journal) :
    ∃ result left later,
      (buildComponents c models check (some r)).run j = ((result, some left), later) ∧
        (∀ done, result = .ok done → IsFilled c models r done ∧ (left = done ↔ r.size ≠ 0)) ∧
        (∀ fault, result = .error fault → r.Keeps left) ∧ (r.size = 0 → left = r) := by
  obtain ⟨result, next, later, hdone, hends⟩ :=
    outcome_registerAll c models check (startingFrom (some r)) j
  refine ⟨_, _, later, run_buildComponents hdone, ?_⟩
  by_cases hnone : r.size = 0
  · rw [startingFrom_of_size_eq_zero hnone] at hends
    rw [if_pos (by simp [hnone])]
    refine ⟨fun done hok => ?_, fun _ _ => Registry.Keeps.refl r, fun _ => rfl⟩
    rcases hends with ⟨fault, rfl, -⟩ | ⟨rfl, hfilled⟩
    · cases hok
    obtain rfl := Except.ok.inj hok
    refine ⟨hfilled.of_size_eq_zero hnone, fun hsame => ?_, fun hsome => absurd hnone hsome⟩
    rw [hsame, hfilled.frozen] at hopen
    cases hopen
  · rw [startingFrom_of_size_ne_zero hnone] at hends
    rw [if_neg (by simp [hnone])]
    rcases hends with ⟨fault, rfl, hkeeps⟩ | ⟨rfl, hfilled⟩
    · exact ⟨fun done hok => (by cases hok), fun _ _ => hkeeps, fun hempty => absurd hempty hnone⟩
    · refine ⟨fun done hok => ?_, fun fault hfault => (by cases hfault), fun hempty => absurd hempty hnone⟩
      obtain rfl := Except.ok.inj hok
      exact ⟨hfilled, fun _ => hnone, fun _ => rfl⟩

/-- A registry that holds something else. -/
def otherRegistry : Registry := ⟨[("other", .leaf (.ofType "string"))], false⟩

/-- A registry with a component is filled: what it held is still there beside the model. -/
theorem buildComponents_fills_tree :
    otherRegistry.frozen = false ∧ otherRegistry.size ≠ 0 ∧ ∃ left later,
      (buildComponents ⟨[treeModel], []⟩ ["Tree"] true (some otherRegistry)).run Journal.empty =
          ((.ok left, some left), later) ∧
        IsFilled ⟨[treeModel], []⟩ ["Tree"] otherRegistry left ∧
        left.names = ["other", "app.Tree", "app.Tree.XML"] := by
  have hopen : otherRegistry.frozen = false := rfl
  obtain ⟨result, left, later, hrun, hok, -, -⟩ :=
    buildComponents_fills ⟨[treeModel], []⟩ ["Tree"] true hopen Journal.empty
  have hnames : ((buildComponents ⟨[treeModel], []⟩ ["Tree"] true (some otherRegistry)).run
      Journal.empty).1.1.toOption.map Registry.names = some ["other", "app.Tree", "app.Tree.XML"] := by
    decide +kernel
  rw [hrun] at hnames
  rcases result with fault | done
  · cases hnames
  obtain ⟨hfilled, hsame⟩ := hok done rfl
  have hleft : left = done := hsame.mpr (by decide)
  subst hleft
  exact ⟨hopen, by decide, left, later, hrun, hfilled, Option.some.inj hnames⟩

/-- A catalogue of one model, of a text. -/
def labelCatalogue : Catalogue := ⟨[plainModel "Label" [plainField "text" .str]], []⟩

/-- An empty registry is passed over: the models are put into another one, which is returned. -/
theorem buildComponents_passes_over_empty :
    ∃ done later, (buildComponents labelCatalogue ["Label"] false (some Registry.empty)).run Journal.empty =
        ((.ok done, some Registry.empty), later) ∧
      done.names = ["app.Label", "app.Label.XML"] ∧ done.frozen = true ∧ done ≠ Registry.empty := by
  have hleft : ((buildComponents labelCatalogue ["Label"] false (some Registry.empty)).run
      Journal.empty).1.2 = some Registry.empty := rfl
  have hdone : ((buildComponents labelCatalogue ["Label"] false (some Registry.empty)).run
      Journal.empty).1.1.toOption.map (fun r => (r.names, r.frozen)) =
        some (["app.Label", "app.Label.XML"], true) := by decide +kernel
  rcases hrun : (buildComponents labelCatalogue ["Label"] false (some Registry.empty)).run Journal.empty
    with ⟨⟨fault | done, left⟩, later⟩
  · rw [hrun] at hdone
    cases hdone
  · rw [hrun] at hdone hleft
    obtain ⟨hnames, hfrozen⟩ := Prod.mk.inj (Option.some.inj hdone)
    cases hleft
    refine ⟨done, later, rfl, hnames, hfrozen, ?_⟩
    rintro rfl
    cases hfrozen

end Schema
end Intake
