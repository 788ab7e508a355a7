import Intake.Proofs.Schema.Frozen

/-!
The components of documents of elements, read back from a derivation that came to an end. Every model that
was reached has a component; its properties are those of the fields that are not left out; each of them says
the place of its field, or refers to the component of the record that the field holds.
-/

namespace Intake

namespace Registering

variable {α β : Type} {r r' : Registry}

/-- Whether an operation comes to a value and takes a registry to another, from some journal. -/
def Runs (a : Registering α) (r : Registry) (v : α) (r' : Registry) : Prop :=
  ∃ j later, a.outcome r j = ((.ok v, r'), later)

theorem Runs.of_pure {v w : α} (h : Runs (pure v) r w r') : w = v ∧ r' = r := by
  obtain ⟨j, later, h⟩ := h
  cases h
  exact ⟨rfl, rfl⟩

theorem Runs.of_liftM {x : Except Fault α} {v : α} (h : Runs (liftM x) r v r') : x = .ok v ∧ r' = r := by
  obtain ⟨j, later, h⟩ := h
  rw [outcome_liftM] at h
  cases h
  exact ⟨rfl, rfl⟩

theorem Runs.of_ofAction {a : Action α} {v : α} (h : Runs (ofAction a) r v r') : r' = r := by
  obtain ⟨j, later, h⟩ := h
  exact (congrArg (fun o => o.1.2) h).symm

theorem Runs.of_bind {a : Registering α} {f : α → Registering β} {w : β} (h : Runs (a >>= f) r w r') :
    ∃ v next, Runs a r v next ∧ Runs (f v) next w r' := by
  obtain ⟨j, last, h⟩ := h
  obtain ⟨v, next, later, hfirst, hsecond⟩ := of_outcome_bind h
  exact ⟨v, next, ⟨j, later, hfirst⟩, later, last, hsecond⟩

theorem Runs.of_map {a : Registering α} {change : α → β} {w : β}
    (h : Runs (a >>= fun v => pure (change v)) r w r') : ∃ v, Runs a r v r' ∧ w = change v := by
  obtain ⟨v, next, hv, h⟩ := h.of_bind
  obtain ⟨rfl, rfl⟩ := h.of_pure
  exact ⟨v, hv, rfl⟩

theorem Runs.of_get_bind {f : Registry → Registering α} {v : α} (h : Runs (get >>= f) r v r') :
    Runs (f r) r v r' := h

/-- An operation that always comes to an end comes to that end. -/
theorem Runs.of_yields {a : Registering α} {v w : α} {next : Registry} (h : Runs a r v r')
    (hyields : Yields a r w next) : r' = next := by
  obtain ⟨j, later, h⟩ := h
  obtain ⟨later', hyields⟩ := hyields j
  rw [h] at hyields
  cases hyields
  rfl

/-- A free name that was taken has its placeholder. -/
theorem Runs.of_reserve {name : String} {u : Unit} (hfree : r.contains name = false)
    (h : Runs (Functor.discard (reserve name)) r u r') :
    r' = r.withSchema name (Registry.placeholder name) := by
  cases hfrozen : r.frozen with
  | false => exact h.of_yields (yields_reserve hfrozen hfree)
  | true =>
      obtain ⟨j, later, h⟩ := h
      obtain ⟨taken, h⟩ := of_outcome_discard h
      rw [outcome_reserve_of_frozen hfrozen] at h
      cases h

theorem Runs.of_put {name : String} {s : Schema} {u : Unit} (h : Runs (put name s) r u r') :
    r' = r.withSchema name s := by
  cases hfrozen : r.frozen with
  | false => exact h.of_yields (yields_put hfrozen name s)
  | true =>
      obtain ⟨j, later, h⟩ := h
      rw [outcome_put_of_frozen hfrozen] at h
      cases h

end Registering

namespace Schema

open Registering (Runs)

/-- The component that a schema is a reference to. -/
def target? : Schema → Option String
  | .reference target => some target
  | .node _ _ _ _ => none

/-- The schema of the items, where a schema says one. -/
def items? : Schema → Option Schema
  | .reference _ => none
  | .node _ _ items _ => items

/-- The place that a schema says. -/
def place? : Schema → Option XmlFacts
  | .reference _ => none
  | .node facts _ _ _ => facts.xml

@[simp] theorem target?_mapFacts (change : Facts → Facts) (s : Schema) :
    (s.mapFacts change).target? = s.target? := by
  cases s <;> rfl

@[simp] theorem items?_mapFacts (change : Facts → Facts) (s : Schema) :
    (s.mapFacts change).items? = s.items? := by
  cases s <;> rfl

@[simp] theorem target?_mapItems (change : Schema → Schema) (s : Schema) :
    (s.mapItems change).target? = s.target? := by
  cases s <;> rfl

@[simp] theorem items?_mapItems (change : Schema → Schema) (s : Schema) :
    (s.mapItems change).items? = s.items?.map change := by
  cases s <;> rfl

@[simp] theorem place?_mapItems (change : Schema → Schema) (s : Schema) :
    (s.mapItems change).place? = s.place? := by
  cases s <;> rfl

theorem place?_atPlace {s : Schema} (hnode : s.target? = none) (place : XmlFacts) :
    (atPlace place s).place? = some place := by
  cases s with
  | reference target => cases hnode
  | node facts properties items additional => rfl

end Schema

/-- The record that the items of a row are, by the type of the row. -/
def Ty.rowRecord? : Ty → Option String
  | .list item | .set _ item | .sequence item => item.unwrap.1.recordName?
  | .tuple (item :: _) => item.unwrap.1.recordName?
  | _ => none

namespace Schema

open Registering (Runs)

/-- The reference to the component of a model in documents of elements. -/
def targetOf (c : Catalogue) (name : Option String) : Option String :=
  (name.bind c.model?).map fun m => componentsPath ++ Dialect.xml.componentName m

theorem target?_referTo (c : Catalogue) (name : String) :
    (referTo c .xml name).target? = targetOf c (some name) := by
  rw [referTo, targetOf, Option.bind_some]
  cases c.model? name <;> rfl

theorem items?_referTo (c : Catalogue) (name : String) : (referTo c .xml name).items? = none := by
  rw [referTo]
  cases c.model? name <;> rfl

/-- Whether a schema refers to the record that a type is, and its items to the one that items of the type are. -/
structure RefersAs (c : Catalogue) (t : Ty) (s : Schema) : Prop where
  own : s.target? = targetOf c t.recordName?
  items : s.items?.bind target? = targetOf c t.rowRecord?

theorem RefersAs.mapFacts {c : Catalogue} {t : Ty} {s : Schema} (h : RefersAs c t s) (change : Facts → Facts) :
    RefersAs c t (s.mapFacts change) :=
  ⟨(target?_mapFacts change s).trans h.own, by rw [items?_mapFacts, h.items]⟩

/-- Places that are given to items leave the references alone. -/
theorem RefersAs.mapItems {c : Catalogue} {t : Ty} {s : Schema} (h : RefersAs c t s) (place : XmlFacts) :
    RefersAs c t (s.mapItems (atPlace place)) := by
  refine ⟨(target?_mapItems _ s).trans h.own, ?_⟩
  rw [items?_mapItems, ← h.items]
  cases s.items? with
  | none => rfl
  | some inner => exact target?_mapFacts _ inner

/-- Whether the property of a field refers to the records that the field holds, and says its place if it is no
reference itself. -/
structure IsPlaced (c : Catalogue) (d : Descriptor) (p : Schema) : Prop where
  refers : RefersAs c d.type.unwrap.1 p
  place : p.target? = none → p.place? = some (placeOf d.xmlName d.xmlAttribute)

/-- Whether a schema has the properties of the fields of a model that are not left out. -/
def IsDocument (c : Catalogue) (m : Model) (s : Schema) : Prop :=
  ∃ fields facts properties, c.describe m = .ok fields ∧ s = .node facts (some properties) none none ∧
    (∀ key, (properties.lookup key).isSome → ∃ d ∈ Dialect.xml.fieldsOf fields, d.xmlName = key) ∧
      (((Dialect.xml.fieldsOf fields).map Descriptor.xmlName).Nodup →
        ∀ d ∈ Dialect.xml.fieldsOf fields, ∃ p, properties.lookup d.xmlName = some p ∧ IsPlaced c d p)

/-- How derivation changes a registry: what is there stays, and what is new is the component of a model that is
reached, together with everything that the model leads to. -/
structure Extends (c : Catalogue) (roots : List String) (r r' : Registry) : Prop where
  keeps : r.Keeps r'
  added : ∀ name s, r'.get? name = some s → r.get? name = some s ∨ ∃ m, Reaches c .xml roots m ∧
    name = Dialect.xml.componentName m ∧ IsDocument c m s ∧ IsClosedAt c .xml r' m

/-- Whether models of given names were derived on the way from one registry to another. -/
structure Visited (c : Catalogue) (roots names : List String) (r r' : Registry) : Prop where
  extent : Extends c roots r r'
  there : ∀ name ∈ names, ∀ m, c.model? name = some m → r'.contains (Dialect.xml.componentName m) = true

variable {c : Catalogue} {roots : List String} {r r' : Registry}

theorem Extends.refl (r : Registry) : Extends c roots r r := ⟨Registry.Keeps.refl r, fun _ _ => Or.inl⟩

theorem Extends.trans {next : Registry} (hfirst : Extends c roots r next) (hsecond : Extends c roots next r') :
    Extends c roots r r' := by
  refine ⟨hfirst.keeps.trans hsecond.keeps, ?_⟩
  intro name s hs
  rcases hsecond.added name s hs with hs | hnew
  · rcases hfirst.added name s hs with hs | ⟨m, hm, hname, hdocument, hclosed⟩
    · exact Or.inl hs
    · exact Or.inr ⟨m, hm, hname, hdocument, hclosed.mono fun _ => hsecond.keeps.contains⟩
  · exact Or.inr hnew

theorem Visited.nil (r : Registry) : Visited c roots [] r r := ⟨Extends.refl r, by simp⟩

theorem Visited.append {names others : List String} {next : Registry} (hfirst : Visited c roots names r next)
    (hsecond : Visited c roots others next r') : Visited c roots (names ++ others) r r' := by
  refine ⟨hfirst.extent.trans hsecond.extent, ?_⟩
  intro name hname m hm
  rcases List.mem_append.mp hname with hname | hname
  · exact hsecond.extent.keeps.contains (hfirst.there name hname m hm)
  · exact hsecond.there name hname m hm

theorem Visited.missing_le {names : List String} (h : Visited c roots names r r') :
    missing c .xml r' ≤ missing c .xml r :=
  Schema.missing_le fun _ => h.extent.keeps.contains

/-- Whether records that are derived are visited and answered with the reference to their component, in a
registry in which there is room for the models without a name. -/
def RunsWell (c : Catalogue) (roots : List String) (record : String → Registering Schema) (room : Nat) : Prop :=
  ∀ name r s r', missing c .xml r < room → (∀ m, c.model? name = some m → Reaches c .xml roots m) →
    Runs (record name) r s r' → s = referTo c .xml name ∧ Visited c roots [name] r r'

section
variable {record : String → Registering Schema} {room : Nat}

/-- The models of given names are reached. -/
def AreReached (c : Catalogue) (roots names : List String) : Prop :=
  ∀ name ∈ names, ∀ m, c.model? name = some m → Reaches c .xml roots m

/-- The schema of a type refers to the records that the type holds. -/
theorem refersAs_of_ofType (hrecord : RunsWell c roots record room) (t : Ty) (rules : List Rule) {s : Schema}
    (hroom : missing c .xml r < room) (hreach : AreReached c roots t.leadsTo?.toList)
    (hrun : Runs (ofType c record t rules) r s r') :
    RefersAs c t.unwrap.1 s ∧ Visited c roots t.leadsTo?.toList r r' := by
  induction t using Ty.bare_induction generalizing rules s r' with
  | unwrap t ih =>
      rw [← t.leadsTo?_unwrap] at hreach ⊢
      rw [← ofType_unwrap] at hrun
      have hleft := ih rules hreach hrun
      rwa [Ty.unwrap_unwrap] at hleft
  | bare t hbare hparts =>
      rw [hbare]
      cases t with
      | annotated inner => exact absurd hbare (Ty.unwrap_ne_annotated _ inner)
      | union choices =>
          rw [ofType, ofOnly_eq_anything c record hbare] at hrun
          rw [Ty.leadsTo?, Ty.leadsToOnly?_eq_none hbare]
          obtain ⟨rfl, rfl⟩ := hrun.of_pure
          exact ⟨⟨rfl, rfl⟩, Visited.nil _⟩
      | record name =>
          simp only [ofType, Ty.leadsTo?] at hrun hreach ⊢
          obtain ⟨rfl, hvisited⟩ :=
            hrecord name r s r' hroom (hreach name (List.mem_singleton_self name)) hrun
          refine ⟨⟨target?_referTo c name, ?_⟩, hvisited⟩
          rw [items?_referTo]
          rfl
      | list item | set _ item | sequence item =>
          simp only [ofType, Ty.leadsTo?] at hrun hreach ⊢
          obtain ⟨inner, hitem, rfl⟩ := hrun.of_map
          obtain ⟨hrefers, hvisited⟩ := hparts item (List.mem_singleton_self item) _ hreach hitem
          exact ⟨⟨rfl, hrefers.own⟩, hvisited⟩
      | tuple items =>
          simp only [ofType, Ty.leadsTo?] at hrun hreach ⊢
          obtain ⟨inner, hitem, rfl⟩ := hrun.of_map
          cases items with
          | nil =>
              obtain ⟨rfl, rfl⟩ := hitem.of_pure
              exact ⟨⟨rfl, rfl⟩, Visited.nil _⟩
          | cons first rest =>
              simp only [ofFirst, Ty.leadsToFirst?] at hitem hreach ⊢
              obtain ⟨hrefers, hvisited⟩ := hparts first List.mem_cons_self _ hreach hitem
              exact ⟨⟨rfl, hrefers.own⟩, hvisited⟩
      | dict key item =>
          simp only [ofType, Ty.leadsTo?] at hrun hreach ⊢
          obtain ⟨inner, hitem, rfl⟩ := hrun.of_map
          obtain ⟨-, hvisited⟩ := hparts item (by simp [Ty.madeOf]) _ hreach hitem
          exact ⟨⟨rfl, rfl⟩, hvisited⟩
      | _ =>
          obtain ⟨rfl, rfl⟩ := hrun.of_pure
          exact ⟨⟨rfl, rfl⟩, Visited.nil _⟩

/-- The property of a field in a document of elements is at the place of the field. -/
theorem isPlaced_of_ofField (hrecord : RunsWell c roots record room) {d : Descriptor} {p : Schema}
    (hroom : missing c .xml r < room) (hreach : AreReached c roots d.type.leadsTo?.toList)
    (hrun : Runs (ofField c .xml record d) r p r') :
    IsPlaced c d p ∧ Visited c roots d.type.leadsTo?.toList r r' := by
  obtain ⟨derived, next, hderive, hrun⟩ := hrun.of_bind
  obtain ⟨s, htype, rfl⟩ := hderive.of_map
  obtain ⟨hrefers, hvisited⟩ := refersAs_of_ofType hrecord d.type d.rules hroom hreach htype
  have hnull : RefersAs c d.type.unwrap.1 (orNull d.type.unwrap.2 s) := by
    rw [orNull]
    split
    · exact hrefers.mapFacts _
    · exact hrefers
  have hplaced : ∀ described, RefersAs c d.type.unwrap.1 described →
      IsPlaced c d ((atPlace (placeOf d.xmlName d.xmlAttribute) described).mapItems
        (atPlace (placeOf d.xmlName false))) := by
    intro described hdescribed
    refine ⟨(hdescribed.mapFacts _).mapItems _, fun hnode => ?_⟩
    rw [target?_mapItems, atPlace, target?_mapFacts] at hnode
    rw [place?_mapItems, place?_atPlace hnode]
  cases hdescription : nonEmpty d.description with
  | none =>
      simp only [hdescription] at hrun
      obtain ⟨rfl, rfl⟩ := hrun.of_pure
      exact ⟨hplaced _ hnull, hvisited⟩
  | some text =>
      simp only [hdescription] at hrun
      obtain ⟨rfl, rfl⟩ := hrun.of_pure
      exact ⟨hplaced _ (hnull.mapFacts _), hvisited⟩

/-- The properties of a record are put one after the other, each at the place of its field. -/
theorem isPlaced_of_propertiesOf (hrecord : RunsWell c roots record room) {fields : List Descriptor}
    {found properties : List (String × Schema)} (hroom : missing c .xml r < room)
    (hreach : AreReached c roots (namesInside fields))
    (hrun : Runs (propertiesOf .xml (ofField c .xml record) fields found) r properties r') :
    Visited c roots (namesInside fields) r r' ∧
      (∀ key, (∀ d ∈ fields, d.xmlName ≠ key) → properties.lookup key = found.lookup key) ∧
      ((fields.map Descriptor.xmlName).Nodup →
        ∀ d ∈ fields, ∃ p, properties.lookup d.xmlName = some p ∧ IsPlaced c d p) := by
  induction fields generalizing found r with
  | nil =>
      obtain ⟨rfl, rfl⟩ := hrun.of_pure
      exact ⟨Visited.nil _, fun _ _ => rfl, by simp⟩
  | cons d rest ih =>
      obtain ⟨p, next, hfield, hrest⟩ := hrun.of_bind
      rw [namesInside_cons] at hreach ⊢
      obtain ⟨hplaced, hfirst⟩ := isPlaced_of_ofField hrecord hroom
        (fun name hname => hreach name (List.mem_append_left _ hname)) hfield
      obtain ⟨hlater, hother, hall⟩ := ih (Nat.lt_of_le_of_lt hfirst.missing_le hroom)
        (fun name hname => hreach name (List.mem_append_right _ hname)) hrest
      refine ⟨hfirst.append hlater, ?_, ?_⟩
      · intro key hkey
        rw [hother key fun e he => hkey e (List.mem_cons_of_mem d he)]
        exact Registry.lookup_putInto_of_ne p found (hkey d List.mem_cons_self).symm
      · intro hnodup e he
        rw [List.map_cons, List.nodup_cons] at hnodup
        rcases List.mem_cons.mp he with rfl | he
        · refine ⟨p, ?_, hplaced⟩
          rw [hother e.xmlName fun d hd hsame => hnodup.1 (List.mem_map.mpr ⟨d, hd, hsame⟩)]
          exact Registry.lookup_putInto_self e.xmlName p found
        · exact hall hnodup.2 e he

/-- The component of a model is its document, derived with everything that the model leads to. -/
theorem isDocument_of_nodeOf (hrecord : RunsWell c roots record room) {root : Option String} {m : Model}
    (hm : Reaches c .xml roots m) {s : Schema} (hroom : missing c .xml r < room)
    (hrun : Runs (nodeOf c .xml record root m) r s r') :
    IsDocument c m s ∧ Extends c roots r r' ∧ IsClosedAt c .xml r' m := by
  obtain ⟨fields, first, hdescribe, hrest⟩ := hrun.of_bind
  obtain ⟨hdescribed, rfl⟩ := hdescribe.of_liftM
  have hfields := Action.of_describe_eq_ok hdescribed
  obtain ⟨properties, next, hproperties, hexample⟩ := hrest.of_bind
  obtain ⟨sample, last, hsample, hnode⟩ := hexample.of_bind
  obtain rfl := hsample.of_ofAction
  obtain ⟨rfl, rfl⟩ := hnode.of_pure
  have hreach : AreReached c roots (namesInside (Dialect.xml.fieldsOf fields)) := by
    intro name hname inner hinner
    obtain ⟨d, hd, hleads⟩ := mem_namesInside.mp hname
    exact hm.field hfields hd hleads hinner
  obtain ⟨hvisited, hother, hall⟩ := isPlaced_of_propertiesOf hrecord hroom hreach hproperties
  refine ⟨⟨fields, _, properties, hfields, rfl, ?_, hall⟩, hvisited.extent, ?_⟩
  · intro key hkey
    by_contra hnone
    rw [hother key fun d hd hsame => hnone ⟨d, hd, hsame⟩] at hkey
    cases hkey
  · intro fields' hfields' name hname inner hinner
    rw [hfields] at hfields'
    cases hfields'
    exact hvisited.there name hname inner hinner

end

/-- What is derived between taking the name of a model and putting its component. -/
theorem Extends.of_between {m : Model} {s : Schema} (hm : Reaches c .xml roots m) (hdocument : IsDocument c m s)
    (hfree : r.contains (Dialect.xml.componentName m) = false)
    (hextends : Extends c roots (r.withSchema (Dialect.xml.componentName m)
      (Registry.placeholder (Dialect.xml.componentName m))) r') (hclosed : IsClosedAt c .xml r' m) :
    Extends c roots r (r'.withSchema (Dialect.xml.componentName m) s) := by
  have hmore : ∀ name, r'.contains name = true →
      (r'.withSchema (Dialect.xml.componentName m) s).contains name = true :=
    fun name hname => Registry.contains_withSchema (Or.inr hname)
  refine ⟨(hextends.keeps.withSchema hfree).2, ?_⟩
  intro name node hnode
  rw [Registry.get?_withSchema] at hnode
  split at hnode
  · rename_i hname
    cases hnode
    exact Or.inr ⟨m, hm, hname, hdocument, hclosed.mono hmore⟩
  · rename_i hother
    rcases hextends.added name node hnode with hnode | ⟨inner, hinner, hname, hnode, hclosed'⟩
    · rw [Registry.get?_withSchema, if_neg hother] at hnode
      exact Or.inl hnode
    · exact Or.inr ⟨inner, hinner, hname, hnode, hclosed'.mono hmore⟩

/-- One round of deriving a component, if the rounds inside run well. -/
theorem visited_of_component? {fuel : Nat} (hinner : RunsWell c roots (component? c .xml fuel none) fuel)
    {root : Option String} {name : String} {s : Schema} (hroom : missing c .xml r < fuel + 1)
    (hreach : ∀ m, c.model? name = some m → Reaches c .xml roots m)
    (hrun : Runs (component? c .xml (fuel + 1) root name) r s r') :
    s = referTo c .xml name ∧ Visited c roots [name] r r' := by
  simp only [component?] at hrun
  cases hmodel : c.model? name with
  | none =>
      rw [hmodel] at hrun
      obtain ⟨rfl, rfl⟩ := hrun.of_pure
      exact ⟨by rw [referTo, hmodel], Extends.refl _, by simp [hmodel]⟩
  | some m =>
      rw [hmodel] at hrun
      replace hrun := hrun.of_get_bind
      rw [referTo, hmodel]
      by_cases hthere : r.contains (Dialect.xml.componentName m) = true
      · rw [if_pos hthere] at hrun
        obtain ⟨rfl, rfl⟩ := hrun.of_pure
        exact ⟨rfl, Extends.refl _, by simp [hmodel, hthere]⟩
      · rw [if_neg hthere] at hrun
        have hfree : r.contains (Dialect.xml.componentName m) = false := Bool.not_eq_true _ ▸ hthere
        have hfewer := missing_withSchema_lt (List.mem_of_find?_eq_some hmodel) hfree
          (Registry.placeholder (Dialect.xml.componentName m))
        obtain ⟨_, next, hreserve, hrun⟩ := hrun.of_bind
        obtain rfl := hreserve.of_reserve hfree
        obtain ⟨node, last, hnode, hrun⟩ := hrun.of_bind
        obtain ⟨_, final, hput, hrun⟩ := hrun.of_bind
        obtain rfl := hput.of_put
        obtain ⟨rfl, rfl⟩ := hrun.of_pure
        obtain ⟨hdocument, hextends, hclosed⟩ := isDocument_of_nodeOf hinner (hreach m hmodel)
          (Nat.lt_of_lt_of_le hfewer (Nat.le_of_lt_succ hroom)) hnode
        refine ⟨rfl, Extends.of_between (hreach m hmodel) hdocument hfree hextends hclosed, ?_⟩
        intro asked hasked m' hm'
        rw [List.mem_singleton.mp hasked, hmodel] at hm'
        cases hm'
        exact Registry.contains_withSchema (Or.inl rfl)

/-- Deriving a component visits the model and all that it leads to: as many rounds as there are models without a
name are enough. -/
theorem runsWell_component? (fuel : Nat) : RunsWell c roots (component? c .xml fuel none) fuel := by
  induction fuel with
  | zero => exact fun name r s r' hroom => absurd hroom (Nat.not_lt_zero _)
  | succ fuel ih => exact fun name r s r' hroom hreach hrun => visited_of_component? ih hroom hreach hrun

/-- Where the components of the models that are reached have different names, a fresh registry into which a model
was derived holds the document of each of them. -/
theorem isDocument_of_ofXml {name : String} {root : Option String}
    {s : Schema} (hrun : Runs (ofXml c (.record name) root) Registry.empty s r)
    (hdistinct : ∀ m m', Reaches c .xml [name] m → Reaches c .xml [name] m' →
      Dialect.xml.componentName m = Dialect.xml.componentName m' → m = m') {inner : Model}
    (hinner : Reaches c .xml [name] inner) :
    ∃ node, r.get? (Dialect.xml.componentName inner) = some node ∧ IsDocument c inner node := by
  obtain ⟨-, hvisited⟩ := visited_of_component? (runsWell_component? c.models.length)
    (missing_lt c .xml Registry.empty) (fun m hm => Reaches.root (List.mem_singleton_self name) hm) hrun
  have hfound : ∀ {m}, Reaches c .xml [name] m → r.contains (Dialect.xml.componentName m) = true →
      ∃ node, r.get? (Dialect.xml.componentName m) = some node ∧ IsDocument c m node ∧
        IsClosedAt c .xml r m := by
    intro m hm hthere
    obtain ⟨node, hnode⟩ := Option.isSome_iff_exists.mp hthere
    rcases hvisited.extent.added _ node hnode with hnone | ⟨m', hm', hsame, hdocument, hclosed⟩
    · cases hnone
    · obtain rfl := hdistinct m m' hm hm' hsame
      exact ⟨node, hnode, hdocument, hclosed⟩
  have hall : r.contains (Dialect.xml.componentName inner) = true := by
    induction hinner with
    | root hroot hm => exact hvisited.there _ hroot _ hm
    | field hm hfields hd hname hnext ih =>
        obtain ⟨_, _, _, hclosed⟩ := hfound hm ih
        exact hclosed _ hfields _ (mem_namesInside.mpr ⟨_, hd, hname⟩) _ hnext
  obtain ⟨node, hnode, hdocument, -⟩ := hfound hinner hall
  exact ⟨node, hnode, hdocument⟩

end Schema
end Intake
