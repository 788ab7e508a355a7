import Intake.Schema.Registry

/-!
What operations come to. An operation on the journal, or on the registry and the journal, is a function
of the state that it starts from; here its outcome is that function's value, and the outcome of each
way to put operations together is read off those of the parts. An operation without a state is its own
outcome.
-/

namespace Intake

variable {α β ε : Type}

@[simp] theorem ok_bind (v : α) (f : α → Except ε β) : (Except.ok v >>= f) = f v := rfl

@[simp] theorem map_ok (f : α → β) (v : α) : f <$> (Except.ok v : Except ε α) = .ok (f v) := rfl

@[simp] theorem pure_eq_ok (v : α) : (pure v : Except ε α) = .ok v := rfl

/-- A traversal that never fails collects what it finds. -/
theorem filterMapM_of_forall {f : α → Except ε (Option β)} {g : α → Option β} {xs : List α}
    (hall : ∀ x ∈ xs, f x = .ok (g x)) : xs.filterMapM f = .ok (xs.filterMap g) := by
  induction xs with
  | nil => rfl
  | cons x rest ih =>
      rw [List.filterMapM_cons, hall x List.mem_cons_self, ok_bind, ih fun y hy => hall y (List.mem_cons_of_mem x hy)]
      cases hg : g x <;> simp [hg]

theorem filterMapM_map {γ : Type} (h : γ → α) (f : α → Except ε (Option β)) (xs : List γ) :
    (xs.map h).filterMapM f = xs.filterMapM fun x => f (h x) := by
  induction xs with
  | nil => rfl
  | cons x rest ih => rw [List.map_cons, List.filterMapM_cons, List.filterMapM_cons, ih]

/-- A fold that never fails is the fold of what its steps come to. -/
theorem foldlM_of_forall {f : β → α → Except ε β} {g : β → α → β} {xs : List α}
    (hall : ∀ x ∈ xs, ∀ b, f b x = .ok (g b x)) (b : β) : xs.foldlM f b = .ok (xs.foldl g b) := by
  induction xs generalizing b with
  | nil => rfl
  | cons x rest ih =>
      rw [List.foldlM_cons, hall x List.mem_cons_self, ok_bind, ih fun y hy => hall y (List.mem_cons_of_mem x hy)]
      rfl

theorem mapM_of_forall {f : α → Except ε β} {g : α → β} {xs : List α} (hall : ∀ x ∈ xs, f x = .ok (g x)) :
    xs.mapM f = .ok (xs.map g) := by
  induction xs with
  | nil => rfl
  | cons x rest ih =>
      rw [List.mapM_cons, hall x List.mem_cons_self, ih fun y hy => hall y (List.mem_cons_of_mem x hy)]
      rfl

/-- A traversal whose steps come to what others do, changed, comes to what they do, changed. -/
theorem mapM_map_of_forall {γ δ : Type} {f : α → Except ε β} {g : γ → Except ε δ} {change : α → γ}
    {result : β → δ} {xs : List α} (hall : ∀ x ∈ xs, g (change x) = (f x).map result) :
    (xs.map change).mapM g = (xs.mapM f).map (List.map result) := by
  induction xs with
  | nil => rfl
  | cons x rest ih =>
      rw [List.map_cons, List.mapM_cons, List.mapM_cons, hall x List.mem_cons_self,
        ih fun y hy => hall y (List.mem_cons_of_mem x hy)]
      cases f x with
      | error e => rfl
      | ok y => cases rest.mapM f <;> rfl

theorem exists_mapM {f : α → Except ε β} {xs : List α} (hall : ∀ x ∈ xs, ∃ y, f x = .ok y) :
    ∃ ys, xs.mapM f = .ok ys := by
  induction xs with
  | nil => exact ⟨[], rfl⟩
  | cons x rest ih =>
      obtain ⟨y, hy⟩ := hall x List.mem_cons_self
      obtain ⟨ys, hys⟩ := ih fun z hz => hall z (List.mem_cons_of_mem x hz)
      refine ⟨y :: ys, ?_⟩
      rw [List.mapM_cons, hy, hys]
      rfl

/-- What comes of a result by a function comes of a result. -/
theorem exists_of_map_eq_ok {f : α → β} {x : Except ε α} {y : β} (h : x.map f = .ok y) :
    ∃ v, x = .ok v ∧ f v = y := by
  cases x with
  | ok v => exact ⟨v, rfl, Except.ok.inj h⟩
  | error e => cases h

theorem exists_of_bind_eq_ok {f : α → Except ε β} {x : Except ε α} {y : β} (h : x.bind f = .ok y) :
    ∃ v, x = .ok v ∧ f v = .ok y := by
  cases x with
  | ok v => exact ⟨v, rfl, h⟩
  | error e => cases h

/-- Where every step of a traversal comes to something, what it comes to is a function of the item. -/
theorem exists_values_of_mapM {γ : Type} [Inhabited β] {x : α → Except ε β} {change : α → β → γ} {xs : List α}
    {ys : List γ} (h : (xs.mapM fun a => (x a).map (change a)) = .ok ys) :
    ∃ values : α → β, ys = xs.map (fun a => change a (values a)) ∧ ∀ a ∈ xs, x a = .ok (values a) := by
  have hall : ∀ a ∈ xs, ∃ b, x a = .ok b := by
    induction xs generalizing ys with
    | nil => exact List.forall_mem_nil _
    | cons a rest ih =>
        rw [List.mapM_cons] at h
        obtain ⟨b, hb, h⟩ := exists_of_bind_eq_ok h
        obtain ⟨bs, hbs, -⟩ := exists_of_bind_eq_ok h
        obtain ⟨w, hw, -⟩ := exists_of_map_eq_ok hb
        exact List.forall_mem_cons.mpr ⟨⟨w, hw⟩, ih hbs⟩
  let values a := ((x a).toOption).getD default
  have hvalues : ∀ a ∈ xs, x a = .ok (values a) := by
    intro a ha
    obtain ⟨b, hb⟩ := hall a ha
    simp only [values, hb, Except.toOption, Option.getD_some]
  have hmade : (xs.mapM fun a => (x a).map (change a)) = .ok (xs.map fun a => change a (values a)) :=
    mapM_of_forall fun a ha => by rw [hvalues a ha, Except.map]
  exact ⟨values, Except.ok.inj (h.symm.trans hmade), hvalues⟩

/-- Nothing is left of what is gone through if a step fails. -/
theorem exists_of_filterMapM_eq_ok {f : α → Except ε (Option β)} {xs : List α} {ys : List β}
    (h : xs.filterMapM f = .ok ys) : ∀ x ∈ xs, ∃ found, f x = .ok found := by
  induction xs generalizing ys with
  | nil => exact List.forall_mem_nil _
  | cons x rest ih =>
      rw [List.filterMapM_cons] at h
      obtain ⟨found, hfound, h⟩ := exists_of_bind_eq_ok h
      refine List.forall_mem_cons.mpr ⟨⟨found, hfound⟩, ?_⟩
      cases found with
      | none => exact ih h
      | some y =>
          obtain ⟨others, hothers, -⟩ := exists_of_bind_eq_ok h
          exact ih hothers

/-- What is found item by item is the same, if it is for every item. -/
theorem filterMapM_congr {f g : α → Except ε (Option β)} {xs : List α} (h : ∀ x ∈ xs, f x = g x) :
    xs.filterMapM f = xs.filterMapM g := by
  induction xs with
  | nil => rfl
  | cons x rest ih =>
      rw [List.filterMapM_cons, List.filterMapM_cons, h x List.mem_cons_self,
        ih fun y hy => h y (List.mem_cons_of_mem x hy)]

/-- What is found beside the items that are gone through, where each has it once or not at all. -/
theorem flatMap_of_filterMapM {γ : Type} {f : α → Except ε (Option (β × List γ))} {g : α → Option γ}
    (hstep : ∀ x found, f x = .ok found → found.toList.flatMap Prod.snd = (g x).toList) {xs : List α}
    {ys : List (β × List γ)} (h : xs.filterMapM f = .ok ys) : ys.flatMap Prod.snd = xs.filterMap g := by
  induction xs generalizing ys with
  | nil =>
      cases h
      rfl
  | cons x rest ih =>
      rw [List.filterMapM_cons] at h
      obtain ⟨found, hfound, h⟩ := exists_of_bind_eq_ok h
      have hx := hstep x found hfound
      cases found with
      | none =>
          have hnone : g x = none := by simpa using hx.symm
          rw [List.filterMap_cons_none hnone]
          exact ih h
      | some y =>
          obtain ⟨others, hothers, h⟩ := exists_of_bind_eq_ok h
          cases h
          rw [List.flatMap_cons, ih hothers, show y.2 = (g x).toList by simpa using hx]
          cases hg : g x <;> simp [hg]

section Moved

variable {α' β' γ : Type}

/-- What comes after a result that is moved is moved, if it is so after every result. -/
theorem bind_eq_map_of_forall {x : Except ε α'} {y : Except ε α} {move : α → α'} {f : α' → Except ε β'}
    {g : α → Except ε β} {move' : β → β'} (hx : x = y.map move) (hf : ∀ v, f (move v) = (g v).map move') :
    (x >>= f) = (y >>= g).map move' := by
  rw [hx]
  cases y with
  | error fault => rfl
  | ok v => exact hf v

/-- What comes after one and the same result. -/
theorem bind_eq_map {x : Except ε α} {f : α → Except ε β'} {g : α → Except ε β} {move : β → β'}
    (hf : ∀ v, f v = (g v).map move) : (x >>= f) = (x >>= g).map move := by
  cases x with
  | error fault => rfl
  | ok v => exact hf v

/-- Going through what is left of the items is going through the items, where nothing comes of the others. -/
theorem filterMapM_filterMap (left : α → Option β) (f : β → Except ε (Option γ)) (xs : List α) :
    (xs.filterMap left).filterMapM f =
      xs.filterMapM fun x => match left x with
        | some y => f y
        | none => pure none := by
  induction xs with
  | nil => rfl
  | cons x rest ih =>
      rw [List.filterMap_cons, List.filterMapM_cons]
      cases hleft : left x with
      | none => exact ih
      | some y => rw [List.filterMapM_cons, ih]

/-- Where what is found in every item is moved, all that is found is. -/
theorem filterMapM_map_of_forall {f : α → Except ε (Option β')} {g : α → Except ε (Option β)} {move : β → β'}
    (hstep : ∀ x, f x = (g x).map (Option.map move)) (xs : List α) :
    xs.filterMapM f = (xs.filterMapM g).map (List.map move) := by
  induction xs with
  | nil => rfl
  | cons x rest ih =>
      rw [List.filterMapM_cons, List.filterMapM_cons]
      refine bind_eq_map_of_forall (hstep x) fun found => ?_
      cases found with
      | none => exact ih
      | some v => exact bind_eq_map_of_forall ih fun _ => rfl

end Moved

namespace Action

/-- What an operation comes to from a journal, and the journal that it leaves. -/
def outcome (a : Action α) (j : Journal) : Except Fault α × Journal := Id.run ((ExceptT.run a).run j)

@[simp] theorem outcome_pure (v : α) (j : Journal) : (pure v : Action α).outcome j = (.ok v, j) := rfl

@[simp] theorem outcome_liftM (x : Except Fault α) (j : Journal) :
    (liftM x : Action α).outcome j = (x, j) := rfl

/-- What the fields of a model say is told where they say anything. -/
theorem describe_eq_ok {c : Catalogue} {m : Model} {fields : List Descriptor} (hfields : c.describe m = .ok fields) :
    describe c m = .ok fields := by
  rw [describe, hfields]
  rfl

theorem of_describe_eq_ok {c : Catalogue} {m : Model} {fields : List Descriptor}
    (hfields : describe c m = .ok fields) : c.describe m = .ok fields := by
  cases hdescribe : c.describe m with
  | ok _ =>
      rw [describe, hdescribe] at hfields
      rw [Except.ok.inj hfields]
  | error _ =>
      rw [describe, hdescribe] at hfields
      cases hfields

/-- The second operation starts from the journal of the first, unless that fails. -/
theorem outcome_bind (a : Action α) (f : α → Action β) (j : Journal) :
    (a >>= f).outcome j =
      match a.outcome j with
      | (.ok v, later) => (f v).outcome later
      | (.error fault, later) => (.error fault, later) := by
  simp only [outcome, ExceptT.run_bind, StateT.run_bind]
  generalize (ExceptT.run a).run j = x
  obtain ⟨v | fault, later⟩ := x <;> rfl

/-- Two operations that succeed in a row succeed one by one. -/
theorem of_outcome_bind {a : Action α} {f : α → Action β} {j last : Journal} {w : β}
    (hboth : (a >>= f).outcome j = (.ok w, last)) :
    ∃ v later, a.outcome j = (.ok v, later) ∧ (f v).outcome later = (.ok w, last) := by
  rw [outcome_bind] at hboth
  rcases hfirst : a.outcome j with ⟨fault | v, later⟩
  · simp [hfirst] at hboth
  · exact ⟨v, later, rfl, by simpa [hfirst] using hboth⟩

/-- The second operation starts from the journal that the first leaves when it fails, and else is not needed. -/
theorem outcome_tryCatch (a : Action α) (handle : Fault → Action α) (j : Journal) :
    (tryCatch a handle : Action α).outcome j =
      match a.outcome j with
      | (.ok v, later) => (.ok v, later)
      | (.error fault, later) => (handle fault).outcome later := by
  simp only [outcome, tryCatch, tryCatchThe, MonadExceptOf.tryCatch, ExceptT.tryCatch, ExceptT.run_mk,
    StateT.run_bind]
  simp only [ExceptT.run]
  generalize StateT.run a j = x
  obtain ⟨fault | v, later⟩ := x <;> rfl

/-- An operation that comes to an end, whatever was noted before, with something of a kind. -/
def Ends (post : α → Prop) (a : Action α) : Prop := ∀ j, ∃ v later, a.outcome j = (.ok v, later) ∧ post v

section Ends

variable {post : α → Prop} {a : Action α}

theorem ends_pure {v : α} (hv : post v) : Ends post (pure v) := fun j => ⟨v, j, rfl, hv⟩

theorem ends_liftM {x : Except Fault α} {v : α} (hx : x = .ok v) : Ends (· = v) (liftM x : Action α) := by
  intro j
  exact ⟨v, j, by rw [outcome_liftM, hx], rfl⟩

theorem Ends.bind {f : α → Action β} {post' : β → Prop} (ha : Ends post a) (hf : ∀ v, post v → Ends post' (f v)) :
    Ends post' (a >>= f) := by
  intro j
  obtain ⟨v, middle, hv, hpost⟩ := ha j
  rw [outcome_bind, hv]
  exact hf v hpost middle

theorem Ends.mono {post' : α → Prop} (ha : Ends post a) (hpost : ∀ v, post v → post' v) : Ends post' a := by
  intro j
  obtain ⟨v, later, hv, h⟩ := ha j
  exact ⟨v, later, hv, hpost v h⟩

theorem ends_tryCatch {handle : Fault → Action α} (ha : Ends post a) : Ends post (tryCatch a handle) := by
  intro j
  obtain ⟨v, later, hv, hpost⟩ := ha j
  rw [outcome_tryCatch, hv]
  exact ⟨v, later, rfl, hpost⟩

theorem ends_note (level : Level) (event : String) (details : List (String × Value)) :
    Ends (fun _ => True) (note level event details) := fun _ => ⟨(), _, rfl, trivial⟩

end Ends

/-- An operation that fails, whatever was noted before. -/
def Fails (a : Action α) : Prop := ∀ j, ∃ fault later, a.outcome j = (.error fault, later)

theorem Fails.bind {a : Action α} (ha : Fails a) (f : α → Action β) : Fails (a >>= f) := by
  intro j
  obtain ⟨fault, later, hfault⟩ := ha j
  exact ⟨fault, later, by rw [outcome_bind, hfault]⟩

theorem fails_throw (fault : Fault) : Fails (throw fault : Action α) := fun j => ⟨fault, j, rfl⟩

/-- What is done after a failure comes to an end, if what it is done with does. -/
theorem ends_tryCatch_of_fails {post : α → Prop} {a : Action α} {handle : Fault → Action α} (ha : Fails a)
    (hhandle : ∀ fault, Ends post (handle fault)) : Ends post (tryCatch a handle) := by
  intro j
  obtain ⟨fault, later, hfault⟩ := ha j
  rw [outcome_tryCatch, hfault]
  exact hhandle fault later

end Action

namespace Registering

/-- What an operation comes to from a registry and a journal, and those that it leaves. -/
def outcome (a : Registering α) (r : Registry) (j : Journal) :
    (Except Fault α × Registry) × Journal :=
  Id.run (((ExceptT.run a).run r).run j)

@[simp] theorem outcome_pure (v : α) (r : Registry) (j : Journal) :
    (pure v : Registering α).outcome r j = ((.ok v, r), j) := rfl

@[simp] theorem outcome_liftM (x : Except Fault α) (r : Registry) (j : Journal) :
    (liftM x : Registering α).outcome r j = ((x, r), j) := rfl

/-- An operation that does not touch the registry leaves it as it was, even if it fails. -/
@[simp] theorem outcome_ofAction (a : Action α) (r : Registry) (j : Journal) :
    (ofAction a).outcome r j = (((a.outcome j).1, r), (a.outcome j).2) := rfl

/-- The second operation starts from what the first leaves, unless that fails. -/
theorem outcome_bind (a : Registering α) (f : α → Registering β) (r : Registry) (j : Journal) :
    (a >>= f).outcome r j =
      match a.outcome r j with
      | ((.ok v, next), later) => (f v).outcome next later
      | ((.error fault, next), later) => ((.error fault, next), later) := by
  simp only [outcome, ExceptT.run_bind, StateT.run_bind]
  generalize ((ExceptT.run a).run r).run j = x
  obtain ⟨⟨v | fault, next⟩, later⟩ := x <;> rfl

/-- Two operations that succeed in a row succeed one by one. -/
theorem of_outcome_bind {a : Registering α} {f : α → Registering β} {r final : Registry}
    {j last : Journal} {w : β} (hboth : (a >>= f).outcome r j = ((.ok w, final), last)) :
    ∃ v next later, a.outcome r j = ((.ok v, next), later) ∧
      (f v).outcome next later = ((.ok w, final), last) := by
  rw [outcome_bind] at hboth
  rcases hfirst : a.outcome r j with ⟨⟨fault | v, next⟩, later⟩
  · simp [hfirst] at hboth
  · exact ⟨v, next, later, rfl, by simpa [hfirst] using hboth⟩

/-- Going on from a result that was changed is going on from the result, if the same follows. -/
theorem liftM_map_bind {γ : Type} {x : Except Fault α} {change : α → β} {f : β → Registering γ}
    {g : α → Registering γ} (hsame : ∀ v, x = .ok v → f (change v) = g v) :
    ((liftM (x.map change) : Registering β) >>= f) = (liftM x : Registering α) >>= g := by
  cases x with
  | error fault => rfl
  | ok v => exact hsame v rfl

/-- Why an operation cannot go on, if it cannot. -/
def fault? (a : Registering α) (r : Registry) (j : Journal) : Option Fault :=
  match (a.outcome r j).1.1 with
  | .ok _ => none
  | .error fault => some fault

theorem fault?_eq_none_iff {a : Registering α} {r : Registry} {j : Journal} :
    a.fault? r j = none ↔ ∃ v r' later, a.outcome r j = ((.ok v, r'), later) := by
  rcases hout : a.outcome r j with ⟨⟨fault | v, r'⟩, later⟩ <;> simp [fault?, hout]

theorem fault?_eq_some_iff {a : Registering α} {r : Registry} {j : Journal} {fault : Fault} :
    a.fault? r j = some fault ↔ ∃ r' later, a.outcome r j = ((.error fault, r'), later) := by
  rcases hout : a.outcome r j with ⟨⟨other | v, r'⟩, later⟩ <;> simp [fault?, hout]

end Registering
end Intake
