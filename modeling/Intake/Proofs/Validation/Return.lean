import Intake.Proofs.Model.Description
import Intake.Proofs.Validation.Safety
import Intake.Validation.Record

/-!
Validation that comes to an end. Where every field of a record, and of the records inside it, holds what suits
it, and none of its rules fails on that, validation returns its errors.
-/

namespace Intake.Validation

variable {α β : Type} {c : Catalogue}

/-! ### Records -/

/-- What a record holds for a field. -/
def held (attributes : List (String × Value)) (d : Descriptor) : Value :=
  (Value.attribute? attributes d.name).getD .null

/-- A record that is validated with the record around it: the value of a field that is a record, or an item of
one that is an array of records. -/
def IsWithin (d : Descriptor) (v x : Value) : Prop :=
  (∃ name attributes, x = .record name attributes) ∧
    ((d.kind = .record ∧ x = v) ∨
      (d.kind = .array ∧ d.elementKind = some .record ∧ ∃ xs, v.items? = some xs ∧ x ∈ xs))

/-- A record of a known model, whose fields hold what suits them, and so do those of the records inside it. -/
inductive IsTyped (c : Catalogue) : Value → Prop where
  | record {name : String} {m : Model} {fields : List Descriptor} {attributes : List (String × Value)}
      (hm : c.model? name = some m) (hfields : c.describe m = .ok fields)
      (hsuits : ∀ d ∈ fields, Suits d (held attributes d))
      (hwithin : ∀ d ∈ fields, ∀ x, IsWithin d (held attributes d) x → IsTyped c x) :
      IsTyped c (.record name attributes)

/-- A field of a record, or of a record inside it, and what it holds. -/
inductive Visits (c : Catalogue) : Value → Descriptor → Value → Prop where
  | own {name : String} {m : Model} {fields : List Descriptor} {attributes : List (String × Value)} {d : Descriptor}
      (hm : c.model? name = some m) (hfields : c.describe m = .ok fields) (hd : d ∈ fields) :
      Visits c (.record name attributes) d (held attributes d)
  | within {name : String} {m : Model} {fields : List Descriptor} {attributes : List (String × Value)}
      {d e : Descriptor} {x v : Value} (hm : c.model? name = some m) (hfields : c.describe m = .ok fields)
      (hd : d ∈ fields) (hx : IsWithin d (held attributes d) x) (hv : Visits c x e v) :
      Visits c (.record name attributes) e v

/-- The member of a name is the attribute of that name. -/
theorem find?_membersOf (attributes : List (String × Value)) (name : String) :
    ((membersOf c attributes).find? fun m => m.name == name) =
      (attributes.lookup name).map fun v => ⟨name, v, isZero c v⟩ := by
  induction attributes with
  | nil => rfl
  | cons a rest ih =>
      obtain ⟨n, v⟩ := a
      rw [membersOf, List.find?_cons, List.lookup_cons]
      by_cases hsame : n = name
      · simp [hsame]
      · have hother : (name == n) = false := beq_false_of_ne fun h => hsame h.symm
        simp [beq_false_of_ne hsame, hother, ih]

theorem exists_isZeroScalar {kind : Kind} {v : Value} (hv : IsOfKindOrNull kind v) :
    ∃ zero, isZeroScalar kind v = .ok zero := by
  unfold isZeroScalar
  split
  · exact ⟨true, rfl⟩
  · rename_i hnull
    cases hv.resolve_left hnull with
    | row hxs => exact ⟨_, by simp only [length_of_items? hxs]; rfl⟩
    | _ => exact ⟨_, rfl⟩

theorem isZero_of_not_record {kind : Kind} {v : Value}
    (hv : kind ≠ .record ∨ ∀ name attributes, v ≠ .record name attributes) :
    isZero c v kind = isZeroScalar kind v := by
  cases v with
  | record name attributes =>
      have hkind : kind ≠ .record := hv.resolve_right fun h => h name attributes rfl
      simp [isZero, hkind]
  | _ => simp [isZero]

/-- Whether what a field holds counts as nothing can be told, if it can be told of a record. -/
theorem exists_isZero_of_suits {d : Descriptor} {v : Value} (hv : Suits d v)
    (hrecord : ∀ x, IsWithin d v x → ∃ zero, isZero c x .record = .ok zero) :
    ∃ zero, isZero c v d.kind = .ok zero := by
  by_cases hwithin : d.kind = .record ∧ ∃ name attributes, v = .record name attributes
  · obtain ⟨hkind, hv⟩ := hwithin
    rw [hkind]
    exact hrecord v ⟨hv, .inl ⟨hkind, rfl⟩⟩
  · have hscalar : d.kind ≠ .record ∨ ∀ name attributes, v ≠ .record name attributes := by
      by_cases hkind : d.kind = .record
      · exact .inr fun name attributes h => hwithin ⟨hkind, name, attributes, h⟩
      · exact .inl hkind
    rw [isZero_of_not_record hscalar]
    exact exists_isZeroScalar hv.ofKind

theorem exists_allEmpty {attributes : List (String × Value)} {ds : List Descriptor}
    (hzero : ∀ d ∈ ds, ∃ zero, isZero c (held attributes d) d.kind = .ok zero) :
    ∃ zero, allEmpty (membersOf c attributes) ds = .ok zero := by
  induction ds with
  | nil => exact ⟨true, rfl⟩
  | cons d rest ih =>
      obtain ⟨later, hlater⟩ := ih fun e he => hzero e (List.mem_cons_of_mem d he)
      obtain ⟨zero, hzero⟩ := hzero d List.mem_cons_self
      rw [allEmpty, find?_membersOf]
      cases hv : attributes.lookup d.name with
      | none => exact ⟨later, hlater⟩
      | some v =>
          have hheld : held attributes d = v := by simp [held, Value.attribute?, hv]
          rw [hheld] at hzero
          simp only [Option.map_some, hzero, ok_bind]
          split
          · exact ⟨false, rfl⟩
          · split
            · exact ⟨later, hlater⟩
            · exact ⟨false, rfl⟩

/-- Whether a record that is typed counts as nothing can be told. -/
theorem exists_isZero {x : Value} (hx : IsTyped c x) : ∃ zero, isZero c x .record = .ok zero := by
  induction hx with
  | @record name m fields attributes hm hfields hsuits _ ih =>
      have hfield : ∀ d ∈ fields, ∃ zero, isZero c (held attributes d) d.kind = .ok zero :=
        fun d hd => exists_isZero_of_suits (hsuits d hd) (ih d hd)
      obtain ⟨zero, hzero⟩ := exists_allEmpty hfield
      refine ⟨zero, ?_⟩
      simp only [isZero, hm, Action.describe_eq_ok hfields, ok_bind]
      exact hzero

/-! ### Operations that come to an end -/

/-- An operation that does not fail, whatever was noted before. -/
def Returns (a : Action α) : Prop := ∀ j, ∃ v later, a.outcome j = (.ok v, later)

theorem returns_pure (v : α) : Returns (pure v : Action α) := fun j => ⟨v, j, rfl⟩

theorem returns_liftM {x : Except Fault α} (hx : ∃ v, x = .ok v) : Returns (liftM x : Action α) := by
  obtain ⟨v, rfl⟩ := hx
  exact fun j => ⟨v, j, rfl⟩

theorem Returns.bind {a : Action α} {f : α → Action β} (ha : Returns a) (hf : ∀ v, Returns (f v)) :
    Returns (a >>= f) := by
  intro j
  obtain ⟨v, middle, hv⟩ := ha j
  obtain ⟨w, later, hw⟩ := hf v middle
  refine ⟨w, later, ?_⟩
  rw [Action.outcome_bind, hv]
  exact hw

theorem returns_mapM {f : α → Action β} {xs : List α} (hxs : ∀ x ∈ xs, Returns (f x)) : Returns (xs.mapM f) := by
  induction xs with
  | nil => exact returns_pure []
  | cons x rest ih =>
      rw [List.mapM_cons]
      have hrest := ih fun y hy => hxs y (List.mem_cons_of_mem x hy)
      exact (hxs x List.mem_cons_self).bind fun _ => hrest.bind fun _ => returns_pure _

theorem returns_forM {f : α → Action PUnit} {xs : List α} (hxs : ∀ x ∈ xs, Returns (f x)) :
    Returns (xs.forM f) := by
  induction xs with
  | nil => exact returns_pure PUnit.unit
  | cons x rest ih =>
      have hrest := ih fun y hy => hxs y (List.mem_cons_of_mem x hy)
      exact (hxs x List.mem_cons_self).bind fun _ => hrest

theorem returns_noteOnce (m : Model) (d : Descriptor) (r : Rule) (level : Level) (event : String)
    (details : List (String × Value)) : Returns (noteOnce m d r level event details) :=
  fun _ => ⟨(), _, rfl⟩

theorem returns_noteMisapplied (m : Model) (d : Descriptor) : Returns (noteMisapplied m d) := by
  apply returns_forM
  intro r _
  split
  · exact returns_pure ()
  · exact returns_noteOnce _ _ _ _ _ _

/-! ### Fields and records -/

variable {m : Model} {d : Descriptor} {v : Value}

/-- A rule comes to its errors on a value that suits the field. -/
theorem returns_applyRule {r : Rule} (hv : Suits d v) (hr : IsHarmless d r v)
    (hzero : ∃ zero, isZero c v d.kind = .ok zero) (path : String) : Returns (applyRule c m d path v r) := by
  unfold applyRule
  split
  · refine (returns_liftM hzero).bind fun zero => ?_
    split <;> exact returns_pure _
  · split
    · exact returns_pure _
    · rename_i hnull
      have hthere : v.isNull = false := by
        rw [Bool.not_eq_true, Bool.or_eq_false_iff] at hnull
        exact hnull.2
      split
      · split
        · exact (returns_noteOnce _ _ _ _ _ _).bind fun _ => returns_pure _
        · exact returns_pure _
      · split
        · exact returns_pure _
        · exact returns_pure _
        · exact (returns_noteOnce _ _ _ _ _ _).bind fun _ => returns_pure _
        · rename_i fault hfault
          exact absurd hfault (noFault_judge hv hthere hr fault)

theorem exists_isEmptyItem {kind : Kind} (hkind : kind.isSpecial = true) {x : Value} (hx : IsOfKindOrNull kind x) :
    ∃ empty, isEmptyItem kind x = .ok empty := by
  unfold isEmptyItem
  split
  · exact ⟨true, rfl⟩
  · rename_i hnull
    cases hx.resolve_left hnull with
    | moment m => exact ⟨_, rfl⟩
    | uuid u => exact ⟨_, rfl⟩
    | _ => cases hkind

theorem exists_emptyItemErrors (hv : Suits d v) (path : String) :
    ∃ errors, emptyItemErrors d path v = .ok errors := by
  unfold emptyItemErrors
  split
  · rename_i kind harray helement
    split
    · exact ⟨[], rfl⟩
    · rename_i hneeded
      simp only [Bool.or_eq_true, Bool.not_eq_true', not_or, Bool.not_eq_false, Bool.not_eq_true] at hneeded
      obtain ⟨⟨hspecial, hfalsy⟩, -⟩ := hneeded
      have hthere : ¬v.isNull = true := by
        intro hnull
        cases v with
        | null => cases hfalsy
        | _ => cases hnull
      have hkind := hv.ofKind.resolve_left hthere
      rw [harray] at hkind
      cases hkind with
      | @row _ xs hxs =>
          have hitems : itemsOf v = .ok xs := by rw [itemsOf, traverse?_of_items? hxs]
          obtain ⟨flags, hflags⟩ := exists_mapM fun x hx =>
            exists_isEmptyItem hspecial (hv.items harray kind xs helement hxs x hx)
          rw [hitems, ok_bind, hflags]
          exact ⟨_, rfl⟩
  · exact ⟨[], rfl⟩

/-- The errors of a field itself are found, if none of its rules fails. -/
theorem returns_fieldErrors (hv : Suits d v) (hrules : ∀ r ∈ d.rules, IsHarmless d r v)
    (hzero : ∃ zero, isZero c v d.kind = .ok zero) (path : String) : Returns (fieldErrors c m d path v) := by
  have hall : ∀ r ∈ d.applicable, Returns (applyRule c m d path v r) := fun r hr =>
    returns_applyRule hv (hrules r (List.mem_filter.mp hr).1) hzero path
  have hempty := returns_liftM (exists_emptyItemErrors hv path)
  simp only [fieldErrors, applicableRules, bind_assoc, pure_bind]
  refine (returns_noteMisapplied m d).bind fun _ => ?_
  exact (returns_mapM hall).bind fun _ => hempty.bind fun _ => returns_pure _

theorem lookup_insideEach (attributes : List (String × Value)) (name : String) :
    (insideEach c attributes).lookup name = (attributes.lookup name).map (inside c) := by
  induction attributes with
  | nil => rfl
  | cons a rest ih =>
      obtain ⟨n, v⟩ := a
      rw [insideEach, List.lookup_cons, List.lookup_cons, ih]
      cases name == n <;> rfl

/-- The records inside what a field holds are validated as what it holds is. -/
theorem inside_held (attributes : List (String × Value)) (d : Descriptor) :
    ((insideEach c attributes).lookup d.name).getD .nothing = inside c (held attributes d) := by
  rw [lookup_insideEach, held, Value.attribute?]
  cases attributes.lookup d.name <;> rfl

theorem returns_insideItems {xs : List Value} (hxs : ∀ x ∈ xs, ∀ path, Returns ((inside c x).whole path))
    (index : Nat) (path : String) : Returns (insideItems c index xs path) := by
  induction xs generalizing index with
  | nil => exact returns_pure []
  | cons x rest ih =>
      have hrest := ih fun y hy => hxs y (List.mem_cons_of_mem x hy)
      rw [insideItems]
      exact (hxs x List.mem_cons_self _).bind fun _ => (hrest (index + 1)).bind fun _ => returns_pure _

theorem inside_items {xs : List Value} (hv : v.items? = some xs) : (inside c v).items = insideItems c 0 xs := by
  cases v with
  | list | tuple | set =>
      obtain rfl := Option.some.inj hv
      rfl
  | _ => cases hv

theorem whole_of_not_record (hv : ∀ name attributes, v ≠ .record name attributes) (path : String) :
    (inside c v).whole path = pure [] := by
  cases v with
  | record name attributes => exact absurd rfl (hv name attributes)
  | _ => rfl

/-- The errors of the records inside what a field holds are found, if those of each of the records are. -/
theorem returns_insideErrors (hv : Suits d v)
    (hwithin : ∀ x, IsWithin d v x → ∀ path, Returns ((inside c x).whole path)) (path : String) :
    Returns (insideErrors d path (inside c v)) := by
  have hwhole : ∀ x, (∀ name attributes, x = .record name attributes → IsWithin d v x) → ∀ path,
      Returns ((inside c x).whole path) := by
    intro x hx path
    by_cases hrecord : ∃ name attributes, x = .record name attributes
    · obtain ⟨name, attributes, hrecord⟩ := hrecord
      exact hwithin x (hx name attributes hrecord) path
    · rw [whole_of_not_record (fun name attributes h => hrecord ⟨name, attributes, h⟩)]
      exact returns_pure []
  unfold insideErrors
  split
  · rename_i hkind
    exact hwhole v (fun name attributes h => ⟨⟨name, attributes, h⟩, .inl ⟨hkind, rfl⟩⟩) path
  · rename_i harray helement
    by_cases hnull : v.isNull = true
    · cases v with
      | null => exact returns_pure []
      | _ => cases hnull
    · have hkind := hv.ofKind.resolve_left hnull
      rw [harray] at hkind
      cases hkind with
      | @row _ xs hxs =>
          rw [inside_items hxs]
          apply returns_insideItems
          intro x hx
          exact hwhole x fun name attributes h => ⟨⟨name, attributes, h⟩, .inr ⟨harray, helement, xs, hxs, hx⟩⟩
  · exact returns_pure []

theorem returns_validateFields {attributes : List (String × Value)} {ds : List Descriptor}
    (hown : ∀ d ∈ ds, ∀ path, Returns (fieldErrors c m d path (held attributes d)))
    (hinside : ∀ d ∈ ds, ∀ path, Returns (insideErrors d path (inside c (held attributes d)))) (base : String) :
    Returns (validateFields c m base attributes (insideEach c attributes) ds) := by
  induction ds with
  | nil => exact returns_pure []
  | cons d rest ih =>
      have hrest := ih (fun e he => hown e (List.mem_cons_of_mem d he))
        fun e he => hinside e (List.mem_cons_of_mem d he)
      have hd := hinside d List.mem_cons_self (join base d.wireName)
      rw [← inside_held] at hd
      rw [validateFields]
      exact (hown d List.mem_cons_self _).bind fun _ => hd.bind fun _ => hrest.bind fun _ => returns_pure _

/-- A record that is typed is validated, if none of the rules that are met on the way fails. -/
theorem returns_whole {x : Value} (hx : IsTyped c x)
    (hrules : ∀ d v, Visits c x d v → ∀ r ∈ d.rules, IsHarmless d r v) (base : String) :
    Returns ((inside c x).whole base) := by
  induction hx generalizing base with
  | @record name m fields attributes hm hfields hsuits htyped ih =>
      have hwithin : ∀ d ∈ fields, ∀ x, IsWithin d (held attributes d) x →
          ∀ path, Returns ((inside c x).whole path) :=
        fun d hd x hx => ih d hd x hx fun e v hv => hrules e v (.within hm hfields hd hx hv)
      have hown : ∀ d ∈ fields, ∀ path, Returns (fieldErrors c m d path (held attributes d)) := by
        intro d hd
        apply returns_fieldErrors (hsuits d hd) (hrules d _ (.own hm hfields hd))
        exact exists_isZero_of_suits (hsuits d hd) fun x hx => exists_isZero (htyped d hd x hx)
      have hinside : ∀ d ∈ fields, ∀ path, Returns (insideErrors d path (inside c (held attributes d))) :=
        fun d hd => returns_insideErrors (hsuits d hd) (hwithin d hd)
      simp only [inside, hm, Action.describe_eq_ok hfields]
      exact returns_validateFields hown hinside base

end Intake.Validation
