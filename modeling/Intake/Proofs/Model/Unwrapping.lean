import Intake.Proofs.Model.Description
import Intake.Proofs.Model.MadeOf

/-!
What is left of a type without annotations and the permission to be absent. Much that is said of types does not
see what is around them; and a type that has nothing around it is of its kind by its form alone.
-/

namespace Intake.Ty

/-- Looking for the only choice that is not absence is looking at what is left without absence. -/
theorem only_eq_of_filter {α : Type} {f : Ty → α} {d : α} {g : List Ty → α} (hnil : g [] = d)
    (hcons : ∀ t rest, g (t :: rest) = if t.isNull then g rest else if rest.all isNull then f t else d)
    (choices : List Ty) :
    g choices = match choices.filter fun u => !u.isNull with
      | [t] => f t
      | _ => d := by
  induction choices with
  | nil => exact hnil
  | cons t rest ih =>
      rw [hcons]
      cases hnull : t.isNull with
      | true => simpa [hnull] using ih
      | false =>
          have hrest : rest.all isNull = true ↔ (rest.filter fun u => !u.isNull) = [] := by simp
          by_cases hall : rest.all isNull = true
          · simp [hnull, hall, hrest.mp hall]
          · obtain ⟨u, us, hsome⟩ := List.exists_cons_of_ne_nil (mt hrest.mpr hall)
            simp [hnull, hall, hsome]

/-- The only choice is the one that is left without absence. -/
theorem unwrapOnly_eq_some_iff {choices : List Ty} {only : Ty × Bool} :
    unwrapOnly choices = some only ↔ ∃ t, (choices.filter fun u => !u.isNull) = [t] ∧ t.unwrap = only := by
  have hfilter := only_eq_of_filter (f := fun t => some t.unwrap) (d := none) (g := unwrapOnly) rfl
    (fun _ _ => by rw [unwrapOnly]) choices
  rw [hfilter]
  split
  · rename_i t hone
    simp [hone]
  · rename_i hmore
    refine iff_of_false nofun ?_
    rintro ⟨t, hone, -⟩
    exact hmore t hone

/-- The only choice that is left without absence is one of the choices. -/
theorem mem_of_filter {choices : List Ty} {t : Ty} (hone : (choices.filter fun u => !u.isNull) = [t]) : t ∈ choices :=
  List.mem_of_mem_filter (hone ▸ List.mem_singleton_self t)

/-- What holds of a type and itself, and goes on through annotations and the only choice, holds of a type and what
is left of it. -/
theorem unwrap_induction {p : Ty → Ty → Prop} (same : ∀ t, p t t)
    (annotated : ∀ inner u, p inner u → p (.annotated inner) u)
    (union : ∀ choices t u, (choices.filter fun u => !u.isNull) = [t] → p t u → p (.union choices) u) (t : Ty) :
    p t t.unwrap.1 := by
  cases t with
  | annotated inner =>
      rw [unwrap]
      exact annotated inner _ (unwrap_induction same annotated union inner)
  | union choices =>
      rw [unwrap]
      cases honly : unwrapOnly choices with
      | none => exact same _
      | some only =>
          obtain ⟨t, hone, rfl⟩ := unwrapOnly_eq_some_iff.mp honly
          have ht := mem_of_filter hone
          exact union choices t _ hone (unwrap_induction same annotated union t)
  | _ => exact same _
termination_by sizeOf t
decreasing_by
  · have hlt := List.sizeOf_lt_of_mem ht
    rw [Ty.union.sizeOf_spec]
    omega
  · simp

/-- Something that is said of types and does not see annotations and the permission to be absent. -/
structure SeesThrough {α : Type} (f : Ty → α) : Prop where
  annotated : ∀ inner, f (.annotated inner) = f inner
  union : ∀ choices t, (choices.filter fun u => !u.isNull) = [t] → f (.union choices) = f t

/-- It is said of a type as of what is left of the type without them. -/
theorem SeesThrough.unwrap {α : Type} {f : Ty → α} (h : SeesThrough f) (t : Ty) : f t.unwrap.1 = f t := by
  have hsame : f t = f t.unwrap.1 :=
    unwrap_induction (p := fun t u => f t = f u) (fun _ => rfl) (fun inner _ hinner => (h.annotated inner).trans hinner)
      (fun choices t _ hone ht => (h.union choices t hone).trans ht) t
  exact hsame.symm

theorem seesThrough_unwrap : SeesThrough fun t => t.unwrap.1 where
  annotated _ := by simp only [Ty.unwrap]
  union choices t hone := by
    have honly := unwrapOnly_eq_some_iff.mpr ⟨t, hone, rfl⟩
    simp only [Ty.unwrap, honly]

/-- What is left of a type has nothing around it. -/
theorem unwrap_unwrap (t : Ty) : t.unwrap.1.unwrap.1 = t.unwrap.1 := seesThrough_unwrap.unwrap t

theorem sizeOf_unwrap_le (t : Ty) : sizeOf t.unwrap.1 ≤ sizeOf t := by
  refine unwrap_induction (p := fun t u => sizeOf u ≤ sizeOf t) (fun _ => Nat.le_refl _) (fun inner u hinner => ?_)
    (fun choices t u hone ht => ?_) t
  · rw [Ty.annotated.sizeOf_spec]
    omega
  · have hlt := List.sizeOf_lt_of_mem (mem_of_filter hone)
    rw [Ty.union.sizeOf_spec]
    omega

/-- The items of a collection, and the values of a dictionary, are of a smaller type. -/
theorem sizeOf_element_lt {t e : Ty} (he : t.element? = some e) : sizeOf e < sizeOf t := by
  cases t with
  | list item | set frozen item | sequence item | dict key item =>
      cases he
      have hle := sizeOf_unwrap_le item
      simp only [list.sizeOf_spec, set.sizeOf_spec, sequence.sizeOf_spec, dict.sizeOf_spec]
      omega
  | tuple items =>
      cases items with
      | nil => cases he
      | cons item rest =>
          cases he
          have hle := sizeOf_unwrap_le item
          rw [tuple.sizeOf_spec, List.cons.sizeOf_spec]
          omega
  | _ => cases he

/-- What is left of a type is not an annotated type. -/
theorem unwrap_ne_annotated (t inner : Ty) : t.unwrap.1 ≠ .annotated inner := by
  intro ht
  have hagain := unwrap_unwrap t
  rw [ht, unwrap] at hagain
  have hle := sizeOf_unwrap_le inner
  rw [hagain, annotated.sizeOf_spec] at hle
  omega

/-- If choices are left of a type, they are not one choice and absence. -/
theorem unwrapOnly_of_unwrap {t : Ty} {choices : List Ty} (ht : t.unwrap.1 = .union choices) :
    unwrapOnly choices = none := by
  have hagain := unwrap_unwrap t
  rw [ht, unwrap] at hagain
  cases honly : unwrapOnly choices with
  | none => rfl
  | some only =>
      obtain ⟨u, hone, rfl⟩ := unwrapOnly_eq_some_iff.mp honly
      rw [honly] at hagain
      have hlt := List.sizeOf_lt_of_mem (mem_of_filter hone)
      have hle := sizeOf_unwrap_le u
      rw [show u.unwrap.1 = .union choices from hagain, union.sizeOf_spec] at hle
      omega

/-- Looking for the only choice that is not absence finds none if the choices are what is left of a type. -/
theorem only_eq_of_unwrap {α : Type} {f : Ty → α} {d : α} {g : List Ty → α} (hnil : g [] = d)
    (hcons : ∀ t rest, g (t :: rest) = if t.isNull then g rest else if rest.all isNull then f t else d)
    {t : Ty} {choices : List Ty} (ht : t.unwrap.1 = .union choices) : g choices = d := by
  rw [only_eq_of_filter hnil hcons]
  split
  · rename_i u hone
    cases (unwrapOnly_of_unwrap ht).symm.trans (unwrapOnly_eq_some_iff.mpr ⟨u, hone, rfl⟩)
  · rfl

/-- What holds of a type as of what is left of it, and holds of a type with nothing around it if it holds of the types
directly inside, holds of all types. -/
@[elab_as_elim]
theorem bare_induction {motive : Ty → Prop} (unwrap : ∀ t, motive t.unwrap.1 → motive t)
    (bare : ∀ t, t.unwrap.1 = t → (∀ u ∈ t.madeOf, motive u) → motive t) (t : Ty) : motive t :=
  unwrap t (bare t.unwrap.1 t.unwrap_unwrap fun u _ => bare_induction unwrap bare u)
termination_by sizeOf t
decreasing_by
  rename_i hu
  exact Nat.lt_of_lt_of_le (sizeOf_lt_of_mem_madeOf hu) t.sizeOf_unwrap_le

end Intake.Ty
