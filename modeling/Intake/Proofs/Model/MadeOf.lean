import Intake.Model.Ty

/-!
What values and types are made of. Both hold rows of their own kind, so what is shown of one of them from the ones
directly inside holds of all of them.
-/

namespace Intake

namespace Value

/-- The values directly inside a value. -/
def madeOf : Value → List Value
  | .member _ _ _ value => [value]
  | .list xs | .tuple xs | .set _ xs => xs
  | .dict es => es.map Prod.fst ++ es.map Prod.snd
  | .record _ attributes => attributes.map Prod.snd
  | _ => []

theorem mem_madeOf_dict {es : List (Value × Value)} {e : Value × Value} (he : e ∈ es) :
    e.2 ∈ (dict es).madeOf :=
  List.mem_append_right _ (List.mem_map_of_mem he)

theorem mem_madeOf_record {name : String} {attributes : List (String × Value)} {a : String × Value}
    (ha : a ∈ attributes) : a.2 ∈ (record name attributes).madeOf :=
  List.mem_map_of_mem ha

theorem sizeOf_fst_lt {α β : Type} [SizeOf α] [SizeOf β] (e : α × β) : sizeOf e.1 < sizeOf e := by
  obtain ⟨first, second⟩ := e
  rw [Prod.mk.sizeOf_spec]
  dsimp only
  omega

theorem sizeOf_snd_lt {α β : Type} [SizeOf α] [SizeOf β] (e : α × β) : sizeOf e.2 < sizeOf e := by
  obtain ⟨first, second⟩ := e
  rw [Prod.mk.sizeOf_spec]
  dsimp only
  omega

theorem sizeOf_lt_of_mem_madeOf {v w : Value} (hw : w ∈ v.madeOf) : sizeOf w < sizeOf v := by
  cases v with
  | member enumeration name base value =>
      obtain rfl := List.mem_singleton.mp hw
      rw [member.sizeOf_spec]
      omega
  | list xs | tuple xs | set _ xs =>
      have hlt : sizeOf w < sizeOf xs := List.sizeOf_lt_of_mem hw
      simp only [list.sizeOf_spec, tuple.sizeOf_spec, set.sizeOf_spec]
      omega
  | dict es =>
      have hentry : ∃ e ∈ es, sizeOf w < sizeOf e := by
        rcases List.mem_append.mp hw with hkey | hvalue
        · obtain ⟨e, he, rfl⟩ := List.mem_map.mp hkey
          exact ⟨e, he, sizeOf_fst_lt e⟩
        · obtain ⟨e, he, rfl⟩ := List.mem_map.mp hvalue
          exact ⟨e, he, sizeOf_snd_lt e⟩
      obtain ⟨e, he, hlt⟩ := hentry
      have hmem := List.sizeOf_lt_of_mem he
      rw [dict.sizeOf_spec]
      omega
  | record name attributes =>
      obtain ⟨a, ha, rfl⟩ := List.mem_map.mp hw
      have hlt := sizeOf_snd_lt a
      have hmem := List.sizeOf_lt_of_mem ha
      rw [record.sizeOf_spec]
      omega
  | _ => cases hw

/-- What holds of a value if it holds of the values directly inside holds of all values. -/
@[elab_as_elim]
theorem madeOf_induction {motive : Value → Prop} (step : ∀ v, (∀ w ∈ v.madeOf, motive w) → motive v) (v : Value) :
    motive v :=
  step v fun w _ => madeOf_induction step w
termination_by sizeOf v
decreasing_by
  rename_i hw
  exact sizeOf_lt_of_mem_madeOf hw

end Value

namespace Ty

/-- The types directly inside a type. -/
def madeOf : Ty → List Ty
  | .list item | .set _ item | .sequence item | .annotated item => [item]
  | .tuple items | .union items => items
  | .dict key value => [key, value]
  | _ => []

theorem sizeOf_lt_of_mem_madeOf {t u : Ty} (hu : u ∈ t.madeOf) : sizeOf u < sizeOf t := by
  cases t with
  | list item | set frozen item | sequence item | annotated item =>
      obtain rfl := List.mem_singleton.mp hu
      simp only [list.sizeOf_spec, set.sizeOf_spec, sequence.sizeOf_spec, annotated.sizeOf_spec]
      omega
  | tuple items | union items =>
      have hlt : sizeOf u < sizeOf items := List.sizeOf_lt_of_mem hu
      simp only [tuple.sizeOf_spec, union.sizeOf_spec]
      omega
  | dict key value =>
      have hpart : u = key ∨ u = value := by simpa [madeOf] using hu
      rw [dict.sizeOf_spec]
      rcases hpart with rfl | rfl <;> omega
  | _ => cases hu

/-- What holds of a type if it holds of the types directly inside holds of all types. -/
@[elab_as_elim]
theorem madeOf_induction {motive : Ty → Prop} (step : ∀ t, (∀ u ∈ t.madeOf, motive u) → motive t) (t : Ty) :
    motive t :=
  step t fun u _ => madeOf_induction step u
termination_by sizeOf t
decreasing_by
  rename_i hu
  exact sizeOf_lt_of_mem_madeOf hu

end Ty

end Intake
