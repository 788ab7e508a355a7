import Intake.Proofs.Schema.Closure

/-!
Mock data for every model: where every model that can be reached has a description, nothing stands in
the way of its mock record.
-/

namespace Intake

namespace Mock

open Schema (Reaches)

variable {c : Catalogue} {record : String → Except Fault Value}

theorem exists_map {α β : Type} {x : Except Fault α} (hx : ∃ v, x = .ok v) (f : α → β) :
    ∃ w, x.map f = .ok w := by
  obtain ⟨v, rfl⟩ := hx
  exact ⟨f v, rfl⟩

theorem exists_values {stack : List String} {item : Ty} {v : Except Fault Value}
    (hv : ∃ w, v = .ok w) : ∃ w, value.values stack item v = .ok w := by
  rw [value.values]
  split
  · exact ⟨_, rfl⟩
  · exact exists_map hv _

theorem valueOfOnly_eq (stack : List String) (choices : List Ty) :
    valueOfOnly c record stack choices =
      match choices.filter fun u => !u.isNull with
      | [t] => value c record stack t
      | _ => .ok .null :=
  Ty.only_eq_of_filter (d := .ok .null) (g := valueOfOnly c record stack) rfl (fun _ _ => by rw [valueOfOnly]) choices

/-- A mock value does not see annotations and the permission to be absent. -/
theorem seesThrough_value (stack : List String) : Ty.SeesThrough (value c record stack) where
  annotated inner := by rw [value]
  union choices t hone := by rw [value, valueOfOnly_eq, hone]

/-- Several choices have no mock value but absence. -/
theorem valueOfOnly_eq_null (stack : List String) {t : Ty} {choices : List Ty} (ht : t.unwrap.1 = .union choices) :
    valueOfOnly c record stack choices = .ok .null :=
  Ty.only_eq_of_unwrap (f := value c record stack) (d := .ok .null) (g := valueOfOnly c record stack) rfl
    (fun _ _ => by rw [valueOfOnly]) ht

/-- A type has a mock value if the model that it leads to has one. -/
theorem exists_value (stack : List String) (t : Ty)
    (hrecord : ∀ name ∈ t.leadsTo?, ∃ v, record name = .ok v) :
    ∃ v, value c record stack t = .ok v := by
  induction t using Ty.bare_induction with
  | unwrap t ih =>
      rw [← (seesThrough_value stack).unwrap]
      exact ih (by rwa [t.leadsTo?_unwrap])
  | bare t hbare hparts =>
      cases t with
      | annotated inner => exact absurd hbare (Ty.unwrap_ne_annotated _ inner)
      | union choices =>
          rw [value, valueOfOnly_eq_null stack hbare]
          exact ⟨_, rfl⟩
      | record name =>
          rw [value]
          split
          · exact ⟨_, rfl⟩
          · exact hrecord name rfl
      | list item | set frozen item | sequence item =>
          rw [value]
          exact exists_values (hparts item (List.mem_singleton_self item) hrecord)
      | tuple items =>
          rw [value]
          cases items with
          | nil => exact ⟨_, rfl⟩
          | cons first rest =>
              rw [valuesOfFirst]
              split
              · exact ⟨_, rfl⟩
              · exact exists_map (hparts first List.mem_cons_self hrecord) _
      | dict key item =>
          rw [value]
          split
          · exact ⟨_, rfl⟩
          · exact exists_map (hparts item (by simp [Ty.madeOf]) hrecord) _
      | _ => exact ⟨_, rfl⟩

/-- Every model that is reached has a mock document if all have descriptions. -/
theorem exists_document {roots : List String}
    (hdescribe : ∀ m, Reaches c .json roots m → ∃ fields, c.describe m = .ok fields)
    (fuel : Nat) (stack : List String) (name : String)
    (hname : ∀ m, c.model? name = some m → Reaches c .json roots m) :
    ∃ v, document c fuel stack name = .ok v := by
  induction fuel generalizing stack name with
  | zero => exact ⟨_, rfl⟩
  | succ fuel ih =>
      rw [document]
      split
      · exact ⟨_, rfl⟩
      · rename_i m hmodel
        have hm : Reaches c .json roots m := hname m hmodel
        obtain ⟨fields, hfields⟩ := hdescribe m hm
        have hentries : ∃ entries, fields.mapM (fun d => do
            return (Value.text d.wireName,
              ← fieldValue c (document c fuel (name :: stack)) (name :: stack) d.type)) =
            (.ok entries : Except Fault (List (Value × Value))) := by
          apply exists_mapM
          intro d hd
          have hvalue : ∃ v, fieldValue c (document c fuel (name :: stack)) (name :: stack) d.type =
              .ok v := by
            rw [fieldValue]
            split
            · exact ⟨_, rfl⟩
            · refine exists_value _ d.type fun inner hinner => ih _ inner fun next hnext => ?_
              exact Reaches.field hm hfields hd hinner hnext
          obtain ⟨v, hv⟩ := hvalue
          rw [hv]
          exact ⟨_, rfl⟩
        obtain ⟨entries, hentries⟩ := hentries
        have hdescribed : Action.describe c m = .ok fields := by
          rw [Action.describe, hfields]
          rfl
        rw [hdescribed]
        exact ⟨.dict (Value.dictOf entries), congrArg
          (fun made : Except Fault (List (Value × Value)) => do
            return Value.dict (Value.dictOf (← made))) hentries⟩

/-- A model that is reached has a mock record, accepted or rejected. -/
theorem exists_record? {roots : List String}
    (hdescribe : ∀ m, Reaches c .json roots m → ∃ fields, c.describe m = .ok fields)
    {name : String} (hname : ∀ m, c.model? name = some m → Reaches c .json roots m) :
    ∃ result, record? c name = .ok result := by
  have hvalue : ∃ v, ofType c (.record name) = .ok v :=
    exists_document hdescribe (c.models.length + 1) [] name hname
  obtain ⟨v, hv⟩ := hvalue
  have hgiven : ∃ entries, givenEntries c name = .ok entries := by
    rw [givenEntries, hv]
    cases v <;> exact ⟨_, rfl⟩
  obtain ⟨entries, hentries⟩ := hgiven
  rw [record?, hentries]
  exact ⟨_, rfl⟩

end Mock

namespace Schema

variable {c : Catalogue} {roots : List String}

/-- A model has an example as soon as its mock record, if it is accepted, can be written. -/
theorem hasExample_of_written
    (hdescribe : ∀ m, Reaches c .json roots m → ∃ fields, c.describe m = .ok fields) {m : Model}
    (hmodel : c.model? m.name = some m) (hm : Reaches c .json roots m)
    (hwritten : ∀ v, Mock.record? c m.name = .ok (.ok v) →
      ∃ text, Markup.encode c v none true = .ok text) : HasExample c m := by
  obtain ⟨result, hresult⟩ := Mock.exists_record? hdescribe (fun m' hm' => by
    rw [hmodel] at hm'
    cases hm'
    exact hm)
  rcases result with rejections | v
  · refine ⟨none, ?_⟩
    intro j
    unfold Mock.xmlExample Mock.written?
    rw [hresult]
    exact ⟨_, rfl⟩
  · obtain ⟨text, htext⟩ := hwritten v hresult
    refine ⟨some text, fun j => ⟨j, ?_⟩⟩
    unfold Mock.xmlExample Mock.written?
    rw [hresult]
    change Action.outcome (do return some (← liftM (Markup.encode c v none true))) j = _
    rw [htext]
    rfl

end Schema
end Intake
