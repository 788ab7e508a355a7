import Intake.Proofs.Model.MadeOf
import Intake.Proofs.Model.Pruned
import Intake.Proofs.Validation.Return

/-!
Validation without the rules that do not apply. They are noted and nothing else comes of them, so a record reports
the same errors, or ends by the same fault, when they are dropped, whatever was noted before.
-/

namespace Intake

namespace Action

variable {α β : Type} {a b : Action α}

/-- Two operations that come to the same, whatever was noted before; what they note may differ. -/
def SameResult (a b : Action α) : Prop := ∀ j j', (a.outcome j).1 = (b.outcome j').1

theorem sameResult_pure (v : α) : SameResult (pure v) (pure v) := fun _ _ => rfl

theorem sameResult_liftM (x : Except Fault α) : SameResult (liftM x) (liftM x) := fun _ _ => rfl

/-- The same comes of two operations in a row if it comes of each of them. -/
theorem SameResult.bind {f g : α → Action β} (ha : SameResult a b) (hf : ∀ v, SameResult (f v) (g v)) :
    SameResult (a >>= f) (b >>= g) := by
  intro j j'
  have hfirst := ha j j'
  rw [outcome_bind, outcome_bind]
  rcases hleft : a.outcome j with ⟨fault | v, later⟩
  · rcases hright : b.outcome j' with ⟨fault' | w, later'⟩
    · simpa [hleft, hright] using hfirst
    · simp [hleft, hright] at hfirst
  · rcases hright : b.outcome j' with ⟨fault' | w, later'⟩
    · simp [hleft, hright] at hfirst
    · simp only [hleft, hright, Except.ok.injEq] at hfirst
      subst hfirst
      exact hf v later later'

theorem SameResult.discard (ha : SameResult a b) : SameResult (Functor.discard a) (Functor.discard b) := by
  change SameResult ((fun _ => ()) <$> a) ((fun _ => ()) <$> b)
  rw [map_eq_pure_bind, map_eq_pure_bind]
  exact ha.bind fun _ => sameResult_pure _

theorem sameResult_mapM {f g : α → Action β} {xs : List α} (hxs : ∀ x ∈ xs, SameResult (f x) (g x)) :
    SameResult (xs.mapM f) (xs.mapM g) := by
  induction xs with
  | nil => exact sameResult_pure []
  | cons x rest ih =>
      rw [List.mapM_cons, List.mapM_cons]
      have hrest := ih fun y hy => hxs y (List.mem_cons_of_mem x hy)
      exact (hxs x List.mem_cons_self).bind fun _ => hrest.bind fun _ => sameResult_pure _

/-- Operations that only note something come to the same if they come to an end. -/
theorem sameResult_of_returns {a b : Action Unit} (ha : Validation.Returns a) (hb : Validation.Returns b) :
    SameResult a b := by
  intro j j'
  obtain ⟨v, later, hv⟩ := ha j
  obtain ⟨w, later', hw⟩ := hb j'
  rw [hv, hw]

end Action

namespace Validation

open Action (SameResult sameResult_pure sameResult_liftM sameResult_mapM sameResult_of_returns)

variable (c : Catalogue) (chosen : String → Bool)

/-! ### A field without the rules that do not apply -/

section field

variable (drop : Bool) (m : Model) (d : Descriptor) (path : String) (v : Value)

/-- A rule that applies reports what it reported. -/
theorem applyRule_pruned (r : Rule) :
    applyRule (c.pruned chosen) (m.pruned c drop) (d.pruned drop) path v r = applyRule c m d path v r := by
  unfold applyRule
  rw [isZero_pruned]
  rfl

theorem sameResult_noteOnce (r : Rule) (level : Level) (event : String) (details : List (String × Value)) :
    SameResult (noteOnce m d r level event details) (noteOnce m d r level event details) := fun _ _ => rfl

/-- What a rule reports does not depend on what was noted before. -/
theorem sameResult_applyRule (r : Rule) : SameResult (applyRule c m d path v r) (applyRule c m d path v r) := by
  unfold applyRule
  split
  · refine (sameResult_liftM _).bind fun zero => ?_
    split <;> exact sameResult_pure _
  · split
    · exact sameResult_pure _
    · split
      · split
        · exact (sameResult_noteOnce _ _ _ _ _ _).bind fun _ => sameResult_pure _
        · exact sameResult_pure _
      · split
        · exact sameResult_pure _
        · exact sameResult_pure _
        · exact (sameResult_noteOnce _ _ _ _ _ _).bind fun _ => sameResult_pure _
        · exact fun _ _ => rfl

theorem emptyItemErrors_of_not_array (hkind : d.kind ≠ .array) : emptyItemErrors d path v = .ok [] := by
  unfold emptyItemErrors
  split
  · rename_i harray _
    exact absurd harray hkind
  · rfl

/-- The rule about empty items applies to every array. -/
theorem emptyItemErrors_pruned : emptyItemErrors (d.pruned drop) path v = emptyItemErrors d path v := by
  by_cases harray : d.kind = .array
  · have hhas : Rule.has (d.pruned drop).rules emptyItemsRule = Rule.has d.rules emptyItemsRule := by
      apply Descriptor.has_pruned
      intro r hname
      simp [Descriptor.mismatch?, Descriptor.suits?, hname, emptyItemsRule, numericRules, textRules, countRules,
        itemRules, harray]
    unfold emptyItemErrors
    rw [hhas]
    rfl
  · rw [emptyItemErrors_of_not_array d path v harray]
    exact emptyItemErrors_of_not_array (d.pruned drop) path v harray

theorem fieldErrors_pruned :
    SameResult (fieldErrors (c.pruned chosen) (m.pruned c drop) (d.pruned drop) path v)
      (fieldErrors c m d path v) := by
  unfold fieldErrors applicableRules
  rw [Descriptor.applicable_pruned, emptyItemErrors_pruned, funext (applyRule_pruned c chosen drop m d path v)]
  have hnotes := sameResult_of_returns (returns_noteMisapplied (m.pruned c drop) (d.pruned drop))
    (returns_noteMisapplied m d)
  refine (hnotes.bind fun _ => sameResult_pure _).bind fun rules => ?_
  refine (sameResult_mapM fun r _ => sameResult_applyRule c m d path v r).bind fun errors => ?_
  exact (sameResult_liftM _).bind fun empty => sameResult_pure _

end field

/-! ### Records -/

/-- What is inside two values reports the same at every place. -/
structure Inside.SameResults (i i' : Inside) : Prop where
  whole : ∀ path, SameResult (i.whole path) (i'.whole path)
  items : ∀ path, SameResult (i.items path) (i'.items path)

theorem sameResult_insideErrors {i i' : Inside} (hinside : i.SameResults i') (drop : Bool) (d : Descriptor)
    (path : String) : SameResult (insideErrors (d.pruned drop) path i) (insideErrors d path i') := by
  change SameResult (insideErrors d path i) (insideErrors d path i')
  unfold insideErrors
  split
  · exact hinside.whole path
  · exact hinside.items path
  · exact sameResult_pure _

theorem sameResult_validateFields (drop : Bool) (m : Model) (base : String) (attributes : List (String × Value))
    {insides insides' : List (String × Inside)}
    (hinsides : ∀ name, ((insides.lookup name).getD .nothing).SameResults ((insides'.lookup name).getD .nothing))
    (fields : List Descriptor) :
    SameResult
      (validateFields (c.pruned chosen) (m.pruned c drop) base attributes insides
        (fields.map (Descriptor.pruned drop)))
      (validateFields c m base attributes insides' fields) := by
  induction fields with
  | nil => exact sameResult_pure []
  | cons d rest ih =>
      refine (fieldErrors_pruned c chosen drop m d _ _).bind fun own => ?_
      refine (sameResult_insideErrors (hinsides d.name) drop d _).bind fun inner => ?_
      exact ih.bind fun later => sameResult_pure _

theorem Inside.sameResults_nothing : Inside.nothing.SameResults Inside.nothing :=
  ⟨fun _ => sameResult_pure _, fun _ => sameResult_pure _⟩

theorem Inside.sameResults_ofOther (v : Value) : (Inside.ofOther v).SameResults (Inside.ofOther v) := by
  constructor
  · exact fun _ => sameResult_pure _
  · intro path
    unfold Inside.ofOther
    dsimp only
    split
    · exact sameResult_pure _
    · exact (sameResult_liftM (itemsOf v)).discard.bind fun _ => sameResult_pure _

theorem insideEach_pruned {attributes : List (String × Value)}
    (hattributes : ∀ a ∈ attributes, (inside (c.pruned chosen) a.2).SameResults (inside c a.2)) (name : String) :
    (((insideEach (c.pruned chosen) attributes).lookup name).getD .nothing).SameResults
      (((insideEach c attributes).lookup name).getD .nothing) := by
  induction attributes with
  | nil => exact Inside.sameResults_nothing
  | cons a rest ih =>
      obtain ⟨ha, hrest⟩ := List.forall_mem_cons.mp hattributes
      rw [insideEach, insideEach, List.lookup_cons, List.lookup_cons]
      cases name == a.1 with
      | true => exact ha
      | false => exact ih hrest

theorem insideItems_pruned {xs : List Value}
    (hxs : ∀ x ∈ xs, (inside (c.pruned chosen) x).SameResults (inside c x)) (i : Nat) (path : String) :
    SameResult (insideItems (c.pruned chosen) i xs path) (insideItems c i xs path) := by
  induction xs generalizing i with
  | nil => exact sameResult_pure _
  | cons x rest ih =>
      obtain ⟨hx, hrest⟩ := List.forall_mem_cons.mp hxs
      rw [insideItems, insideItems]
      refine (hx.whole _).bind fun first => ?_
      exact (ih hrest (i + 1)).bind fun later => sameResult_pure _

/-- The records inside a value report the same without the rules that do not apply. -/
theorem inside_pruned (v : Value) : (inside (c.pruned chosen) v).SameResults (inside c v) := by
  induction v using Value.madeOf_induction with
  | step v hinside =>
      cases v with
      | record name attributes =>
          have hattributes := insideEach_pruned c chosen fun a ha => hinside a.2 (Value.mem_madeOf_record ha)
          refine ⟨fun path => ?_, fun _ => sameResult_pure _⟩
          rw [inside, inside]
          dsimp only
          rw [Catalogue.model?_pruned]
          cases c.model? name with
          | none => exact sameResult_pure _
          | some m =>
              simp only [Option.map_some, Action.describe_pruned]
              cases Action.describe c m with
              | error fault => exact fun _ _ => rfl
              | ok fields => exact sameResult_validateFields c chosen _ m path attributes hattributes fields
      | list xs | tuple xs | set frozen xs =>
          exact ⟨fun _ => sameResult_pure _, insideItems_pruned c chosen hinside 0⟩
      | _ => exact Inside.sameResults_ofOther _

/-- A record reports the same without the rules that do not apply. -/
theorem validate_pruned (v : Value) : SameResult (validate (c.pruned chosen) v) (validate c v) :=
  (inside_pruned c chosen v).whole ""

end Validation
end Intake
