import Intake.Markup.RecordElement
import Mathlib.Data.List.Forall2

/-!
Elements in another layout. Lines and blanks between elements change the texts around them; the names,
the attributes, the order of the elements, and the texts of elements with nothing but a text inside stay.
-/

namespace Intake.Markup.Element

/-- An element and the same in another layout. -/
inductive Relaid : Element → Element → Prop where
  | mk {name text text' tail tail' : String} {attributes : List (String × String)}
      {children children' : List Element} (hchildren : List.Forall₂ Relaid children children')
      (htext : children = [] → text' = text) :
      Relaid (.mk name attributes text children tail) (.mk name attributes text' children' tail')

theorem Relaid.withTail {e e' : Element} (h : Relaid e e') (tail : String) : Relaid e (e'.withTail tail) := by
  cases h with
  | mk hchildren htext => exact .mk hchildren htext

theorem Relaid.name_eq {e e' : Element} (h : Relaid e e') : e'.name = e.name := by
  cases h
  rfl

theorem Relaid.attributes_eq {e e' : Element} (h : Relaid e e') : e'.attributes = e.attributes := by
  cases h
  rfl

mutual

theorem relaid_refl (e : Element) : Relaid e e := by
  cases e with
  | mk name attributes text children tail => exact .mk (forall₂_relaid_refl children) fun _ => rfl

theorem forall₂_relaid_refl (es : List Element) : List.Forall₂ Relaid es es := by
  cases es with
  | nil => exact .nil
  | cons e rest => exact .cons (relaid_refl e) (forall₂_relaid_refl rest)

end

mutual

/-- Lines of their own for the elements inside are another layout. -/
theorem relaid_indented (level : Nat) (e : Element) : Relaid e (e.indented level) := by
  cases e with
  | mk name attributes text children tail =>
      cases children with
      | nil => exact .mk .nil fun _ => rfl
      | cons child rest =>
          apply Relaid.mk (forall₂_relaid_indentedAll level (child :: rest))
          intro hempty
          cases hempty

theorem forall₂_relaid_indentedAll (level : Nat) (es : List Element) :
    List.Forall₂ Relaid es (indentedAll level es) := by
  cases es with
  | nil => exact .nil
  | cons e rest =>
      apply List.Forall₂.cons
      · exact (relaid_indented (level + 1) e).withTail _
      · exact forall₂_relaid_indentedAll level rest

end

end Intake.Markup.Element
