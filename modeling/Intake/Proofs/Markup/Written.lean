import Intake.Markup.RecordElement
import Intake.Proofs.Model.Description
import Intake.Proofs.Scalar

/-!
What records add to their elements. Where the fields of a model have places of different names, the
element of a record has the attributes and the elements of its fields side by side, in the order of the
fields.
-/

namespace Intake.Markup

variable {c : Catalogue}

namespace Addition

instance : Inhabited Addition := ⟨.nothing⟩

/-- The attributes that are added. -/
def attributes : Addition → List (String × String)
  | .attribute name value => [(name, value)]
  | _ => []

/-- The elements that are added. -/
def children : Addition → List Element
  | .elements es => es
  | _ => []

/-- What is added is at the place of a name. -/
def IsAt (a : Addition) (name : String) : Prop :=
  (∀ p ∈ a.attributes, p.1 = name) ∧ ∀ e ∈ a.children, e.name = name

end Addition

theorem putAttribute_of_not_mem {name : String} (value : String) {attributes : List (String × String)}
    (hnew : name ∉ attributes.map Prod.fst) :
    Element.putAttribute name value attributes = attributes ++ [(name, value)] := by
  induction attributes with
  | nil => rfl
  | cons a rest ih =>
      rw [List.map_cons, List.mem_cons, not_or] at hnew
      have hother : (a.1 == name) = false := beq_false_of_ne fun h => hnew.1 h.symm
      simp [Element.putAttribute, hother, ih hnew.2]

theorem lookup_putAttribute (name value : String) (attributes : List (String × String)) (other : String) :
    (Element.putAttribute name value attributes).lookup other =
      if other = name then some value else attributes.lookup other := by
  induction attributes with
  | nil =>
      rw [Element.putAttribute, List.lookup_cons]
      by_cases hother : other = name
      · simp [hother]
      · rw [beq_false_of_ne hother, if_neg hother]
  | cons a rest ih =>
      obtain ⟨first, v⟩ := a
      rw [Element.putAttribute]
      by_cases hfirst : first = name
      · rw [if_pos (beq_iff_eq.mpr hfirst), List.lookup_cons, List.lookup_cons, hfirst]
        by_cases hother : other = name
        · simp [hother]
        · rw [beq_false_of_ne hother, if_neg hother]
      · rw [if_neg (by simpa using hfirst), List.lookup_cons, List.lookup_cons, ih]
        by_cases hother : other = first
        · simp [hother, hfirst]
        · rw [beq_false_of_ne hother]

theorem Element.name_with (key value : String) (e : Element) : (e.with key value).name = e.name := by
  cases e
  rfl

theorem Element.attribute?_with (key value : String) (e : Element) : (e.with key value).attribute? key = some value := by
  cases e
  exact (lookup_putAttribute key value _ key).trans (if_pos rfl)

/-- What is added at a new place follows what is there. -/
theorem add_mk {tag : String} {attributes : List (String × String)} {children : List Element} {a : Addition}
    (hnew : ∀ p ∈ a.attributes, p.1 ∉ attributes.map Prod.fst) :
    (Element.mk tag attributes "" children "").add a =
      .mk tag (attributes ++ a.attributes) "" (children ++ a.children) "" := by
  cases a with
  | nothing => simp [Element.add, Addition.attributes, Addition.children]
  | «attribute» name value =>
      have hput := putAttribute_of_not_mem value (hnew (name, value) (by simp [Addition.attributes]))
      simp [Element.add, Element.with, hput, Addition.attributes, Addition.children]
  | elements es => simp [Element.add, Addition.attributes, Addition.children]

theorem lookup_writingEach (name : String) (attributes : List (String × Value)) :
    (writingEach c attributes).lookup name = (attributes.lookup name).map (writing c) := by
  induction attributes with
  | nil => rfl
  | cons a rest ih =>
      obtain ⟨key, v⟩ := a
      rw [writingEach, List.lookup_cons, List.lookup_cons, ih]
      cases name == key <;> rfl

/-- What fields add at places of different names stands side by side. -/
theorem foldl_add (tag : String) {fields : List Field} {addition : Field → Addition} {place : Field → String}
    (hplace : ∀ f ∈ fields, (addition f).IsAt (place f)) (hnames : (fields.map place).Nodup)
    (written : List (String × String)) (children : List Element)
    (hnew : ∀ f ∈ fields, place f ∉ written.map Prod.fst) :
    fields.foldl (fun e f => e.add (addition f)) (Element.mk tag written "" children "") =
      .mk tag (written ++ fields.flatMap fun f => (addition f).attributes) ""
        (children ++ fields.flatMap fun f => (addition f).children) "" := by
  induction fields generalizing written children with
  | nil => simp
  | cons f rest ih =>
      have hf := hplace f List.mem_cons_self
      have hown : ∀ p ∈ (addition f).attributes, p.1 ∉ written.map Prod.fst := by
        intro p hp
        rw [hf.1 p hp]
        exact hnew f List.mem_cons_self
      rw [List.map_cons, List.nodup_cons] at hnames
      have hlater : ∀ g ∈ rest, place g ∉ (written ++ (addition f).attributes).map Prod.fst := by
        intro g hg
        rw [List.map_append, List.mem_append, not_or]
        refine ⟨hnew g (List.mem_cons_of_mem f hg), ?_⟩
        intro hsame
        obtain ⟨p, hp, hname⟩ := List.mem_map.mp hsame
        rw [hf.1 p hp] at hname
        exact hnames.1 (List.mem_map.mpr ⟨g, hg, hname.symm⟩)
      have hrest := ih (fun g hg => hplace g (List.mem_cons_of_mem f hg)) hnames.2
        (written ++ (addition f).attributes) (children ++ (addition f).children) hlater
      rw [List.foldl_cons, add_mk hown, hrest]
      simp

/-- The element of fields that are written one by one. -/
theorem writeFields_of_forall (tag : String) {attributes : List (String × Writing)} {fields : List Field}
    {writingOf : Field → Writing} {addition : Field → Addition}
    (hlookup : ∀ f ∈ fields, attributes.lookup (c.descriptorOf f).name = some (writingOf f))
    (hwrite : ∀ f ∈ fields, writeField (c.descriptorOf f) (writingOf f) = .ok (addition f))
    (hplace : ∀ f ∈ fields, (addition f).IsAt (c.descriptorOf f).xmlName)
    (hnames : (fields.map fun f => (c.descriptorOf f).xmlName).Nodup) :
    writeFields tag attributes (fields.map c.descriptorOf) =
      .ok (.mk tag (fields.flatMap fun f => (addition f).attributes) ""
        (fields.flatMap fun f => (addition f).children) "") := by
  have hfold := foldl_add tag hplace hnames [] [] (by simp)
  rw [List.nil_append, List.nil_append] at hfold
  rw [writeFields, List.foldlM_map, ← hfold]
  apply foldlM_of_forall
  intro f hf e
  rw [hlookup f hf]
  simp only [hwrite f hf, ok_bind, pure_eq_ok]

end Intake.Markup
