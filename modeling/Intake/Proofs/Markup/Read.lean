import Intake.Markup.Document
import Intake.Proofs.Markup.Layout
import Intake.Proofs.Markup.Written
import Intake.Proofs.Shape.Document

/-!
What records see of their elements. A field sees the attribute of its name or the elements of its name,
in whatever layout, and nothing of what other fields have added; what is found for the fields makes a
document.
-/

namespace Intake.Markup

open Element (Relaid)

variable {c : Catalogue}

theorem partsOf_eq_map (es : List Element) : partsOf c es = es.map (part c) := by
  induction es with
  | nil => rfl
  | cons e rest ih => rw [partsOf, ih, List.map_cons]

theorem name_part (e : Element) : (part c e).name = e.name := by
  cases e
  rfl

theorem value_part_of_model {d : Descriptor} {model : String} (hmodel : d.model = some model) (e : Element) :
    (part c e).value d = (e.entries c model).map .dict := by
  cases e
  simp only [part, hmodel]
  rfl

theorem value_part_of_no_model {d : Descriptor} (hmodel : d.model = none) (e : Element) :
    (part c e).value d = .ok (.text e.text) := by
  cases e
  simp only [part, hmodel]
  rfl

variable {fields : List Field} {addition : Field → Addition} {place : Field → String}

/-- Under the name of a place stands the attribute that its field has added. -/
theorem lookup_attributes {f : Field} (hplace : ∀ f ∈ fields, (addition f).IsAt (place f))
    (hnodup : fields.Nodup) (hnames : (fields.map place).Nodup) (hf : f ∈ fields) :
    (fields.flatMap fun f => (addition f).attributes).lookup (place f) =
      (addition f).attributes.lookup (place f) := by
  obtain ⟨before, after, hwhole, hothers⟩ : ∃ before after,
      (fields.flatMap fun f => (addition f).attributes) = before ++ (addition f).attributes ++ after ∧
        ∀ p ∈ before ++ after, ∃ g ∈ fields, g ≠ f ∧ p ∈ (addition g).attributes := exists_flatMap_eq hnodup hf
  have hnone : ∀ p ∈ before ++ after, (place f == p.1) = false := by
    intro p hp
    obtain ⟨g, hg, hne, hpg⟩ := hothers p hp
    rw [(hplace g hg).1 p hpg]
    exact beq_false_of_ne fun hsame => hne (List.inj_on_of_nodup_map hnames hg hf hsame.symm)
  have hbefore : before.lookup (place f) = none :=
    List.lookup_eq_none_iff.mpr fun p hp => by simp [bne, hnone p (List.mem_append_left after hp)]
  have hafter : after.lookup (place f) = none :=
    List.lookup_eq_none_iff.mpr fun p hp => by simp [bne, hnone p (List.mem_append_right before hp)]
  rw [hwhole, List.lookup_append, List.lookup_append, hbefore, hafter, Option.none_or, Option.or_none]

/-- Under the name of a place stand the elements that its field has added. -/
theorem filter_children {f : Field} (hplace : ∀ f ∈ fields, (addition f).IsAt (place f))
    (hnodup : fields.Nodup) (hnames : (fields.map place).Nodup) (hf : f ∈ fields) :
    (fields.flatMap fun f => (addition f).children).filter (fun e => e.name == place f) =
      (addition f).children := by
  obtain ⟨before, after, hwhole, hothers⟩ : ∃ before after,
      (fields.flatMap fun f => (addition f).children) = before ++ (addition f).children ++ after ∧
        ∀ e ∈ before ++ after, ∃ g ∈ fields, g ≠ f ∧ e ∈ (addition g).children := exists_flatMap_eq hnodup hf
  have hnone : ∀ e ∈ before ++ after, ¬ (e.name == place f) = true := by
    intro e he
    obtain ⟨g, hg, hne, heg⟩ := hothers e he
    rw [(hplace g hg).2 e heg, beq_iff_eq]
    exact fun hsame => hne (List.inj_on_of_nodup_map hnames hg hf hsame)
  have hown : ∀ e ∈ (addition f).children, (e.name == place f) = true := fun e he =>
    beq_iff_eq.mpr ((hplace f hf).2 e he)
  rw [hwhole, List.filter_append, List.filter_append, List.filter_eq_self.mpr hown,
    List.filter_eq_nil_iff.mpr fun e he => hnone e (List.mem_append_left after he),
    List.filter_eq_nil_iff.mpr fun e he => hnone e (List.mem_append_right before he), List.nil_append,
    List.append_nil]

/-- What a field sees of an element in another layout is what it has added, in another layout. -/
theorem exists_parts {f : Field} {es : List Element} (hplace : ∀ f ∈ fields, (addition f).IsAt (place f))
    (hnodup : fields.Nodup) (hnames : (fields.map place).Nodup) (hf : f ∈ fields)
    (hes : List.Forall₂ Relaid (fields.flatMap fun f => (addition f).children) es) :
    ∃ own, (partsOf c es).filter (fun p => p.name == place f) = own.map (part c) ∧
      List.Forall₂ Relaid (addition f).children own := by
  refine ⟨es.filter fun e => e.name == place f, ?_, ?_⟩
  · rw [partsOf_eq_map, List.filter_map]
    simp only [Function.comp_def, name_part]
  · rw [← filter_children hplace hnodup hnames hf]
    refine List.rel_filter ?_ hes
    intro e e' h
    simp only [h.name_eq]

/-- Fields of which something or nothing is found make a document of what is found. -/
theorem readPlaces_of_forall {m : Model} {name : String} {attributes : List (String × String)}
    {parts : List Part} {found : Field → Option Value} (hm : c.model? name = some m)
    (hdescribed : ∀ f ∈ m.fields, c.describeField f = .ok (c.descriptorOf f))
    (hapart : m.fields.Pairwise Field.Apart)
    (hread : ∀ f ∈ m.fields, readPlace attributes parts (c.descriptorOf f) = .ok (found f)) :
    readPlaces c name attributes parts = .ok (Value.textEntries (Shape.entriesFor m.fields found)) := by
  have hdescribe := Catalogue.describe_of_forall hdescribed
  have hentries : ∀ f ∈ m.fields, (do
      return (← readPlace attributes parts (c.descriptorOf f)).map fun v =>
        (Value.text (c.descriptorOf f).wireName, v) : Except Fault (Option (Value × Value))) =
      .ok ((found f).map fun v => (.text f.wireName, v)) := by
    intro f hf
    rw [hread f hf, (Catalogue.names_of_describeField (hdescribed f hf)).2.1]
    rfl
  have hfound : (m.fields.filterMap fun f => (found f).map fun v => (Value.text f.wireName, v)) =
      Value.textEntries (Shape.entriesFor m.fields found) := by
    unfold Value.textEntries Shape.entriesFor
    rw [List.map_filterMap]
    congr 1
    funext f
    cases found f <;> rfl
  have hdict : Value.dictOf (Value.textEntries (Shape.entriesFor m.fields found)) =
      Value.textEntries (Shape.entriesFor m.fields found) :=
    Value.dictOf_textEntries (Shape.nodup_entriesFor hapart)
  rw [readPlaces]
  simp only [hm, Action.describe_eq_ok hdescribe, ok_bind]
  rw [filterMapM_map, filterMapM_of_forall hentries, ok_bind, hfound, hdict, pure_eq_ok]

/-- A document that was read for a record holds what was read for its fields. -/
theorem exists_found {m : Model} {name : String} {attributes : List (String × String)} {parts : List Part}
    {es : List (Value × Value)} (hm : c.model? name = some m)
    (hdescribed : ∀ f ∈ m.fields, c.describeField f = .ok (c.descriptorOf f))
    (hapart : m.fields.Pairwise Field.Apart) (h : readPlaces c name attributes parts = .ok es) :
    ∃ found, (∀ f ∈ m.fields, readPlace attributes parts (c.descriptorOf f) = .ok (found f)) ∧
      es = Value.textEntries (Shape.entriesFor m.fields found) := by
  have hread : ∀ f ∈ m.fields, ∃ found, readPlace attributes parts (c.descriptorOf f) = .ok found := by
    intro f hf
    have hdescribe := Catalogue.describe_of_forall hdescribed
    rw [readPlaces] at h
    simp only [hm, Action.describe_eq_ok hdescribe, ok_bind] at h
    obtain ⟨all, hall, -⟩ := exists_of_bind_eq_ok h
    obtain ⟨entry, hentry⟩ := exists_of_filterMapM_eq_ok hall (c.descriptorOf f) (List.mem_map_of_mem hf)
    obtain ⟨found, hfound, -⟩ := exists_of_bind_eq_ok hentry
    exact ⟨found, hfound⟩
  choose! found hfound using hread
  exact ⟨found, hfound, Except.ok.inj (h.symm.trans (readPlaces_of_forall hm hdescribed hapart hfound))⟩

end Intake.Markup
