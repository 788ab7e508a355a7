import Mathlib
import Intake.Proofs.Model.Instance

/-!
What documents are completed with. A model fills in exactly the fields that a document lacks, each with its own zero
value and in their order, if the key of none of them is a name of a later one; otherwise a field that is covered so is
left out, though nothing was given for it. What was given stays as it is, and completing once is enough.
-/

namespace Intake

variable {c : Catalogue} {m : Model} {f : Field} {es : List (Value × Value)}

/-! ### What a field says about its absence -/

/-- Whether the annotation of a field names a part of a request, if there is one. -/
def Field.hasKnownSource (f : Field) : Bool :=
  (Source.ofLabel? (f.annotations.source.getD Source.auto.label)).isSome

/-- Whether a document lacks a field that is to be filled: the field has no default, it may be absent or its kind has a
zero value, and nothing stands under its key or its name. -/
def Field.isLacking (c : Catalogue) (es : List (Value × Value)) (f : Field) : Bool :=
  f.default.isNone && (f.type.unwrap.2 || c.kindOf f.type.unwrap.1 != .any) &&
    ((Value.lookupText f.wireName es).isNone && (Value.lookupText f.name es).isNone)

/-- The fields of a model that a document lacks, in their order. -/
def Model.lacking (c : Catalogue) (m : Model) (es : List (Value × Value)) : List Field :=
  m.fields.filter (Field.isLacking c es)

/-- The zero value of a field under its key: nothing where the field may be absent, and else the zero value of its
kind. -/
def Field.zeroEntry (c : Catalogue) (f : Field) : Value × Value :=
  (.text f.wireName, if f.type.unwrap.2 then .null else (c.kindOf f.type.unwrap.1).zero?.getD .null)

/-- Whether a field is called by the key of another. -/
def Field.Covers (f g : Field) : Prop := f.wireName = g.wireName ∨ f.wireName = g.name

instance (f g : Field) : Decidable (f.Covers g) := inferInstanceAs (Decidable (_ ∨ _))

/-- A field says what it is exactly if its annotation names a part of a request. -/
theorem exists_describeField_iff : (∃ d, c.describeField f = .ok d) ↔ f.hasKnownSource = true := by
  rw [Field.hasKnownSource, Option.isSome_iff_exists]
  constructor
  · rintro ⟨d, hd⟩
    rw [Catalogue.describeField] at hd
    dsimp only at hd
    cases hsource : Source.ofLabel? (f.annotations.source.getD Source.auto.label) with
    | some source => exact ⟨source, rfl⟩
    | none =>
        rw [hsource] at hd
        cases hd
  · rintro ⟨source, hsource⟩
    rw [Catalogue.describeField]
    dsimp only
    rw [hsource]
    exact ⟨_, rfl⟩

theorem exists_describe_iff :
    (∃ ds, c.describe m = .ok ds) ↔ ∀ f ∈ m.fields, f.hasKnownSource = true := by
  constructor
  · rintro ⟨ds, hds⟩ f hf
    exact exists_describeField_iff.mp ⟨_, (Catalogue.describe_eq_map hds).2 f hf⟩
  · intro hknown
    refine ⟨_, Catalogue.describe_of_forall fun f hf => ?_⟩
    obtain ⟨d, hd⟩ := exists_describeField_iff.mpr (hknown f hf)
    rw [Catalogue.descriptorOf_eq hd, hd]

section described

variable (hd : c.describeField f = .ok (c.descriptorOf f))

include hd

theorem needsZero_descriptorOf (es : List (Value × Value)) :
    Shape.needsZero es (c.descriptorOf f) = f.isLacking c es := by
  obtain ⟨hname, hwire, -, hmay, hdefault⟩ := Catalogue.names_of_describeField hd
  rw [Shape.needsZero, Descriptor.isFilled, Descriptor.isGiven, hname, hwire, hmay, hdefault,
    (Catalogue.kinds_of_field hd).1, Field.isLacking, Bool.not_or, Option.not_isSome, Option.not_isSome,
    Option.not_isSome]

theorem zeroEntry_descriptorOf : (c.descriptorOf f).zeroEntry = f.zeroEntry c := by
  obtain ⟨-, hwire, -, hmay, -⟩ := Catalogue.names_of_describeField hd
  rw [Descriptor.zeroEntry, Descriptor.zero, hwire, hmay, (Catalogue.kinds_of_field hd).1, Field.zeroEntry]

end described

/-! ### Completing for a model -/

section described

variable (hdescribed : ∀ f ∈ m.fields, c.describeField f = .ok (c.descriptorOf f))

include hdescribed

theorem covers_descriptorOf_iff {g : Field} (hf : f ∈ m.fields) (hg : g ∈ m.fields) :
    (c.descriptorOf f).Covers (c.descriptorOf g) ↔ f.Covers g := by
  have hfnames := Catalogue.names_of_describeField (hdescribed f hf)
  have hgnames := Catalogue.names_of_describeField (hdescribed g hg)
  rw [Descriptor.Covers, Field.Covers, hfnames.2.1, hgnames.1, hgnames.2.1]

/-- The descriptors that a document lacks are those of the fields that it lacks. -/
theorem filter_needsZero_eq (es : List (Value × Value)) :
    (m.fields.map c.descriptorOf).filter (Shape.needsZero es) = (m.lacking c es).map c.descriptorOf := by
  rw [List.filter_map, Model.lacking]
  congr 1
  exact List.filter_congr fun f hf => needsZero_descriptorOf (hdescribed f hf) es

theorem pairwise_covers_iff (es : List (Value × Value)) :
    ((m.lacking c es).map c.descriptorOf).Pairwise (fun d e => ¬ d.Covers e) ↔
      (m.lacking c es).Pairwise fun f g => ¬ f.Covers g := by
  rw [List.pairwise_map]
  refine List.Pairwise.iff_of_mem fun hf hg => not_congr ?_
  exact covers_descriptorOf_iff hdescribed (List.mem_of_mem_filter hf) (List.mem_of_mem_filter hg)

/-- A document is completed with the zero values of some of the fields that it lacks, in their order, and every field
that it lacks is covered by one of them. -/
theorem exists_filled (es : List (Value × Value)) :
    ∃ filled : List Field, filled.Sublist (m.lacking c es) ∧ (∀ f ∈ m.lacking c es, ∃ g ∈ filled, g.Covers f) ∧
      Descriptor.uncovered ((m.lacking c es).map c.descriptorOf) = filled.map c.descriptorOf ∧
      withZeroValues (m.fields.map c.descriptorOf) es = es ++ filled.map (Field.zeroEntry c) := by
  obtain ⟨filled, hsub, hfilled⟩ :=
    List.sublist_map_iff.mp (Descriptor.uncovered_sublist ((m.lacking c es).map c.descriptorOf))
  have hmem : ∀ f ∈ m.lacking c es, f ∈ m.fields := fun f hf => List.mem_of_mem_filter hf
  refine ⟨filled, hsub, fun f hf => ?_, hfilled, ?_⟩
  · obtain ⟨d, hd, hcovers⟩ := Descriptor.exists_covers (List.mem_map_of_mem (f := c.descriptorOf) hf)
    rw [hfilled] at hd
    obtain ⟨g, hg, rfl⟩ := List.mem_map.mp hd
    exact ⟨g, hg, (covers_descriptorOf_iff hdescribed (hmem g (hsub.subset hg)) (hmem f hf)).mp hcovers⟩
  · rw [Shape.withZeroValues_eq_append, filter_needsZero_eq hdescribed, hfilled, List.map_map]
    congr 1
    exact List.map_congr_left fun f hf => zeroEntry_descriptorOf (hdescribed f (hmem f (hsub.subset hf)))

/-- Every field that a document lacks is filled exactly if none of them covers a later one. -/
theorem withZeroValues_eq_lacking_iff (es : List (Value × Value)) :
    withZeroValues (m.fields.map c.descriptorOf) es = es ++ (m.lacking c es).map (Field.zeroEntry c) ↔
      (m.lacking c es).Pairwise fun f g => ¬ f.Covers g := by
  obtain ⟨filled, hsub, -, hfilled, hwhole⟩ := exists_filled hdescribed es
  have hall : ∀ {β : Type} (h : Field → β), filled.map h = (m.lacking c es).map h ↔ filled = m.lacking c es := fun h =>
    ⟨fun hsame => hsub.eq_of_length (by simpa using congrArg List.length hsame), fun hsame => by rw [hsame]⟩
  rw [hwhole, List.append_cancel_left_eq, ← pairwise_covers_iff hdescribed, ← Descriptor.uncovered_eq_self_iff, hfilled,
    hall, hall]

end described

/-- A model can complete a document if the annotations of its fields name parts of a request. What was given stays in
front as it is, and behind it stand the zero values of fields that the document lacks, each under the key of its field
and in the order of the fields; a lacking field without one is called by the key of another that was filled. So all
lacking fields get their zero values, and nothing else is added, exactly if none of them is called by the key of an
earlier one. Completing once more changes nothing. -/
theorem completion_fills_lacking_iff (c : Catalogue) (m : Model) (es : List (Value × Value)) :
    ((c.describe m).map (withZeroValues · es) = .ok (es ++ (m.lacking c es).map (Field.zeroEntry c)) ↔
      (∀ f ∈ m.fields, f.hasKnownSource = true) ∧ (m.lacking c es).Pairwise fun f g => ¬ f.Covers g) ∧
    ((∀ f ∈ m.fields, f.hasKnownSource = true) → ∃ filled : List Field,
      filled.Sublist (m.lacking c es) ∧ (∀ f ∈ m.lacking c es, ∃ g ∈ filled, g.Covers f) ∧
        (c.describe m).map (withZeroValues · es) = .ok (es ++ filled.map (Field.zeroEntry c)) ∧
        (c.describe m).map (withZeroValues · (es ++ filled.map (Field.zeroEntry c))) =
          .ok (es ++ filled.map (Field.zeroEntry c))) := by
  refine ⟨⟨fun hwhole => ?_, fun ⟨hknown, hfree⟩ => ?_⟩, fun hknown => ?_⟩
  · obtain ⟨ds, hds, hwhole⟩ := exists_of_map_eq_ok hwhole
    obtain ⟨rfl, hdescribed⟩ := Catalogue.describe_eq_map hds
    exact ⟨exists_describe_iff.mp ⟨_, hds⟩, (withZeroValues_eq_lacking_iff hdescribed es).mp hwhole⟩
  · obtain ⟨ds, hds⟩ := exists_describe_iff.mpr hknown
    obtain ⟨rfl, hdescribed⟩ := Catalogue.describe_eq_map hds
    rw [hds, Except.map, (withZeroValues_eq_lacking_iff hdescribed es).mpr hfree]
  · obtain ⟨ds, hds⟩ := exists_describe_iff.mpr hknown
    obtain ⟨rfl, hdescribed⟩ := Catalogue.describe_eq_map hds
    obtain ⟨filled, hsub, hcovered, -, hwhole⟩ := exists_filled hdescribed es
    refine ⟨filled, hsub, hcovered, ?_, ?_⟩
    · rw [hds, Except.map, hwhole]
    · rw [hds, Except.map, ← hwhole, Shape.withZeroValues_withZeroValues]

/-- A model of reminders: what to do, how often it was put off, notes, when it is due if it is, and anything else. -/
def reminderModel : Model :=
  plainModel "Reminder" [plainField "task" .str, { plainField "delays" .int with default := some (.value (.int 0)) },
    { plainField "notes" (.list .str) with documentKey := some "remarks" }, plainField "due" (.union [.moment, .null]),
    plainField "rest" .any]

def reminderCatalogue : Catalogue := ⟨[reminderModel], []⟩

/-- What is given of a reminder. -/
def reminderEntries : List (Value × Value) := [(.text "task", .text "call")]

/-- To a reminder that says what to do the notes and the date are added, and then nothing more. -/
theorem completion_fills_lacking_iff_reminder :
    (reminderCatalogue.describe reminderModel).map (withZeroValues · reminderEntries) =
        .ok (reminderEntries ++ [(.text "remarks", .list []), (.text "due", .null)]) ∧
      ∃ filled : List Field, filled.Sublist (reminderModel.lacking reminderCatalogue reminderEntries) ∧
        (reminderCatalogue.describe reminderModel).map
            (withZeroValues · (reminderEntries ++ filled.map (Field.zeroEntry reminderCatalogue))) =
          .ok (reminderEntries ++ filled.map (Field.zeroEntry reminderCatalogue)) := by
  have hknown : ∀ f ∈ reminderModel.fields, f.hasKnownSource = true := by decide
  have hzeros : (reminderModel.lacking reminderCatalogue reminderEntries).map (Field.zeroEntry reminderCatalogue) =
      [(.text "remarks", .list []), (.text "due", .null)] := by cbv
  obtain ⟨hall, hfilled⟩ := completion_fills_lacking_iff reminderCatalogue reminderModel reminderEntries
  rw [hzeros] at hall
  obtain ⟨filled, hsub, -, -, hagain⟩ := hfilled hknown
  exact ⟨hall.mpr ⟨hknown, by decide +kernel⟩, filled, hsub, hagain⟩

/-- A model of wares, in which the number stands under the key that is the name of the code. -/
def wareModel : Model :=
  plainModel "Ware" [{ plainField "number" .int with documentKey := some "code" },
    { plainField "code" .str with documentKey := some "sku" }]

def wareCatalogue : Catalogue := ⟨[wareModel], []⟩

/-- A document that is empty lacks both fields of a ware. Only the first is filled, since it stands under the name
of the second; and the second finds the number there, which it refuses. -/
theorem completion_misses_covered :
    (wareModel.lacking wareCatalogue []).map Field.wireName = ["code", "sku"] ∧
      (wareCatalogue.describe wareModel).map (withZeroValues · []) = .ok [(.text "code", .int 0)] ∧
      (Shape.build wareCatalogue "Ware" (.dict [])).toOption = none ∧
      ¬ ∀ (c : Catalogue) (m : Model) (ds : List Descriptor) (es : List (Value × Value)), c.describe m = .ok ds →
        withZeroValues ds es = es ++ (m.lacking c es).map (Field.zeroEntry c) := by
  have hone : (wareCatalogue.describe wareModel).map (withZeroValues · []) = .ok [(.text "code", .int 0)] := by
    cbv
  have htwo : (wareModel.lacking wareCatalogue []).map Field.wireName = ["code", "sku"] := by decide +kernel
  refine ⟨htwo, hone, by cbv, fun hall => ?_⟩
  obtain ⟨ds, hds, hfilled⟩ := exists_of_map_eq_ok hone
  have hlength := congrArg List.length (hall _ _ ds [] hds)
  rw [hfilled, List.nil_append, List.length_map, ← List.length_map Field.wireName, htwo] at hlength
  exact absurd hlength (by decide)

end Intake
