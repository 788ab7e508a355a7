import Intake.Model.Zero
import Intake.Proofs.Value.Entries
import Mathlib.Data.List.Induction
import Mathlib.Data.List.Pairwise

/-!
Documents that are completed with zero values. What is filled in for one field may stand under a name of another, and
then that one counts as given, too. So of the fields that a document lacks those are filled, in their order and behind
what was there, that none filled before covers; and what is completed lacks nothing.
-/

namespace Intake

namespace Descriptor

variable {d : Descriptor} {ds : List Descriptor}

/-- What a document is completed with for a field. -/
def zeroEntry (d : Descriptor) : Value × Value := (.text d.wireName, d.zero)

/-- Whether a field counts as given once another is filled: it is called by the key of that one. -/
def Covers (d e : Descriptor) : Prop := d.wireName = e.wireName ∨ d.wireName = e.name

instance (d e : Descriptor) : Decidable (d.Covers e) := inferInstanceAs (Decidable (_ ∨ _))

/-- The fields that stay if one after another is left out that an earlier one, of those that stay, covers. -/
def uncovered (ds : List Descriptor) : List Descriptor := (ds.reverse.pwFilter fun e d => ¬ d.Covers e).reverse

theorem uncovered_sublist (ds : List Descriptor) : (uncovered ds).Sublist ds :=
  List.reverse_sublist.mp (by rw [uncovered, List.reverse_reverse]; exact List.pwFilter_sublist _)

/-- All fields stay exactly if none covers a later one. -/
theorem uncovered_eq_self_iff : uncovered ds = ds ↔ ds.Pairwise fun d e => ¬ d.Covers e := by
  rw [uncovered, List.reverse_eq_iff, List.pwFilter_eq_self, List.pairwise_reverse]

/-- One more field stays unless one of those that stay covers it. -/
theorem uncovered_concat (ds : List Descriptor) (d : Descriptor) :
    uncovered (ds ++ [d]) = if ∃ e ∈ uncovered ds, e.Covers d then uncovered ds else uncovered ds ++ [d] := by
  have hall : (∀ e ∈ ds.reverse.pwFilter (fun e d => ¬ d.Covers e), ¬ e.Covers d) ↔
      ¬ ∃ e ∈ uncovered ds, e.Covers d := by
    simp [uncovered]
  rw [uncovered, List.reverse_append, List.reverse_singleton, List.singleton_append]
  split
  · rename_i hcovered
    rw [List.pwFilter_cons_of_neg fun h => hall.mp h hcovered, uncovered]
  · rename_i hfree
    rw [List.pwFilter_cons_of_pos (hall.mpr hfree), List.reverse_cons, uncovered]

/-- Every field is covered by one of those that stay. -/
theorem exists_covers (hd : d ∈ ds) : ∃ e ∈ uncovered ds, e.Covers d := by
  induction ds using List.reverseRecOn with
  | nil => cases hd
  | append_singleton ds last ih =>
      rw [uncovered_concat]
      split
      · rename_i hlast
        rcases List.mem_append.mp hd with hbefore | hself
        · exact ih hbefore
        · rwa [List.mem_singleton.mp hself]
      · rcases List.mem_append.mp hd with hbefore | hself
        · obtain ⟨e, he, hcovers⟩ := ih hbefore
          exact ⟨e, List.mem_append_left _ he, hcovers⟩
        · exact ⟨d, List.mem_append_right _ hself, .inl rfl⟩

/-- In a document with more filled in, a field is given if it was, or if one that was filled covers it. -/
theorem isGiven_append_zeroEntries (d : Descriptor) (es : List (Value × Value)) (filled : List Descriptor) :
    d.isGiven (es ++ filled.map zeroEntry) = true ↔ d.isGiven es = true ∨ ∃ e ∈ filled, e.Covers d := by
  have hkey : ∀ key, (Value.lookupText key (es ++ filled.map zeroEntry)).isSome = true ↔
      (Value.lookupText key es).isSome = true ∨ ∃ e ∈ filled, e.wireName = key := by
    intro key
    have hfilled : (Value.lookupText key (filled.map zeroEntry)).isSome = true ↔ ∃ e ∈ filled, e.wireName = key := by
      rw [Value.lookupText, Value.lookupKey, Option.isSome_map, List.find?_isSome]
      simp [zeroEntry]
    rw [Value.lookupText_append, Option.isSome_or, Bool.or_eq_true, hfilled]
  simp only [isGiven, Bool.or_eq_true, hkey, Covers, and_or_left, exists_or]
  exact or_or_or_comm

end Descriptor

namespace Shape

variable {d : Descriptor}

/-- Whether a document is completed with the zero value of a field. -/
def needsZero (es : List (Value × Value)) (d : Descriptor) : Bool := d.isFilled && !d.isGiven es

theorem needsZero_append_zeroEntries (d : Descriptor) (es : List (Value × Value)) (filled : List Descriptor) :
    needsZero (es ++ filled.map Descriptor.zeroEntry) d = true ↔
      needsZero es d = true ∧ ¬ ∃ e ∈ filled, e.Covers d := by
  have hgiven := d.isGiven_append_zeroEntries es filled
  rw [needsZero, needsZero, Bool.and_eq_true, Bool.and_eq_true, Bool.not_eq_true', Bool.not_eq_true',
    ← Bool.not_eq_true, ← Bool.not_eq_true, hgiven, not_or, and_assoc]

/-- A completed document holds what was there, and behind it the zero values of the lacking fields that none filled
before covers. -/
theorem withZeroValues_eq_append (ds : List Descriptor) (es : List (Value × Value)) :
    withZeroValues ds es = es ++ (Descriptor.uncovered (ds.filter (needsZero es))).map Descriptor.zeroEntry := by
  induction ds using List.reverseRecOn with
  | nil => exact (List.append_nil es).symm
  | append_singleton ds d ih =>
      have hstep : withZeroValues (ds ++ [d]) es =
          if needsZero (withZeroValues ds es) d then withZeroValues ds es ++ [d.zeroEntry]
          else withZeroValues ds es := by
        rw [withZeroValues, List.foldl_concat]
        rfl
      rw [ih] at hstep
      rw [hstep, List.filter_append]
      by_cases hd : needsZero es d = true
      · rw [List.filter_cons_of_pos hd, List.filter_nil, Descriptor.uncovered_concat]
        by_cases hcovered : ∃ e ∈ Descriptor.uncovered (ds.filter (needsZero es)), e.Covers d
        · rw [if_neg fun h => ((needsZero_append_zeroEntries _ _ _).mp h).2 hcovered, if_pos hcovered]
        · rw [if_pos ((needsZero_append_zeroEntries _ _ _).mpr ⟨hd, hcovered⟩), if_neg hcovered, List.map_append,
            List.append_assoc]
          rfl
      · rw [List.filter_cons_of_neg hd, List.filter_nil, List.append_nil,
          if_neg fun h => hd ((needsZero_append_zeroEntries _ _ _).mp h).1]

/-- A completed document lacks nothing. -/
theorem needsZero_withZeroValues {ds : List Descriptor} (hd : d ∈ ds) (es : List (Value × Value)) :
    needsZero (withZeroValues ds es) d = false := by
  rw [← Bool.not_eq_true, withZeroValues_eq_append, needsZero_append_zeroEntries]
  rintro ⟨hneeds, hfree⟩
  exact hfree (Descriptor.exists_covers (List.mem_filter.mpr ⟨hd, hneeds⟩))

/-- A completed document is not completed with anything more. -/
theorem withZeroValues_withZeroValues (ds : List Descriptor) (es : List (Value × Value)) :
    withZeroValues ds (withZeroValues ds es) = withZeroValues ds es := by
  have hnone : ds.filter (needsZero (withZeroValues ds es)) = [] :=
    List.filter_eq_nil_iff.mpr fun d hd => Bool.not_eq_true _ ▸ needsZero_withZeroValues hd es
  rw [withZeroValues_eq_append ds (withZeroValues ds es), hnone]
  exact List.append_nil _

end Shape
end Intake
