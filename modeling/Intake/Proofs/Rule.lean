import Intake.Rule
import Mathlib.Data.List.DropRight

/-!
Rules that are read and written. The rules of an annotation are legible: no comma stands in them, no equals sign
in their names, and no blank at their ends. Legible rules that are written between commas are read as they are.
-/

namespace Intake

namespace Text

/-! ### Pieces that are joined, cut and trimmed -/

/-- A text without the separator is one piece. -/
theorem splitChars_of_not_mem {sep : Char} {piece : List Char} (hfree : sep ∉ piece) :
    splitChars sep piece = [piece] := by
  induction piece with
  | nil => rfl
  | cons c rest ih =>
      have hother : c ≠ sep := fun hsame => hfree (by simp [hsame])
      rw [splitChars, if_neg hother, ih fun hrest => hfree (List.mem_cons_of_mem c hrest)]

/-- The first piece ends at the first separator. -/
theorem splitChars_append {sep : Char} {piece : List Char} (rest : List Char) (hfree : sep ∉ piece) :
    splitChars sep (piece ++ sep :: rest) = piece :: splitChars sep rest := by
  induction piece with
  | nil => rw [List.nil_append, splitChars, if_pos rfl]
  | cons c piece ih =>
      have hother : c ≠ sep := fun hsame => hfree (by simp [hsame])
      rw [List.cons_append, splitChars, if_neg hother, ih fun hrest => hfree (List.mem_cons_of_mem c hrest)]

/-- Pieces that are joined are the pieces of the text again. -/
theorem splitChars_joinChars {sep : Char} {pieces : List (List Char)} (hsome : pieces ≠ [])
    (hfree : ∀ piece ∈ pieces, sep ∉ piece) : splitChars sep (joinChars sep pieces) = pieces := by
  induction pieces with
  | nil => exact absurd rfl hsome
  | cons piece rest ih =>
      have hfirst := hfree piece List.mem_cons_self
      cases rest with
      | nil => exact splitChars_of_not_mem hfirst
      | cons next rest =>
          rw [joinChars, splitChars_append _ hfirst, ih (by simp) fun p hp => hfree p (List.mem_cons_of_mem piece hp)]

/-- What is before a cut holds no separator, and nothing is lost by cutting. -/
theorem cutChars_spec (sep : Char) (cs : List Char) :
    sep ∉ (cutChars sep cs).1 ∧
      cs = match (cutChars sep cs).2 with
        | some after => (cutChars sep cs).1 ++ sep :: after
        | none => (cutChars sep cs).1 := by
  induction cs with
  | nil => simp [cutChars]
  | cons c rest ih =>
      rw [cutChars]
      split
      · rename_i hsame
        simp [hsame]
      · rename_i hother
        obtain ⟨hfree, hall⟩ := ih
        refine ⟨by simpa [hfree] using Ne.symm hother, ?_⟩
        cases hafter : (cutChars sep rest).2 with
        | none =>
            rw [hafter] at hall
            exact congrArg (c :: ·) hall
        | some after =>
            rw [hafter] at hall
            exact congrArg (c :: ·) hall

/-- Trimming twice is trimming once. -/
theorem trimBoth_trimBoth (test : Char → Bool) (cs : List Char) :
    trimBoth test (trimBoth test cs) = trimBoth test cs := by
  change ((trimBoth test cs).dropWhile test).rdropWhile test = (cs.dropWhile test).rdropWhile test
  -- The front is trimmed already: trimming the back leaves it as it was.
  have hfront : (trimBoth test cs).dropWhile test = trimBoth test cs := by
    rw [List.dropWhile_eq_self_iff]
    intro hsome
    have hfirst : trimBoth test cs <+: cs.dropWhile test := List.rdropWhile_prefix test _
    rw [hfirst.getElem hsome]
    exact List.dropWhile_get_zero_not test cs (hsome.trans_le hfirst.length_le)
  rw [hfront]
  exact List.rdropWhile_idempotent test _

theorem strip_strip (s : String) : strip (strip s) = strip s := by
  rw [strip, strip, String.toList_ofList, trimBoth_trimBoth]

/-- What is left of a text has no other characters. -/
theorem mem_of_mem_strip {c : Char} {s : String} (hc : c ∈ (strip s).toList) : c ∈ s.toList := by
  rw [strip, String.toList_ofList, trimBoth, List.mem_reverse] at hc
  have hkept := (List.dropWhile_suffix isBlank).mem hc
  exact (List.dropWhile_suffix isBlank).mem (List.mem_reverse.mp hkept)

end Text

namespace Rule

/-- A rule that can stand between commas as it is written. -/
structure IsLegible (r : Rule) : Prop where
  name : '=' ∉ r.name.toList
  free : ',' ∉ r.text.toList
  ne_empty : r.text ≠ ""
  stripped : Text.strip r.text = r.text

/-- Rules as they are written in an annotation. -/
def write (rules : List Rule) : String :=
  String.ofList (Text.joinChars ',' (rules.map fun r => r.text.toList))

/-! ### A rule as a text -/

theorem text_ofText (s : String) : (ofText s).text = s := by
  obtain ⟨-, hall⟩ := Text.cutChars_spec '=' s.toList
  rw [← String.toList_inj]
  cases hafter : (Text.cutChars '=' s.toList).2 with
  | none =>
      rw [hafter] at hall
      simp [ofText, Text.cut, text, hafter, ← hall]
  | some after =>
      rw [hafter] at hall
      simp [ofText, Text.cut, text, hafter, ← hall]

theorem ofText_text {r : Rule} (hname : '=' ∉ r.name.toList) : ofText r.text = r := by
  obtain ⟨name, arg⟩ := r
  cases arg with
  | none => simp [ofText, Text.cut, text, Text.cutChars_of_not_mem hname]
  | some arg => simp [ofText, Text.cut, text, Text.cutChars_append _ hname]

/-! ### The rules of an annotation -/

/-- The rules of an annotation are legible. -/
theorem isLegible_of_mem_parse {written : String} {r : Rule} (hr : r ∈ parse written) : r.IsLegible := by
  obtain ⟨s, hs, rfl⟩ := List.mem_map.mp hr
  obtain ⟨htext, hsome⟩ := List.mem_filter.mp hs
  obtain ⟨token, htoken, rfl⟩ := List.mem_map.mp htext
  obtain ⟨piece, hpiece, rfl⟩ := List.mem_map.mp htoken
  constructor
  · exact (by simpa [ofText, Text.cut] using (Text.cutChars_spec '=' _).1)
  · rw [text_ofText]
    intro hcomma
    exact Text.not_mem_of_mem_splitChars hpiece (by simpa using Text.mem_of_mem_strip hcomma)
  · rw [text_ofText]
    simpa [String.isEmpty_iff] using hsome
  · rw [text_ofText, Text.strip_strip]

/-- Legible rules are read as they were written. -/
theorem parse_write {rules : List Rule} (hrules : ∀ r ∈ rules, r.IsLegible) : parse (write rules) = rules := by
  cases rules with
  | nil => rfl
  | cons first rest =>
      have hpieces : Text.split ',' (write (first :: rest)) = (first :: rest).map text := by
        rw [Text.split, write, String.toList_ofList, Text.splitChars_joinChars (by simp), List.map_map]
        · exact List.map_congr_left fun r _ => String.ofList_toList
        · intro piece hpiece
          obtain ⟨r, hr, rfl⟩ := List.mem_map.mp hpiece
          exact (hrules r hr).free
      have hstripped : ((first :: rest).map text).map Text.strip = (first :: rest).map text := by
        rw [List.map_map]
        exact List.map_congr_left fun r hr => (hrules r hr).stripped
      have hkept : ((first :: rest).map text).filter (fun s => !s.isEmpty) = (first :: rest).map text := by
        rw [List.filter_eq_self]
        intro s hs
        obtain ⟨r, hr, rfl⟩ := List.mem_map.mp hs
        simpa [String.isEmpty_iff] using (hrules r hr).ne_empty
      rw [parse, hpieces, hstripped, hkept, List.map_map]
      exact (List.map_congr_left fun r hr => ofText_text (hrules r hr).name).trans (List.map_id _)

end Rule
end Intake
