import Intake.Validation.Record
import Intake.Proofs.Outcome
import Intake.Proofs.Pattern.Language
import Mathlib.Data.List.Basic

/-!
The format of addresses is a grammar. An address is a local part of letters, digits and signs, an at sign, and
labels with points between them. The pattern of addresses spells exactly these, with the letters and digits of
every script; its alternative with those of ASCII adds nothing.
-/

namespace Intake.Email

open Pattern

/-! ### The grammar -/

/-- A letter or a digit of any script: what words are made of, without the low line. -/
def isLetter (c : Char) : Bool := Text.isWordChar c && c != '_'

/-- A label of a domain: up to 63 letters and hyphens, with a letter at both ends. -/
structure IsLabel (letter : Char → Bool) (cs : List Char) : Prop where
  short : cs.length ≤ 63
  chars : ∀ c ∈ cs, letter c = true ∨ c = '-'
  first : ∃ c ∈ cs.head?, letter c = true
  last : ∃ c ∈ cs.getLast?, letter c = true

theorem isLabel_iff_all {letter : Char → Bool} {cs : List Char} :
    IsLabel letter cs ↔ cs.length ≤ 63 ∧ (cs.all fun c => letter c || c == '-') = true ∧
      cs.head?.any letter = true ∧ cs.getLast?.any letter = true := by
  simp only [List.all_eq_true, Bool.or_eq_true, beq_iff_eq, Option.any_eq_true]
  exact ⟨fun h => ⟨h.short, h.chars, h.first, h.last⟩, fun ⟨hshort, hchars, hfirst, hlast⟩ =>
    ⟨hshort, hchars, hfirst, hlast⟩⟩

instance (letter : Char → Bool) (cs : List Char) : Decidable (IsLabel letter cs) :=
  decidable_of_iff' _ isLabel_iff_all

/-- A local part: some letters and signs. -/
structure IsLocal (letter : Char → Bool) (cs : List Char) : Prop where
  some : cs ≠ []
  chars : ∀ c ∈ cs, letter c = true ∨ c ∈ localSigns.toList

theorem isLocal_iff_all {letter : Char → Bool} {cs : List Char} :
    IsLocal letter cs ↔ cs ≠ [] ∧ (cs.all fun c => letter c || localSigns.toList.contains c) = true := by
  simp only [List.all_eq_true, Bool.or_eq_true, List.contains_iff_mem]
  exact ⟨fun h => ⟨h.some, h.chars⟩, fun ⟨hsome, hchars⟩ => ⟨hsome, hchars⟩⟩

instance (letter : Char → Bool) (cs : List Char) : Decidable (IsLocal letter cs) :=
  decidable_of_iff' _ isLocal_iff_all

/-- An address: a local part, an at sign, and some labels with points between them. -/
def IsAddress (letter : Char → Bool) (cs : List Char) : Prop :=
  ∃ (name : List Char) (labels : List (List Char)), cs = name ++ '@' :: Text.joinChars '.' labels ∧
    IsLocal letter name ∧ labels ≠ [] ∧ ∀ l ∈ labels, IsLabel letter l

section

variable {letter wider : Char → Bool} {cs : List Char}

/-- A label is a letter, or a letter at each end of at most 61 letters and hyphens. -/
theorem isLabel_iff : IsLabel letter cs ↔ ∃ a, letter a = true ∧ (cs = [a] ∨ ∃ inner b,
    cs = a :: (inner ++ [b]) ∧ inner.length ≤ 61 ∧ (∀ c ∈ inner, letter c = true ∨ c = '-') ∧ letter b = true) := by
  constructor
  · rintro ⟨hshort, hchars, ⟨a, ha, hfirst⟩, b, hb, hlast⟩
    obtain ⟨rest, rfl⟩ := List.head?_eq_some_iff.mp ha
    refine ⟨a, hfirst, ?_⟩
    rcases rest.eq_nil_or_concat with rfl | ⟨inner, d, rfl⟩
    · exact Or.inl rfl
    · have hd : d = b := by simpa [List.getLast?_cons] using hb
      subst hd
      refine Or.inr ⟨inner, d, by simp, ?_, fun c hc => hchars c (by simp [hc]), hlast⟩
      simp only [List.concat_eq_append, List.length_cons, List.length_append, List.length_nil] at hshort
      omega
  · rintro ⟨a, ha, rfl | ⟨inner, b, rfl, hshort, hchars, hb⟩⟩
    · exact ⟨by simp, by simp [ha], ⟨a, rfl, ha⟩, ⟨a, rfl, ha⟩⟩
    · refine ⟨by simp; omega, ?_, ⟨a, rfl, ha⟩, ⟨b, by simp [List.getLast?_cons], hb⟩⟩
      simp only [List.mem_cons, List.mem_append, List.not_mem_nil, or_false]
      rintro c (rfl | hc | rfl)
      · exact Or.inl ha
      · exact hchars c hc
      · exact Or.inl hb

/-- What is an address with some letters is one with more letters. -/
theorem IsAddress.mono (h : IsAddress letter cs) (hmore : ∀ c, letter c = true → wider c = true) :
    IsAddress wider cs := by
  obtain ⟨name, labels, rfl, hname, hsome, hlabels⟩ := h
  refine ⟨name, labels, rfl, ⟨hname.some, fun c hc => (hname.chars c hc).imp_left (hmore c)⟩, hsome, ?_⟩
  intro l hl
  obtain ⟨hshort, hchars, ⟨a, ha, hfirst⟩, b, hb, hlast⟩ := hlabels l hl
  exact ⟨hshort, fun c hc => (hchars c hc).imp_left (hmore c), ⟨a, ha, hmore a hfirst⟩, b, hb, hmore b hlast⟩

/-- A piece in front of others stands there alone, or with a separator behind it and behind each of them but the
last. -/
theorem joinChars_eq_flatten (sep : Char) (piece : List Char) (pieces : List (List Char)) :
    Text.joinChars sep (piece :: pieces) = piece ++ (pieces.map (sep :: ·)).flatten := by
  induction pieces generalizing piece with
  | nil => simp [Text.joinChars]
  | cons next pieces ih =>
      rw [Text.joinChars, ih, List.map_cons, List.flatten_cons, List.cons_append]

theorem mem_of_mem_joinChars {sep c : Char} {pieces : List (List Char)} (hc : c ∈ Text.joinChars sep pieces) :
    c = sep ∨ ∃ piece ∈ pieces, c ∈ piece := by
  cases pieces with
  | nil => simp [Text.joinChars] at hc
  | cons piece pieces =>
      rw [joinChars_eq_flatten] at hc
      simp only [List.mem_append, List.mem_flatten, List.mem_map] at hc
      rcases hc with hc | ⟨_, ⟨next, hnext, rfl⟩, hc⟩
      · exact Or.inr ⟨piece, List.mem_cons_self, hc⟩
      · exact (List.mem_cons.mp hc).imp_right fun hc => ⟨next, List.mem_cons_of_mem piece hnext, hc⟩

/-- The characters of an address. -/
theorem IsAddress.chars (h : IsAddress letter cs) {c : Char} (hc : c ∈ cs) :
    letter c = true ∨ c ∈ localSigns.toList ∨ c ∈ ['@', '.', '-'] := by
  obtain ⟨name, labels, rfl, hname, -, hlabels⟩ := h
  rcases List.mem_append.mp hc with hc | hc
  · exact (hname.chars c hc).imp_right Or.inl
  · rcases List.mem_cons.mp hc with rfl | hc
    · simp
    · rcases mem_of_mem_joinChars hc with rfl | ⟨l, hl, hc⟩
      · simp
      · exact ((hlabels l hl).chars c hc).imp_right fun h => by simp [h]

end

/-! ### The parts of the pattern -/

/-- A bracket that holds items together. -/
def grouped (items : List Expr) : Expr := .scoped ⟨.none, .none⟩ (.ofItems items)

/-- A label, from the patterns of a letter and of what may stand inside. -/
def labelItems (letter inner : Expr) : List Expr :=
  [letter, .repeated 0 (some 1) .most (grouped [.repeated 0 (some 61) .most inner, letter])]

/-- An address, from the patterns of a character of its local part, a letter, and what may stand inside a label. -/
def addressExpr (localChar letter inner : Expr) : Expr :=
  .ofItems [grouped ([.repeated 1 none .most localChar, .literal '@'.toNat] ++ (labelItems letter inner ++
    [.repeated 0 none .most (grouped (.literal '.'.toNat :: labelItems letter inner))]))]

/-- A choice between two characters. -/
def choice (first second : Expr) : Expr :=
  .scoped ⟨.none, .none⟩ (.either (.ofItems [first]) (.ofItems [second]))

/-- The signs of a local part. -/
def signItems : List SetItem := localSigns.toList.map fun c => .one c.toNat

/-- The letters and digits of ASCII. -/
def asciiItems : List SetItem := [.range 'a'.toNat 'z'.toNat, .range 'A'.toNat 'Z'.toNat, .range '0'.toNat '9'.toNat]

/-- A letter or a digit of any script: no character outside words, and not the low line. -/
def wideLetter : Expr := .set true [.category .word true, .one '_'.toNat]

/-- The alternative for ASCII. -/
def asciiExpr : Expr :=
  addressExpr (.set false (asciiItems ++ signItems)) (.set false asciiItems)
    (.set false (asciiItems ++ [.one '-'.toNat]))

/-- The alternative for every script. -/
def wideExpr : Expr :=
  addressExpr (choice wideLetter (.set false signItems)) wideLetter (choice wideLetter (.literal '-'.toNat))

/-- Whether a pattern can be read and matches a text as a whole. -/
def fits (pattern s : String) : Bool := (Pattern.compile .none pattern).toOption.any (·.matchesWhole s)

-- The reader gets the characters piece by piece: finding those of the whole text at once takes much longer.

theorem compile_asciiText : (Pattern.compile .none asciiText).toOption = some ⟨asciiExpr, .none, []⟩ := by
  rw [Pattern.compile]
  simp only [asciiText, addressText, labelText, localSigns, String.toList_append]
  decide +kernel

theorem compile_wideText : (Pattern.compile .none wideText).toOption = some ⟨wideExpr, .none, []⟩ := by
  rw [Pattern.compile]
  simp only [wideText, addressText, labelText, localSigns, String.toList_append]
  decide +kernel

theorem compile_pattern : pattern.toOption = some ⟨.either asciiExpr wideExpr, .none, []⟩ := by
  rw [pattern, Pattern.compile]
  simp only [asciiText, wideText, addressText, labelText, localSigns, String.toList_append]
  decide +kernel

/-! ### Words of the parts -/

section

variable {letter : Char → Bool} {w : List Char}

theorem spells_grouped {items : List Expr} :
    (grouped items).Spells .none w ↔ (Expr.ofItems items).Spells .none w := Iff.rfl

theorem spells_literal {d : Char} : (Expr.literal d.toNat).Spells .none w ↔ w = [d] := by
  have hcode : ∀ c : Char, (codesOf .none c).contains d.toNat = true ↔ c = d := by
    intro c
    have hsame : d.toNat = c.toNat ↔ c = d := by
      rw [eq_comm, Char.toNat_inj]
    simpa [codesOf, Modes.none] using hsame
  simp only [Expr.Spells, hcode, exists_eq_right]

/-- Whether a pattern spells the characters that pass a test, each alone. -/
def SpellsOne (e : Expr) (test : Char → Prop) : Prop := ∀ w, e.Spells .none w ↔ ∃ c, w = [c] ∧ test c

theorem spellsOne_literal (d : Char) : SpellsOne (.literal d.toNat) (· = d) := by
  intro w
  rw [spells_literal, exists_eq_right]

theorem SpellsOne.either {first second : Expr} {one other : Char → Prop} (hfirst : SpellsOne first one)
    (hsecond : SpellsOne second other) : SpellsOne (choice first second) fun c => one c ∨ other c := by
  intro w
  have hwords : (choice first second).Spells .none w ↔ first.Spells .none w ∨ second.Spells .none w :=
    or_congr spells_ofItems_singleton spells_ofItems_singleton
  rw [hwords, hfirst, hsecond]
  constructor
  · rintro (⟨c, hw, hc⟩ | ⟨c, hw, hc⟩)
    · exact ⟨c, hw, Or.inl hc⟩
    · exact ⟨c, hw, Or.inr hc⟩
  · rintro ⟨c, hw, hc | hc⟩
    · exact Or.inl ⟨c, hw, hc⟩
    · exact Or.inr ⟨c, hw, hc⟩

variable {localChar letterExpr inner : Expr} (hletter : SpellsOne letterExpr fun c => letter c = true)
  (hinner : SpellsOne inner fun c => letter c = true ∨ c = '-')
  (hlocal : SpellsOne localChar fun c => letter c = true ∨ c ∈ localSigns.toList)

include hletter hinner

theorem spells_labelItems : (Expr.ofItems (labelItems letterExpr inner)).Spells .none w ↔ IsLabel letter w := by
  have hrest : ∀ v, (Expr.ofItems [.repeated 0 (some 1) .most
      (grouped [.repeated 0 (some 61) .most inner, letterExpr])]).Spells .none v ↔
        v = [] ∨ ∃ middle b, v = middle ++ [b] ∧ middle.length ≤ 61 ∧
          (∀ c ∈ middle, letter c = true ∨ c = '-') ∧ letter b = true := by
    intro v
    rw [spells_ofItems_singleton, spells_repeated_once, spells_grouped, spells_ofItems_cons]
    simp only [spells_repeated_of_one hinner, spells_ofItems_singleton, hletter _]
    refine or_congr Iff.rfl ?_
    constructor
    · rintro ⟨middle, _, rfl, ⟨-, hshort, hchars⟩, b, rfl, hb⟩
      exact ⟨middle, b, rfl, by simpa using hshort 61 rfl, hchars, hb⟩
    · rintro ⟨middle, b, rfl, hshort, hchars, hb⟩
      exact ⟨middle, [b], rfl, ⟨Nat.zero_le _, by simpa using hshort, hchars⟩, b, rfl, hb⟩
  rw [labelItems, spells_ofItems_cons, isLabel_iff]
  simp only [hletter _, hrest]
  constructor
  · rintro ⟨_, v, rfl, ⟨a, rfl, ha⟩, rfl | ⟨middle, b, rfl, hrest⟩⟩
    · exact ⟨a, ha, Or.inl rfl⟩
    · exact ⟨a, ha, Or.inr ⟨middle, b, rfl, hrest⟩⟩
  · rintro ⟨a, ha, rfl | ⟨middle, b, rfl, hrest⟩⟩
    · exact ⟨[a], [], rfl, ⟨a, rfl, ha⟩, Or.inl rfl⟩
    · exact ⟨[a], middle ++ [b], rfl, ⟨a, rfl, ha⟩, Or.inr ⟨middle, b, rfl, hrest⟩⟩

/-- The labels behind the first, each with a point in front. -/
theorem spells_moreLabels :
    (Expr.repeated 0 none .most (grouped (.literal '.'.toNat :: labelItems letterExpr inner))).Spells .none w ↔
      ∃ labels : List (List Char), w = (labels.map ('.' :: ·)).flatten ∧ ∀ l ∈ labels, IsLabel letter l := by
  rw [spells_repeated_any]
  simp only [spells_grouped, spells_ofItems_cons, spells_literal, spells_labelItems hletter hinner]
  constructor
  · rintro ⟨rounds, rfl, hrounds⟩
    induction rounds with
    | nil => exact ⟨[], rfl, nofun⟩
    | cons u rounds ih =>
        obtain ⟨⟨_, l, rfl, rfl, hl⟩, hothers⟩ := List.forall_mem_cons.mp hrounds
        obtain ⟨labels, hflatten, hlabels⟩ := ih hothers
        refine ⟨l :: labels, ?_, List.forall_mem_cons.mpr ⟨hl, hlabels⟩⟩
        rw [List.flatten_cons, hflatten]
        rfl
  · rintro ⟨labels, rfl, hlabels⟩
    refine ⟨labels.map ('.' :: ·), rfl, fun u hu => ?_⟩
    obtain ⟨l, hl, rfl⟩ := List.mem_map.mp hu
    exact ⟨['.'], l, rfl, rfl, hlabels l hl⟩

include hlocal

/-- The pattern of addresses spells the addresses. -/
theorem spells_addressExpr :
    (addressExpr localChar letterExpr inner).Spells .none w ↔ IsAddress letter w := by
  rw [addressExpr, spells_ofItems_singleton, spells_grouped, List.cons_append, List.cons_append, List.nil_append]
  simp only [spells_ofItems_cons, spells_ofItems_append, spells_ofItems_nil, spells_repeated_of_one hlocal,
    spells_literal, spells_labelItems hletter hinner, spells_moreLabels hletter hinner]
  constructor
  · rintro ⟨name, _, rfl, ⟨hsome, -, hchars⟩, _, _, rfl, rfl, l, _, rfl, hl, _, _, rfl, ⟨labels, rfl, hlabels⟩, rfl⟩
    refine ⟨name, l :: labels, ?_, ⟨List.length_pos_iff.mp hsome, hchars⟩, List.cons_ne_nil l labels,
      List.forall_mem_cons.mpr ⟨hl, hlabels⟩⟩
    rw [joinChars_eq_flatten, List.append_nil, List.singleton_append]
  · rintro ⟨name, labels, rfl, hname, hsome, hlabels⟩
    cases labels with
    | nil => exact absurd rfl hsome
    | cons l labels =>
        obtain ⟨hl, hlabels⟩ := List.forall_mem_cons.mp hlabels
        refine ⟨name, _, rfl, ⟨List.length_pos_iff.mpr hname.some, nofun, hname.chars⟩, ['@'], _, rfl, rfl,
          l, _, joinChars_eq_flatten '.' l labels, hl, _, [], ?_, ⟨labels, rfl, hlabels⟩, rfl⟩
        exact (List.append_nil _).symm

end

/-! ### The characters -/

@[simp] theorem holds_one (d c : Char) : (SetItem.one d.toNat).holds .none c = (c == d) := by
  rw [Bool.eq_iff_iff, beq_iff_eq, ← Char.toNat_inj]
  simp only [SetItem.holds, codesOf, Modes.none, Bool.not_false, if_true, List.contains_cons, List.contains_nil,
    Bool.or_false, beq_iff_eq]
  exact eq_comm

theorem holds_range (first last c : Char) :
    (SetItem.range first.toNat last.toNat).holds .none c = decide (first ≤ c ∧ c ≤ last) := by
  rw [Bool.eq_iff_iff, decide_eq_true_eq]
  simp only [SetItem.holds, codesOf, Modes.none, Bool.not_false, if_true, List.any_cons, List.any_nil,
    Bool.or_false, Bool.and_eq_true, decide_eq_true_eq]
  rfl

theorem any_holds_signItems (c : Char) : signItems.any (·.holds .none c) = true ↔ c ∈ localSigns.toList := by
  simp [signItems, List.any_map]

/-- The letters and digits of ASCII are three ranges. -/
theorem isAlphanum_eq (c : Char) : c.isAlphanum = (decide (c.val ≥ 'A'.val ∧ c.val ≤ 'Z'.val) ||
    (decide (c.val ≥ 'a'.val) && decide (c.val ≤ 'z'.val)) ||
    (decide (c.val ≥ '0'.val) && decide (c.val ≤ '9'.val))) := rfl

theorem any_holds_asciiItems (c : Char) : asciiItems.any (·.holds .none c) = c.isAlphanum := by
  rw [Bool.eq_iff_iff, asciiItems, List.any_cons, List.any_cons, List.any_cons, holds_range, holds_range, holds_range]
  simp only [List.any_nil, Bool.or_false, Bool.or_eq_true, decide_eq_true_eq, isAlphanum_eq, Char.le_def,
    ge_iff_le, Bool.and_eq_true]
  tauto

theorem spellsOne_set {negated : Bool} {items : List SetItem} {test : Char → Prop}
    (htest : ∀ c, (items.any (·.holds .none c) != negated) = true ↔ test c) :
    SpellsOne (.set negated items) test := by
  intro w
  simp only [Expr.Spells, htest]

/-- The ASCII alternative spells the addresses with letters and digits of ASCII. -/
theorem spells_asciiExpr (w : List Char) : asciiExpr.Spells .none w ↔ IsAddress Char.isAlphanum w := by
  refine spells_addressExpr (spellsOne_set fun c => ?_) (spellsOne_set fun c => ?_) (spellsOne_set fun c => ?_)
  · rw [Bool.bne_false, any_holds_asciiItems]
  · rw [Bool.bne_false, List.any_append, Bool.or_eq_true, any_holds_asciiItems, List.any_cons, holds_one]
    simp
  · rw [Bool.bne_false, List.any_append, Bool.or_eq_true, any_holds_asciiItems, any_holds_signItems]

/-- The other alternative spells the addresses with letters and digits of every script. -/
theorem spells_wideExpr (w : List Char) : wideExpr.Spells .none w ↔ IsAddress isLetter w := by
  have hletter : SpellsOne wideLetter fun c => isLetter c = true := by
    refine spellsOne_set fun c => ?_
    rw [List.any_cons, List.any_cons, holds_one]
    simp [SetItem.holds, Category.holds, isWord, Modes.none, isLetter]
  have hsigns : SpellsOne (.set false signItems) (· ∈ localSigns.toList) := by
    refine spellsOne_set fun c => ?_
    rw [Bool.bne_false, any_holds_signItems]
  exact spells_addressExpr hletter (hletter.either (spellsOne_literal '-')) (hletter.either hsigns)

theorem isLetter_of_isAlphanum {c : Char} (hc : c.isAlphanum = true) : isLetter c = true := by
  have hitems : asciiItems.any (·.holds .none c) = true := by rwa [any_holds_asciiItems]
  have hcode : c.toNat < 128 ∧ c.toNat ≠ 95 := by
    simp [asciiItems, SetItem.holds, codesOf, Modes.none] at hitems
    omega
  have hother : c ≠ '_' := fun h => hcode.2 (congrArg Char.toNat h)
  simp [isLetter, Text.isWordChar, Text.isAlphanumeric, hcode.1, hc, hother]

/-! ### The format -/

theorem fits_asciiText (s : String) : fits asciiText s = true ↔ IsAddress Char.isAlphanum s.toList := by
  rw [fits, compile_asciiText, Option.any_some, matchesWhole_iff (by decide), spells_asciiExpr]

theorem fits_wideText (s : String) : fits wideText s = true ↔ IsAddress isLetter s.toList := by
  rw [fits, compile_wideText, Option.any_some, matchesWhole_iff (by decide), spells_wideExpr]

/-- Addresses are what the pattern of both alternatives matches. -/
theorem accepts_iff_isAddress (s : String) : accepts s = true ↔ IsAddress isLetter s.toList := by
  rw [accepts, compile_pattern, Option.any_some, matchesWhole_iff (by decide)]
  constructor
  · rintro (hascii | hwide)
    · exact ((spells_asciiExpr _).mp hascii).mono fun c => isLetter_of_isAlphanum
    · exact (spells_wideExpr _).mp hwide
  · intro h
    exact Or.inr ((spells_wideExpr _).mpr h)

open Validation

/-- The rule that asks for an address. -/
def emailRule : Rule := ⟨"format", some "email"⟩

/-- The message about a text that is no address. -/
def emailMessage : String := "is not a valid email address"

/-- The ranges of letters, gone through as a list. -/
theorem isAlphanumeric_eq (c : Char) : Text.isAlphanumeric c =
    if c.toNat < 128 then c.isAlphanum
    else Text.alphanumericRanges.toList.any fun r => r.1 ≤ c.toNat && c.toNat ≤ r.2 := by
  rw [Text.isAlphanumeric, Array.any_toList]

/-- The sign that stands for a code without character is none of the characters of addresses. -/
theorem isForeign_replacement : isLetter (Char.ofNat 0xFFFD) = false ∧ Char.ofNat 0xFFFD ∉ localSigns.toList ∧
    Char.ofNat 0xFFFD ∉ ['@', '.', '-'] := by
  rw [isLetter, Text.isWordChar, isAlphanumeric_eq]
  decide +kernel

/-- A text with a code that belongs to no character is no address. -/
theorem accepts_replaced {codes : List Nat} (hcodes : codes.any Text.isSurrogate = true) :
    accepts (String.ofList (codes.map fun n => Char.ofNat (if Text.isSurrogate n then 0xFFFD else n))) = false := by
  obtain ⟨n, hn, hsurrogate⟩ := List.any_eq_true.mp hcodes
  rw [Bool.eq_false_iff, ne_eq, accepts_iff_isAddress, String.toList_ofList]
  intro haddress
  obtain ⟨hletter, hsign, hother⟩ := isForeign_replacement
  have hmem : Char.ofNat 0xFFFD ∈ codes.map fun n => Char.ofNat (if Text.isSurrogate n then 0xFFFD else n) :=
    List.mem_map.mpr ⟨n, hn, by rw [if_pos hsurrogate]⟩
  rcases haddress.chars hmem with hfound | hfound | hfound
  · rw [hletter] at hfound
    cases hfound
  · exact hsign hfound
  · exact hother hfound

/-- The rule asks whether the text is accepted. -/
theorem applyRule_email (c : Catalogue) (m : Model) {d : Descriptor} (path : String) {v : Value} {s : String}
    (j : Journal) (hd : d.kind = .string) (hnull : v.isNull = false) (hs : textOf v = .ok s) :
    (applyRule c m d path v emailRule).outcome j =
      (.ok (if accepts s then [] else [⟨path, d.messages.resolve "format" emailMessage⟩]), j) := by
  have hjudge : judge d emailRule v = .ok (messageUnless (accepts s) emailMessage) := by
    rw [judge, hd]
    show judgeText emailRule v = _
    rw [judgeText]
    simp only [emailRule, hs]
    rfl
  have hrequired : (emailRule.name == "required") = false := by decide
  have hempty : (emailRule.name == emptyItemsRule || v.isNull) = false := by rw [hnull]; decide
  have hformat : (emailRule.name == "format" && emailRule.arg != some "email") = false := by decide
  rw [applyRule, hrequired, hempty, hformat, hjudge]
  cases accepts s <;> rfl

/-- The check of addresses passes exactly the texts of the grammar, with the letters and digits of every script,
and fails with one error for every other text, also where codes in it belong to no character. The ASCII
alternative of the pattern matches nothing that the other does not. -/
theorem email_check_exact :
    (∀ (c : Catalogue) (m : Model) (d : Descriptor) (path : String) (j : Journal), d.kind = .string →
      (∀ (v : Value) (s : String), v.text? = some s → ∃ errors,
        (applyRule c m d path v emailRule).outcome j = (.ok errors, j) ∧ (errors = [] ↔ IsAddress isLetter s.toList) ∧
          (errors = [] ∨ errors = [⟨path, d.messages.resolve "format" emailMessage⟩])) ∧
      ∀ codes : List Nat, codes.any Text.isSurrogate = true →
        (applyRule c m d path (.brokenText codes) emailRule).outcome j =
          (.ok [⟨path, d.messages.resolve "format" emailMessage⟩], j)) ∧
    ∀ s, fits asciiText s = true → fits wideText s = true := by
  refine ⟨fun c m d path j hd => ⟨fun v s hs => ?_, fun codes hcodes => ?_⟩, fun s hascii => ?_⟩
  · have hnull : v.isNull = false := by
      cases v with
      | null => cases hs
      | _ => rfl
    have htext : textOf v = .ok s := by
      cases v with
      | brokenText codes => cases hs
      | _ => simp only [textOf, hs]
    refine ⟨_, applyRule_email c m path j hd hnull htext, ?_, ?_⟩
    · rw [← accepts_iff_isAddress]
      cases accepts s <;> simp
    · cases accepts s <;> simp
  · rw [applyRule_email c m path j hd rfl rfl, accepts_replaced hcodes]
    rfl
  · rw [fits_wideText]
    exact ((fits_asciiText s).mp hascii).mono fun c => isLetter_of_isAlphanum

/-- A contact with an address, as its only field. -/
def contact : Model × Descriptor :=
  (default, { (default : Descriptor) with name := "mail", wireName := "mail", kind := .string, rules := [emailRule] })

/-- An address with a letter outside ASCII passes, a text with half of a character fails, and what ASCII says is
an address is one. -/
theorem email_check_exact_contact :
    (∃ errors, (applyRule default contact.1 contact.2 "mail" (.text "jörg@köln.de") emailRule).outcome .empty =
      (.ok errors, .empty) ∧ errors = []) ∧
    (applyRule default contact.1 contact.2 "mail" (.brokenText [97, 64, 0xD83D]) emailRule).outcome .empty =
      (.ok [⟨"mail", contact.2.messages.resolve "format" emailMessage⟩], .empty) ∧
    fits wideText "a@b" = true := by
  obtain ⟨hfield, halternatives⟩ := email_check_exact
  obtain ⟨htexts, hbroken⟩ := hfield default contact.1 contact.2 "mail" .empty rfl
  refine ⟨?_, hbroken [97, 64, 0xD83D] rfl, halternatives "a@b" ?_⟩
  · obtain ⟨errors, hrun, hpasses, -⟩ := htexts (.text "jörg@köln.de") "jörg@köln.de" rfl
    exact ⟨errors, hrun, hpasses.mpr ⟨"jörg".toList, ["köln".toList, "de".toList], by decide +kernel, by decide +kernel,
      by decide, by decide +kernel⟩⟩
  · exact (fits_asciiText "a@b").mpr ⟨['a'], [['b']], by decide +kernel, by decide +kernel, by decide,
      by decide +kernel⟩

end Intake.Email
