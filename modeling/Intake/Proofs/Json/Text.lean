import Intake.Json.Reader
import Intake.Json.Writer
import Intake.Proofs.Outcome
import Intake.Proofs.Text.Digits
import Mathlib.Data.List.Chain

/-!
Texts in documents. A text that is written between quotes is read as the text that it was, whatever stands behind
it, unless the two halves of a character stand apart in it next to each other: the reader puts those together.
-/

namespace Intake.Json

/-- The first of the two halves of a character. -/
def isHighHalf (code : Nat) : Bool := 0xD800 ≤ code && code < 0xDC00

/-- The second of the two halves of a character. -/
def isLowHalf (code : Nat) : Bool := 0xDC00 ≤ code && code < 0xE000

/-- Codes of which no two are the halves of a character, one behind the other. -/
def IsJoined (codes : List Nat) : Prop :=
  codes.IsChain fun first second => ¬ (isHighHalf first = true ∧ isLowHalf second = true)

/-- The codes of a code between quotes. -/
def escapedCodes (code : Nat) : List Nat := codesOf (escapedCode code)

/-- The codes of four hexadecimal digits. -/
def hexCodes (n : Nat) : List Nat := (Text.fixedDigits 16 4 n).map fun d => d.digitChar.toNat

/-! ### Escapes -/

theorem codesOf_escapedUnit {n : Nat} (hn : n < 0x10000) : codesOf (escapedUnit n) = 92 :: 117 :: hexCodes n := by
  rw [codesOf, escapedUnit, String.toList_append, Text.toList_hexText (by decide) hn, hexCodes]
  simp

theorem hexDigit?_digitChar : ∀ d < 16, hexDigit? d.digitChar.toNat = some d := by decide

/-- Four hexadecimal digits are read as the number that they denote. -/
theorem hex4?_hexCodes {n : Nat} (hn : n < 0x10000) (rest : List Nat) : hex4? (hexCodes n ++ rest) = some n := by
  have hdigit : ∀ m : Nat, hexDigit? (m % 16).digitChar.toNat = some (m % 16) := fun m =>
    hexDigit?_digitChar _ (Nat.mod_lt m (by decide))
  simp only [hexCodes, Text.fixedDigits, List.nil_append, List.cons_append, List.map_cons, List.map_nil, hex4?, hdigit,
    Option.bind_eq_bind, Option.bind_some, Option.pure_def, Option.some.injEq]
  omega

@[simp] theorem length_hexCodes (n : Nat) : (hexCodes n).length = 4 := by simp [hexCodes]

theorem drop_hexCodes (n : Nat) (rest : List Nat) : (hexCodes n ++ rest).drop 4 = rest := by
  rw [← length_hexCodes n, List.drop_left]

/-- How a code stands between quotes: as it is, as a letter, as four digits, or as those of both its halves. -/
inductive IsEscape : Nat → List Nat → Prop where
  | plain {code : Nat} (hlower : 32 ≤ code) (hquote : code ≠ 34) (hslash : code ≠ 92) : IsEscape code [code]
  | letter {code letter : Nat} (hletter : escaped? letter = some code) (hother : letter ≠ 117) :
      IsEscape code [92, letter]
  | unit {code : Nat} (hunit : code < 0x10000) : IsEscape code (92 :: 117 :: hexCodes code)
  | halves {n : Nat} (hn : n < 0x100000) : IsEscape (0x10000 + n)
      ((92 :: 117 :: hexCodes (0xD800 + n / 1024)) ++ (92 :: 117 :: hexCodes (0xDC00 + n % 1024)))

/-- The codes that are escaped by a letter. -/
def letterCodes : List Nat := [34, 92, 10, 13, 9, 12, 8]

theorem isEscape_of_mem_letterCodes {code : Nat} (hcode : code ∈ letterCodes) : IsEscape code (escapedCodes code) := by
  have hletter : ∃ letter, escapedCodes code = [92, letter] ∧ escaped? letter = some code ∧ letter ≠ 117 := by
    simp only [letterCodes, List.mem_cons, List.not_mem_nil, or_false] at hcode
    rcases hcode with rfl | rfl | rfl | rfl | rfl | rfl | rfl
    · exact ⟨34, by decide +kernel, rfl, by decide⟩
    · exact ⟨92, by decide +kernel, rfl, by decide⟩
    · exact ⟨110, by decide +kernel, rfl, by decide⟩
    · exact ⟨114, by decide +kernel, rfl, by decide⟩
    · exact ⟨116, by decide +kernel, rfl, by decide⟩
    · exact ⟨102, by decide +kernel, rfl, by decide⟩
    · exact ⟨98, by decide +kernel, rfl, by decide⟩
  obtain ⟨letter, hcodes, hback, hother⟩ := hletter
  rw [hcodes]
  exact .letter hback hother

theorem isEscape_escapedCodes {code : Nat} (hcode : code < 0x110000) : IsEscape code (escapedCodes code) := by
  by_cases hletter : code ∈ letterCodes
  · exact isEscape_of_mem_letterCodes hletter
  · simp only [letterCodes, List.mem_cons, List.not_mem_nil, or_false, not_or] at hletter
    obtain ⟨hquote, hslash, hother⟩ := hletter
    by_cases hplain : 32 ≤ code ∧ code < 127
    · have hcodes : escapedCodes code = [code] := by
        have hback : (Char.ofNat code).toNat = code := by
          rw [Char.ofNat, dif_pos (Or.inl (by omega))]
          rfl
        simp [escapedCodes, escapedCode, hquote, hslash, hother, hplain, codesOf, hback]
      rw [hcodes]
      exact .plain hplain.1 hquote hslash
    · by_cases hunit : code < 0x10000
      · have hcodes : escapedCodes code = 92 :: 117 :: hexCodes code := by
          rw [← codesOf_escapedUnit hunit]
          simp [escapedCodes, escapedCode, hquote, hslash, hother, hplain, hunit]
        rw [hcodes]
        exact .unit hunit
      · obtain ⟨n, rfl⟩ : ∃ n, code = 0x10000 + n := ⟨code - 0x10000, by omega⟩
        have hcodes : escapedCodes (0x10000 + n) =
            (92 :: 117 :: hexCodes (0xD800 + n / 1024)) ++ (92 :: 117 :: hexCodes (0xDC00 + n % 1024)) := by
          rw [← codesOf_escapedUnit (by omega), ← codesOf_escapedUnit (by omega)]
          simp [escapedCodes, escapedCode, hquote, hslash, hother, hplain, hunit, codesOf]
        rw [hcodes]
        exact .halves (by omega)

/-! ### Reading -/

theorem lowHalf?_of_not_high {high : Nat} (rest : List Nat) (hhigh : isHighHalf high = false) :
    lowHalf? high rest = .ok none := by
  have hcond : (0xD800 ≤ high && high < 0xDC00 && 6 < rest.length) = false := by
    rw [isHighHalf] at hhigh
    rw [hhigh, Bool.false_and]
  rw [lowHalf?.eq_def, if_neg (by rw [hcond]; exact Bool.false_ne_true)]

/-- The first half of a character and an escape behind it. -/
theorem lowHalf?_unit {high unit : Nat} {rest : List Nat} (hhigh : isHighHalf high = true) (hunit : unit < 0x10000)
    (hrest : rest ≠ []) :
    lowHalf? high (92 :: 117 :: hexCodes unit ++ rest) = .ok (if isLowHalf unit then some unit else none) := by
  have hlength := List.length_pos_iff.mpr hrest
  have hcond : (0xD800 ≤ high && high < 0xDC00 && 6 < (92 :: 117 :: hexCodes unit ++ rest).length) = true := by
    rw [isHighHalf] at hhigh
    rw [hhigh, Bool.true_and]
    simp only [List.cons_append, List.length_cons, List.length_append, length_hexCodes, decide_eq_true_eq]
    omega
  rw [lowHalf?.eq_def, if_pos hcond]
  simp only [List.cons_append, hex4?_hexCodes hunit, isLowHalf]
  rfl

/-- The first half of a character is not put together with what follows, unless that is a second half. -/
theorem lowHalf?_of_isEscape {high code : Nat} {codes : List Nat} {rest : List Nat} (h : IsEscape code codes)
    (hcode : isLowHalf code = false) (hrest : rest ≠ []) : lowHalf? high (codes ++ rest) = .ok none := by
  by_cases hhigh : isHighHalf high = true
  · cases h with
    | plain hlower hquote hslash =>
        rw [lowHalf?.eq_def]
        split
        · split
          · rename_i hsame
            exact absurd (List.cons.inj hsame).1 hslash
          · rfl
        · rfl
    | letter hletter hother =>
        rw [lowHalf?.eq_def]
        split
        · split
          · rename_i hsame
            exact absurd (List.cons.inj (List.cons.inj hsame).2).1 hother
          · rfl
        · rfl
    | unit hunit => rw [lowHalf?_unit hhigh hunit hrest, if_neg (by rw [hcode]; exact Bool.false_ne_true)]
    | @halves n hn =>
        have hfirst : isLowHalf (0xD800 + n / 1024) = false := by
          simp only [isLowHalf, Bool.and_eq_false_iff, decide_eq_false_iff_not]
          omega
        rw [List.append_assoc, lowHalf?_unit hhigh (by omega) (by simp), if_neg (by rw [hfirst]; exact Bool.false_ne_true)]
  · exact lowHalf?_of_not_high _ (Bool.eq_false_iff.mpr hhigh)

/-- A code in front of what is read. -/
def consCode (code : Nat) (found : List Nat × List Nat) : List Nat × List Nat := (code :: found.1, found.2)

/-- An escape of four digits, behind which no second half follows. -/
theorem readText_unit {unit : Nat} {rest : List Nat} (start fuel : Nat) (hunit : unit < 0x10000) (hrest : rest ≠ [])
    (hhalf : lowHalf? unit rest = .ok none) :
    readText start (fuel + 1) (92 :: 117 :: hexCodes unit ++ rest) =
      (readText start fuel rest).map (consCode unit) := by
  have hlength := List.length_pos_iff.mpr hrest
  have hlong : ¬ (hexCodes unit ++ rest).length ≤ 4 := by
    rw [List.length_append, length_hexCodes]
    omega
  simp only [List.cons_append, readText, Nat.reduceBEq, Bool.false_eq_true, if_false, if_true, hlong,
    hex4?_hexCodes hunit, drop_hexCodes, hhalf, ok_bind]
  cases readText start fuel rest <;> rfl

/-- Two escapes of four digits, the halves of a character. -/
theorem readText_halves {n : Nat} {rest : List Nat} (start fuel : Nat) (hn : n < 0x100000) (hrest : rest ≠ []) :
    readText start (fuel + 1) ((92 :: 117 :: hexCodes (0xD800 + n / 1024)) ++
        (92 :: 117 :: hexCodes (0xDC00 + n % 1024)) ++ rest) =
      (readText start fuel rest).map (consCode (0x10000 + n)) := by
  have hhigh : isHighHalf (0xD800 + n / 1024) = true := by
    simp only [isHighHalf, Bool.and_eq_true, decide_eq_true_eq]
    omega
  have hlow : isLowHalf (0xDC00 + n % 1024) = true := by
    simp only [isLowHalf, Bool.and_eq_true, decide_eq_true_eq]
    omega
  have hsecond := lowHalf?_unit hhigh (by omega : 0xDC00 + n % 1024 < 0x10000) hrest
  rw [if_pos hlow] at hsecond
  -- What stands behind the first escape gets a name, so that it is not taken apart when that is read.
  generalize hbehind : 92 :: 117 :: hexCodes (0xDC00 + n % 1024) ++ rest = behind at hsecond
  have hlong : ¬ (hexCodes (0xD800 + n / 1024) ++ behind).length ≤ 4 := by
    simp only [← hbehind, List.cons_append, List.length_append, List.length_cons, length_hexCodes]
    omega
  have hdrop : behind.drop 6 = rest := by
    rw [← hbehind, List.cons_append, List.cons_append, List.drop_succ_cons, List.drop_succ_cons, drop_hexCodes]
  have hsum : 0x10000 + (0xD800 + n / 1024 - 0xD800) * 1024 + (0xDC00 + n % 1024 - 0xDC00) = 0x10000 + n := by
    omega
  rw [List.append_assoc, hbehind]
  simp only [List.cons_append, readText, Nat.reduceBEq, Bool.false_eq_true, if_false, if_true, hlong,
    hex4?_hexCodes (by omega : 0xD800 + n / 1024 < 0x10000), drop_hexCodes, hsecond, ok_bind, hdrop, hsum]
  cases readText start fuel rest <;> rfl

/-- A code between quotes is read as that code. -/
theorem readText_of_isEscape {code : Nat} {codes rest : List Nat} (start fuel : Nat) (h : IsEscape code codes)
    (hrest : rest ≠ []) (hhalf : lowHalf? code rest = .ok none) :
    readText start (fuel + 1) (codes ++ rest) = (readText start fuel rest).map (consCode code) := by
  cases h with
  | plain hlower hquote hslash =>
      have hlower : ¬ code < 32 := by omega
      simp only [List.singleton_append, readText, beq_iff_eq, hquote, hslash, hlower, if_false]
      cases readText start fuel rest <;> rfl
  | @letter _ letter hletter hother =>
      simp only [List.cons_append, List.nil_append, readText, Nat.reduceBEq, Bool.false_eq_true, if_false, if_true,
        hletter]
      cases readText start fuel rest <;> rfl
  | unit hunit => exact readText_unit start fuel hunit hrest hhalf
  | halves hn => exact readText_halves start fuel hn hrest

/-- Behind joined codes no second half follows a first one. -/
theorem lowHalf?_of_isJoined {code : Nat} {more : List Nat} (hmore : ∀ n ∈ more, n < 0x110000)
    (hjoined : IsJoined (code :: more)) (rest : List Nat) :
    lowHalf? code (more.flatMap escapedCodes ++ 34 :: rest) = .ok none := by
  cases more with
  | nil =>
      rw [lowHalf?.eq_def]
      split <;> rfl
  | cons next more =>
      have hnext := hmore next List.mem_cons_self
      rw [List.flatMap_cons, List.append_assoc]
      by_cases hhigh : isHighHalf code = true
      · have hlow : isLowHalf next = false := by
          have hapart := (List.isChain_cons_cons.mp hjoined).1
          exact Bool.eq_false_iff.mpr fun hlow => hapart ⟨hhigh, hlow⟩
        exact lowHalf?_of_isEscape (isEscape_escapedCodes hnext) hlow (by simp)
      · exact lowHalf?_of_not_high _ (Bool.eq_false_iff.mpr hhigh)

/-- What stands between quotes is read as the codes that were written, if no halves of a character are next to
each other. -/
theorem readText_escapedCodes {codes : List Nat} (hcodes : ∀ n ∈ codes, n < 0x110000) (hjoined : IsJoined codes)
    (start fuel : Nat) (rest : List Nat) (hfuel : codes.length < fuel) :
    readText start fuel (codes.flatMap escapedCodes ++ 34 :: rest) = .ok (codes, rest) := by
  induction codes generalizing fuel with
  | nil =>
      cases fuel with
      | zero => omega
      | succ fuel => simp [readText]
  | cons code more ih =>
      cases fuel with
      | zero => omega
      | succ fuel =>
          obtain ⟨hcode, hmore⟩ := List.forall_mem_cons.mp hcodes
          have hlater : IsJoined more := List.IsChain.tail hjoined
          have hbehind := ih hmore hlater fuel (by simpa using hfuel)
          rw [List.flatMap_cons, List.append_assoc, readText_of_isEscape start fuel (isEscape_escapedCodes hcode)
            (by simp) (lowHalf?_of_isJoined hmore hjoined rest), hbehind]
          rfl

theorem toList_quotedCodes (codes : List Nat) : (quotedCodes codes).toList =
    '\x22' :: ((codes.flatMap fun code => (escapedCode code).toList) ++ ['\x22']) := by
  rw [quotedCodes, String.toList_append, String.toList_append, String.toList_join, List.flatMap_map]
  rfl

theorem codesOf_quotedCodes (codes : List Nat) :
    codesOf (quotedCodes codes) = 34 :: (codes.flatMap escapedCodes ++ [34]) := by
  rw [codesOf, toList_quotedCodes, List.map_cons, List.map_append, List.map_flatMap]
  rfl

/-- A text between quotes ends where it ends, whatever stands behind it: it is no other text, and no beginning of
another one. -/
theorem quotedCodes_append_inj {codes others : List Nat} (hcodes : ∀ n ∈ codes, n < 0x110000)
    (hjoined : IsJoined codes) (hothers : ∀ n ∈ others, n < 0x110000) (hjoined' : IsJoined others)
    {rest rest' : List Char}
    (h : (quotedCodes codes).toList ++ rest = (quotedCodes others).toList ++ rest') :
    codes = others ∧ rest = rest' := by
  have hread := congrArg (List.map Char.toNat) h
  rw [List.map_append, List.map_append] at hread
  change codesOf (quotedCodes codes) ++ _ = codesOf (quotedCodes others) ++ _ at hread
  rw [codesOf_quotedCodes, codesOf_quotedCodes, List.cons_append, List.cons_append] at hread
  have hinside := (List.cons.inj hread).2
  rw [List.append_assoc, List.append_assoc, List.singleton_append, List.singleton_append] at hinside
  -- Both are read by one reading, so what is read is the same.
  have hfuel : codes.length < codes.length + others.length + 1 ∧ others.length < codes.length + others.length + 1 := by
    omega
  have hleft := readText_escapedCodes hcodes hjoined 0 _ (rest.map Char.toNat) hfuel.1
  have hright := readText_escapedCodes hothers hjoined' 0 _ (rest'.map Char.toNat) hfuel.2
  rw [hinside, hright] at hleft
  obtain ⟨hsame, hrest⟩ := Prod.mk.inj (Except.ok.inj hleft)
  exact ⟨hsame.symm, (List.map_injective_iff.mpr fun a b hab => Char.toNat_inj.mp hab) hrest.symm⟩

end Intake.Json
