import Intake.Proofs.Number.Integer
import Intake.Uuid

/-!
Identifiers that are written and read. The text of an identifier is its 32 digits in five groups; each of
the two readings of such texts gives the identifier back.
-/

namespace Intake.Text

/-- Nothing is removed where the first character of the part does not occur. -/
theorem remove_of_not_mem {part s : String} {c : Char} {rest : List Char}
    (hpart : part.toList = c :: rest) (hfree : c ∉ s.toList) : remove part s = s := by
  have hkept : ∀ cs : List Char, c ∉ cs → replaceFrom part.toList [] 0 cs = cs := by
    intro cs
    induction cs with
    | nil =>
        intro _
        rfl
    | cons d more ih =>
        intro hcs
        have hd : c ≠ d := fun hsame => hcs (by simp [hsame])
        have hmore : c ∉ more := fun hin => hcs (List.mem_cons_of_mem d hin)
        simp [replaceFrom, hpart, startsWith, afterStart?, hd]
        rw [← hpart]
        exact ih hmore
  rw [remove, hkept _ hfree, String.ofList_toList]

end Intake.Text

namespace Intake.Uuid

open Text

/-- The digits of an identifier. -/
def digitChars (u : Uuid) : List Char := (fixedDigits 16 32 u.value).map Nat.digitChar

@[simp] theorem length_digitChars (u : Uuid) : u.digitChars.length = 32 := by
  simp [digitChars]

/-- What holds of every hexadecimal digit holds of the digits of an identifier. -/
theorem forall_mem_digitChars {P : Char → Prop} (hdigit : ∀ d < 16, P d.digitChar) (u : Uuid) :
    ∀ c ∈ u.digitChars, P c := by
  intro c hc
  obtain ⟨d, hd, rfl⟩ := List.mem_map.mp hc
  exact hdigit d (lt_of_mem_fixedDigits (by decide) hd)

/-- Characters in five groups with hyphens between them. -/
def grouped (cs : List Char) : List Char :=
  cs.take 8 ++ '-' :: ((cs.drop 8).take 4 ++ '-' :: ((cs.drop 12).take 4 ++
    '-' :: ((cs.drop 16).take 4 ++ '-' :: (cs.drop 20).take 12)))

theorem mem_of_mem_grouped {c : Char} {cs : List Char} (hc : c ∈ grouped cs) : c = '-' ∨ c ∈ cs := by
  simp only [grouped, List.mem_append, List.mem_cons] at hc
  rcases hc with h | rfl | h | rfl | h | rfl | h | rfl | h
  · exact .inr (List.mem_of_mem_take h)
  · exact .inl rfl
  · exact .inr (List.mem_of_mem_drop (List.mem_of_mem_take h))
  · exact .inl rfl
  · exact .inr (List.mem_of_mem_drop (List.mem_of_mem_take h))
  · exact .inl rfl
  · exact .inr (List.mem_of_mem_drop (List.mem_of_mem_take h))
  · exact .inl rfl
  · exact .inr (List.mem_of_mem_drop (List.mem_of_mem_take h))

/-- The characters of an identifier. -/
theorem toList_text {u : Uuid} (hu : u.value < 2 ^ 128) : u.text.toList = grouped u.digitChars := by
  have hdigits : (hexText 32 u.value).toList = u.digitChars :=
    toList_hexText (by decide) (by simpa using hu)
  rw [text]
  simp [hdigits, grouped]

/-- The groups together are the characters again. -/
theorem append_groups {cs : List Char} (hlength : cs.length = 32) :
    cs.take 8 ++ ((cs.drop 8).take 4 ++ ((cs.drop 12).take 4 ++ ((cs.drop 16).take 4 ++
      (cs.drop 20).take 12))) = cs := by
  have hrest : ∀ i n, (cs.drop i).take n ++ cs.drop (i + n) = cs.drop i := fun i n => by
    rw [← List.drop_drop, List.take_append_drop]
  have hlast : (cs.drop 20).take 12 = cs.drop 20 := List.take_of_length_le (by simp [hlength])
  rw [hlast, hrest 16 4, hrest 12 4, hrest 8 4, List.take_append_drop]

/-- Only the hyphens are removed with the hyphens. -/
theorem filter_grouped {cs : List Char} (hlength : cs.length = 32) (hfree : ∀ c ∈ cs, c ≠ '-') :
    (grouped cs).filter (· != '-') = cs := by
  have hkept : ∀ ds : List Char, (∀ c ∈ ds, c ∈ cs) → ds.filter (· != '-') = ds := fun ds hds =>
    List.filter_eq_self.mpr fun c hc => bne_iff_ne.mpr (hfree c (hds c hc))
  have hgroup : ∀ i n, ((cs.drop i).take n).filter (· != '-') = (cs.drop i).take n := fun i n =>
    hkept _ fun c hc => List.mem_of_mem_drop (List.mem_of_mem_take hc)
  have hfirst : (cs.take 8).filter (· != '-') = cs.take 8 :=
    hkept _ fun c hc => List.mem_of_mem_take hc
  simp only [grouped, List.filter_append, List.filter_cons, hgroup, hfirst, bne_self_eq_false,
    Bool.false_eq_true, ↓reduceIte]
  exact append_groups hlength

/-- The digits, in either notation of digits, are read as the number. -/
theorem digits?_map_digitChar {ds : List Nat} (hne : ds ≠ []) (hlt : ∀ d ∈ ds, d < 16) (start : Nat) :
    digits? start (ds.map Nat.digitChar) = some (ds.foldl (fun m d => 16 * m + d) start) := by
  have hread : ∀ d < 16, digit? d.digitChar = some d := by decide
  have hnever : ∀ d < 16, d.digitChar ≠ '_' := by decide
  induction ds generalizing start with
  | nil => exact absurd rfl hne
  | cons d rest ih =>
      have hd := hread d (hlt d List.mem_cons_self)
      cases rest with
      | nil => simp [digits?, hd]
      | cons e more =>
          have hnot := hnever e (hlt e (List.mem_cons_of_mem d List.mem_cons_self))
          have hrest := ih (by simp) (fun x hx => hlt x (List.mem_cons_of_mem d hx)) (16 * start + d)
          rw [List.map_cons, List.map_cons, digits?.eq_4 _ _ _ (by simp) (by simp [hnot])]
          rw [List.map_cons] at hrest
          simp [hd, hrest]

theorem plainHex?_map_digitChar {ds : List Nat} (hlt : ∀ d ∈ ds, d < 16) :
    plainHex? (ds.map Nat.digitChar) = some (ds.foldl (fun m d => 16 * m + d) 0) := by
  have hread : ∀ (es : List Nat) (start : Nat), (∀ d ∈ es, d < 16) →
      (es.map Nat.digitChar).foldlM (fun n c => (hexValue? c).map (16 * n + ·)) start =
        some (es.foldl (fun m d => 16 * m + d) start) := by
    intro es
    induction es with
    | nil => simp
    | cons d rest ih =>
        intro start hes
        rw [List.map_cons, List.foldlM_cons, hexValue?_digitChar d (hes d List.mem_cons_self)]
        exact ih _ fun x hx => hes x (List.mem_cons_of_mem d hx)
  exact hread ds 0 hlt

/-- The digits denote the number of the identifier. -/
theorem foldl_fixedDigits_value {u : Uuid} (hu : u.value < 2 ^ 128) :
    (fixedDigits 16 32 u.value).foldl (fun m d => 16 * m + d) 0 = u.value := by
  rw [foldl_fixedDigits (by simpa using hu)]
  simp

/-- The digits of an identifier are read as its number. -/
theorem hexadecimal?_digitChars {u : Uuid} (hu : u.value < 2 ^ 128) :
    hexadecimal? u.digitChars = some u.value := by
  have hchars : ∀ c ∈ u.digitChars, isWhiteSpace c = false ∧ c ≠ '-' ∧ c ≠ '+' ∧ c ≠ 'x' ∧ c ≠ 'X' :=
    forall_mem_digitChars (by decide) u
  have hbare : dropBase u.digitChars = u.digitChars := by
    rcases hcs : u.digitChars with _ | ⟨c, _ | ⟨d, rest⟩⟩
    · rfl
    · simp [dropBase]
    · obtain ⟨-, -, -, hx, hX⟩ := hchars d (by simp [hcs])
      by_cases hc : c = '0'
      · subst hc
        simp [dropBase, hx, hX]
      · simp [dropBase, hc]
  have hdigits : digits? 0 u.digitChars = some u.value := by
    have hne : fixedDigits 16 32 u.value ≠ [] := by
      intro hnil
      have hlength := length_fixedDigits 16 32 u.value
      simp [hnil] at hlength
    rw [digitChars, digits?_map_digitChar hne fun d hd => lt_of_mem_fixedDigits (by decide) hd,
      foldl_fixedDigits_value hu]
  rw [hexadecimal?, trimBoth_of_forall fun c hc => (hchars c hc).1]
  rcases hcs : u.digitChars with _ | ⟨c, rest⟩
  · have hlength := length_digitChars u
    simp [hcs] at hlength
  · obtain ⟨-, hminus, hplus, -, -⟩ := hchars c (by simp [hcs])
    rw [hcs] at hbare hdigits
    simp [hminus, hplus, hbare, hdigits]

/-- The lenient reading of the text of an identifier. -/
theorem ofLenient?_text {u : Uuid} (hu : u.value < 2 ^ 128) : ofLenient? u.text = some u := by
  have hcs := toList_text hu
  have hchars : ∀ c ∈ u.text.toList, c ≠ 'u' ∧ isBrace c = false := by
    intro c hc
    rw [hcs] at hc
    rcases mem_of_mem_grouped hc with rfl | hdigit
    · decide
    · exact forall_mem_digitChars (P := fun c => c ≠ 'u' ∧ isBrace c = false) (by decide) u c hdigit
  have hfree : 'u' ∉ u.text.toList := fun h => (hchars 'u' h).1 rfl
  have hbare : remove "uuid:" (remove "urn:" u.text) = u.text := by
    rw [remove_of_not_mem (by rfl) hfree, remove_of_not_mem (by rfl) hfree]
  have hgroups : (trimBoth isBrace u.text.toList).filter (· != '-') = u.digitChars := by
    rw [trimBoth_of_forall fun c hc => (hchars c hc).2, hcs]
    exact filter_grouped (length_digitChars u) (forall_mem_digitChars (by decide) u)
  rw [ofLenient?]
  simp [hbare, hgroups, hexadecimal?_digitChars hu]

/-- The groups stand where the hyphens of the plain form are. -/
theorem hyphenated?_grouped {cs : List Char} (hlength : cs.length = 32) :
    hyphenated? (grouped cs) = plainHex? cs := by
  have hjoined : ∀ a b c d e : List Char, a.length = 8 → b.length = 4 → c.length = 4 → d.length = 4 →
      e.length = 12 → hyphenated? (a ++ '-' :: (b ++ '-' :: (c ++ '-' :: (d ++ '-' :: e)))) =
        plainHex? (a ++ (b ++ (c ++ (d ++ e)))) := by
    intro a b c d e ha hb hc hd he
    have hnone : ∀ (n : Nat) (cs : List Char), cs.length ≤ n → cs.drop n = [] := fun n cs h =>
      List.drop_eq_nil_of_le h
    simp [hyphenated?, hyphenPlaces, List.getElem?_append, List.drop_append, hnone, ha, hb, hc, hd, he]
  rw [grouped]
  rw [hjoined _ _ _ _ _ (by simp [hlength]) (by simp [hlength]) (by simp [hlength]) (by simp [hlength])
    (by simp [hlength]), append_groups hlength]

/-- The plain reading of the text of an identifier. -/
theorem ofText?_text {u : Uuid} (hu : u.value < 2 ^ 128) : ofText? u.text = .ok u := by
  have hcs := toList_text hu
  have hbare : unwrap (grouped u.digitChars) = (grouped u.digitChars, 0, true) := by
    have hchars : ∀ c ∈ u.digitChars, c ≠ 'u' ∧ c ≠ '\x7b' := forall_mem_digitChars (by decide) u
    rcases hds : u.digitChars with _ | ⟨c, rest⟩
    · have hlength := length_digitChars u
      simp [hds] at hlength
    · obtain ⟨hu, hbrace⟩ := hchars c (by simp [hds])
      simp [unwrap, grouped, afterStart?, hu.symm, hbrace]
  have hlong : (grouped u.digitChars).length = 36 := by simp [grouped]
  have hnumber : hyphenated? (grouped u.digitChars) = some u.value := by
    rw [hyphenated?_grouped (length_digitChars u), digitChars,
      plainHex?_map_digitChar fun d hd => lt_of_mem_fixedDigits (by decide) hd, foldl_fixedDigits_value hu]
  rw [ofText?]
  simp [hcs, hbare, hlong, hnumber]

end Intake.Uuid
