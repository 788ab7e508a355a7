import Intake.Proofs.Text.Digits
import Intake.Shape.Scalar

/-!
Integers that are written and read. The text of an integer is its digits without leading zeros, behind
a minus sign if it is negative; each of the two readings of such texts gives the integer back.
-/

namespace Intake.Text

/-- Nothing is trimmed where no character satisfies the test. -/
theorem trimBoth_of_forall {test : Char → Bool} {cs : List Char} (hnone : ∀ c ∈ cs, test c = false) :
    trimBoth test cs = cs := by
  have hfront : ∀ {ds : List Char}, (∀ c ∈ ds, test c = false) → ds.dropWhile test = ds := by
    intro ds hds
    cases ds with
    | nil => rfl
    | cons d rest => simp [hds d List.mem_cons_self]
  rw [trimBoth, hfront hnone, hfront (fun c hc => hnone c (List.mem_reverse.mp hc)), List.reverse_reverse]

/-- What holds of every digit holds of the characters of a number. -/
theorem forall_mem_toDigits {P : Char → Prop} (hdigit : ∀ d < 10, P d.digitChar) (n : Nat) :
    ∀ c ∈ Nat.toDigits 10 n, P c := by
  intro c hc
  obtain ⟨ds, hds, hlt, -⟩ := toDigits_eq_map 10 n (by decide)
  rw [hds] at hc
  obtain ⟨d, hd, rfl⟩ := List.mem_map.mp hc
  exact hdigit d (hlt d hd)

/-- Only zero begins with a zero. -/
theorem eq_zero_of_head?_toDigits {n : Nat} (hhead : (Nat.toDigits 10 n).head? = some '0') : n = 0 := by
  induction n using Nat.strongRecOn with
  | _ n ih =>
      by_cases hsmall : n < 10
      · rw [Nat.toDigits_of_lt_base hsmall] at hhead
        simpa using hhead
      · have hbig : 10 ≤ n := Nat.le_of_not_lt hsmall
        have hfront : (Nat.toDigits 10 (n / 10)).head? = some '0' := by
          rcases hcs : Nat.toDigits 10 (n / 10) with _ | ⟨c, rest⟩
          · exact absurd hcs Nat.toDigits_ne_nil
          · rw [Nat.toDigits_of_base_le (by decide) hbig, hcs] at hhead
            simpa using hhead
        have hzero := ih (n / 10) (by omega) hfront
        omega

end Intake.Text

namespace Intake.Number

open Text

/-- The characters of an integer. -/
theorem toList_toString (i : Int) :
    (toString i).toList =
      if i < 0 then '-' :: Nat.toDigits 10 i.natAbs else Nat.toDigits 10 i.natAbs := by
  rw [Int.toString_eq_repr, Int.repr_eq_if]
  by_cases hneg : i < 0
  · have habs : (-i).toNat = i.natAbs := by omega
    simp [hneg, Int.not_le.mpr hneg, habs, Nat.toList_repr]
  · have habs : i.toNat = i.natAbs := by omega
    simp [hneg, Int.not_lt.mp hneg, habs, Nat.toList_repr]

theorem isWhiteSpace_digitChar : ∀ d < 10, isWhiteSpace d.digitChar = false := by decide

/-- No blank stands in an integer. -/
theorem trimBoth_toString (i : Int) :
    trimBoth isWhiteSpace (toString i).toList = (toString i).toList := by
  apply trimBoth_of_forall
  have hdigits := forall_mem_toDigits (P := fun c => isWhiteSpace c = false) isWhiteSpace_digitChar i.natAbs
  rw [toList_toString]
  split
  · intro c hc
    rcases List.mem_cons.mp hc with rfl | hlater
    · decide
    · exact hdigits c hlater
  · exact hdigits

theorem digitGroup_map_digitChar {ds : List Nat} (hne : ds ≠ []) (hlt : ∀ d ∈ ds, d < 10) :
    digitGroup (ds.map Nat.digitChar) = some ds := by
  induction ds with
  | nil => exact absurd rfl hne
  | cons d rest ih =>
      have hd := digitValue?_digitChar d (hlt d List.mem_cons_self)
      cases rest with
      | nil => simp [digitGroup, hd]
      | cons e more =>
          have hrest := ih (by simp) fun x hx => hlt x (List.mem_cons_of_mem d hx)
          have hnever : ∀ x < 10, x.digitChar ≠ '_' := by decide
          have hnot := hnever e (hlt e (List.mem_cons_of_mem d List.mem_cons_self))
          rw [List.map_cons, List.map_cons, digitGroup.eq_4 _ _ (by simp) (by simp [hnot])]
          simp only [List.map_cons] at hrest
          simp [hd, hrest]

/-- The digits of a number are read as that number. -/
theorem digitGroup_toDigits (n : Nat) :
    ∃ ds, digitGroup (Nat.toDigits 10 n) = some ds ∧ ds.length = (Nat.toDigits 10 n).length ∧
      ofDigits ds = n := by
  obtain ⟨ds, hds, hlt, hvalue⟩ := toDigits_eq_map 10 n (by decide)
  have hne : ds ≠ [] := by
    intro hnil
    rw [hnil] at hds
    exact Nat.toDigits_ne_nil hds
  refine ⟨ds, ?_, ?_, hvalue⟩
  · rw [hds]
    exact digitGroup_map_digitChar hne hlt
  · rw [hds, List.length_map]

/-- A number begins with no sign. -/
theorem takeSign_toDigits (n : Nat) : takeSign (Nat.toDigits 10 n) = (false, Nat.toDigits 10 n) := by
  have hsigns : ∀ c ∈ Nat.toDigits 10 n, c ≠ '-' ∧ c ≠ '+' := forall_mem_toDigits (by decide) n
  rcases hcs : Nat.toDigits 10 n with _ | ⟨c, rest⟩
  · rfl
  · have hc := hsigns c (by simp [hcs])
    exact takeSign.eq_3 _ (by simp [hc.1]) (by simp [hc.2])

/-- The number of digits of an integer. -/
def digitCount (i : Int) : Nat := (Nat.toDigits 10 i.natAbs).length

/-- An integer that is not too long is read from its text. -/
theorem int?_toString {i : Int} (hshort : digitCount i ≤ maxDigits) : int? (toString i) = some i := by
  obtain ⟨ds, hgroup, hlength, hvalue⟩ := digitGroup_toDigits i.natAbs
  have hfits : ¬ maxDigits < ds.length := by
    rw [hlength]
    exact Nat.not_lt.mpr hshort
  rw [int?, trimBoth_toString, toList_toString]
  generalize hmagnitude : i.natAbs = magnitude at hgroup hvalue ⊢
  by_cases hneg : i < 0
  · simp only [hneg, ↓reduceIte, takeSign]
    simp [hgroup, hfits, hvalue]
    omega
  · simp only [hneg, ↓reduceIte, takeSign_toDigits]
    simp [hgroup, hfits, hvalue]
    omega

end Intake.Number

namespace Intake.Shape

open Text Number

/-- The value of decimal characters is that of their digits. -/
theorem foldl_toDigits (n : Nat) :
    (Nat.toDigits 10 n).foldl (fun m c => 10 * m + (c.toNat - 48)) 0 = n := by
  obtain ⟨ds, hds, hlt, hvalue⟩ := toDigits_eq_map 10 n (by decide)
  have hsame : ∀ (es : List Nat) (start : Nat), (∀ d ∈ es, d < 10) →
      (es.map Nat.digitChar).foldl (fun m c => 10 * m + (c.toNat - 48)) start =
        es.foldl (fun m d => 10 * m + d) start := by
    intro es
    induction es with
    | nil => simp
    | cons d rest ih =>
        intro start hes
        rw [List.map_cons, List.foldl_cons, List.foldl_cons,
          Nat.toNat_digitChar_sub_48_of_lt_ten (hes d List.mem_cons_self)]
        exact ih _ fun x hx => hes x (List.mem_cons_of_mem d hx)
  rw [hds, hsame ds 0 hlt, hvalue]

/-- The digits of a number spell it. -/
theorem unsigned?_toDigits (n : Nat) : plainInt?.unsigned? (Nat.toDigits 10 n) = some n := by
  have hall : (Nat.toDigits 10 n).all Char.isDigit = true :=
    List.all_eq_true.mpr fun c hc => Nat.isDigit_of_mem_toDigits (by decide) (by decide) hc
  have hnonempty : (Nat.toDigits 10 n).isEmpty = false := by
    simp [List.isEmpty_eq_false_iff, Nat.toDigits_ne_nil]
  have hleading : ((Nat.toDigits 10 n).head? == some '0' && (Nat.toDigits 10 n).length != 1) = false := by
    by_cases hhead : (Nat.toDigits 10 n).head? = some '0'
    · rw [eq_zero_of_head?_toDigits hhead]
      decide
    · simp [hhead]
  simp [plainInt?.unsigned?, hall, hnonempty, hleading, foldl_toDigits]

/-- Nothing is dropped from the beginning of a number. -/
theorem afterZeros?_toDigits (n : Nat) : afterZeros? (Nat.toDigits 10 n) = some (Nat.toDigits 10 n) := by
  rcases Nat.eq_zero_or_pos n with rfl | hpos
  · decide
  · have hdigits : ∀ c ∈ Nat.toDigits 10 n, c ≠ '0' → ('1' ≤ c && c ≤ '9') = true :=
      forall_mem_toDigits (by decide) n
    rcases hcs : Nat.toDigits 10 n with _ | ⟨c, rest⟩
    · exact absurd hcs Nat.toDigits_ne_nil
    · have hzero : c ≠ '0' := by
        intro hzero
        have hn := eq_zero_of_head?_toDigits (n := n) (by simp [hcs, hzero])
        omega
      have hrange := hdigits c (by simp [hcs]) hzero
      rw [afterZeros?.eq_3 _ _ (by simp [hzero])]
      simp [hrange]

/-- A text of digits, behind a minus sign or not, has no low lines and no point. -/
theorem forall_mem_toString (i : Int) : ∀ c ∈ (toString i).toList, c ≠ '_' ∧ c ≠ '.' := by
  have hdigits : ∀ c ∈ Nat.toDigits 10 i.natAbs, c ≠ '_' ∧ c ≠ '.' :=
    forall_mem_toDigits (by decide) i.natAbs
  rw [toList_toString]
  split
  · intro c hc
    rcases List.mem_cons.mp hc with rfl | hlater
    · decide
    · exact hdigits c hlater
  · exact hdigits

/-- An integer whose text is not too long is read from its text. -/
theorem intOfText_toString {i : Int} (hshort : (toString i).length ≤ maxDigits) :
    intOfText (toString i) = .ok i := by
  have hfits : ¬ maxDigits < (toString i).toList.length := by
    rw [String.length_toList]
    exact Nat.not_lt.mpr hshort
  have hplain := forall_mem_toString i
  have hwhole : withoutZeroPlaces (toString i).toList = (toString i).toList := by
    rw [withoutZeroPlaces, cutChars_of_not_mem fun hpoint => (hplain '.' hpoint).2 rfl]
  have hlines : withoutLowLines (toString i).toList = (toString i).toList := by
    rw [withoutLowLines]
    split
    · rfl
    · exact List.filter_eq_self.mpr fun c hc => bne_iff_ne.mpr (hplain c hc).1
  rw [intOfText, trimBoth_toString]
  simp only [hfits, ↓reduceIte]
  by_cases hneg : i < 0
  · have htext : (toString i).toList = '-' :: Nat.toDigits 10 i.natAbs := by
      rw [toList_toString, if_pos hneg]
    rw [htext] at hwhole hlines ⊢
    generalize hmagnitude : i.natAbs = magnitude at hwhole hlines ⊢
    have hvalue : -(magnitude : Int) = i := by omega
    simp [afterZeros?, hwhole, hlines, plainInt?, unsigned?_toDigits, hvalue]
  · have htext : (toString i).toList = Nat.toDigits 10 i.natAbs := by
      rw [toList_toString, if_neg hneg]
    rw [htext] at hwhole hlines ⊢
    generalize hmagnitude : i.natAbs = magnitude at hwhole hlines ⊢
    have hvalue : (magnitude : Int) = i := by omega
    have hsigns : ∀ c ∈ Nat.toDigits 10 magnitude, c ≠ '+' ∧ c ≠ '-' := forall_mem_toDigits (by decide) _
    have hspelt := unsigned?_toDigits magnitude
    have hkept := afterZeros?_toDigits magnitude
    rcases hcs : Nat.toDigits 10 magnitude with _ | ⟨c, rest⟩
    · exact absurd hcs Nat.toDigits_ne_nil
    · rw [hcs] at hwhole hlines hspelt hkept
      obtain ⟨hplus, hminus⟩ := hsigns c (by simp [hcs])
      simp [hplus, hminus, hkept, hwhole, hlines, plainInt?, hspelt, hvalue]

end Intake.Shape
