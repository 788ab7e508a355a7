import Intake.Calendar.Moment
import Intake.Number.Reading
import Intake.Text.Quoted
import Mathlib.Tactic.Ring

/-!
Digits that are written and read. A number is written to a width with zeros in front, or without any;
the digits denote the number again, and every digit is read for what it is.
-/

namespace Intake.Text

/-- The digits of a number to a base, exactly so many, the last ones. -/
def fixedDigits (base : Nat) : (width n : Nat) → List Nat
  | 0, _ => []
  | width + 1, n => fixedDigits base width (n / base) ++ [n % base]

@[simp] theorem length_fixedDigits (base width n : Nat) :
    (fixedDigits base width n).length = width := by
  induction width generalizing n with
  | zero => rfl
  | succ width ih => simp [fixedDigits, ih]

theorem lt_of_mem_fixedDigits {base width n d : Nat} (hbase : 0 < base)
    (hd : d ∈ fixedDigits base width n) : d < base := by
  induction width generalizing n with
  | zero => simp [fixedDigits] at hd
  | succ width ih =>
      rcases List.mem_append.mp hd with hfront | hlast
      · exact ih hfront
      · rw [List.mem_singleton.mp hlast]
        exact Nat.mod_lt n hbase

theorem fixedDigits_zero (base width : Nat) : fixedDigits base width 0 = List.replicate width 0 := by
  induction width with
  | zero => rfl
  | succ width ih => simp [fixedDigits, ih, List.replicate_succ']

/-- The digits denote the number behind the digits before them. -/
theorem foldl_fixedDigits {base width n : Nat} (hn : n < base ^ width) (start : Nat) :
    (fixedDigits base width n).foldl (fun m d => base * m + d) start = base ^ width * start + n := by
  induction width generalizing n with
  | zero =>
      have hzero : n = 0 := by simpa using hn
      simp [fixedDigits, hzero]
  | succ width ih =>
      have hdiv : n / base < base ^ width := by
        rw [Nat.div_lt_iff_lt_mul (Nat.pos_of_ne_zero fun h => by simp [h] at hn)]
        rwa [Nat.pow_succ] at hn
      rw [fixedDigits, List.foldl_append, ih hdiv]
      have hsplit := Nat.div_add_mod n base
      simp only [List.foldl_cons, List.foldl_nil]
      rw [Nat.mul_add, Nat.add_assoc, hsplit, Nat.pow_succ]
      ring

/-- Zeros in front of the digits of a number fill it up to a width. -/
theorem replicate_append_toDigits {base width n : Nat} (hbase : 1 < base) (hwidth : 0 < width)
    (hn : n < base ^ width) :
    List.replicate (width - (Nat.toDigits base n).length) '0' ++ Nat.toDigits base n =
      (fixedDigits base width n).map Nat.digitChar := by
  induction width generalizing n with
  | zero => exact absurd hwidth (Nat.lt_irrefl 0)
  | succ width ih =>
      by_cases hsmall : n < base
      · rw [Nat.toDigits_of_lt_base hsmall, fixedDigits, Nat.div_eq_of_lt hsmall,
          Nat.mod_eq_of_lt hsmall, fixedDigits_zero]
        simp
      · have hbig : base ≤ n := Nat.le_of_not_lt hsmall
        have hwidth' : 0 < width := by
          rcases Nat.eq_zero_or_pos width with hzero | hpos
          · rw [hzero] at hn
            simp at hn
            omega
          · exact hpos
        have hdiv : n / base < base ^ width := by
          rw [Nat.div_lt_iff_lt_mul (by omega)]
          rwa [Nat.pow_succ] at hn
        rw [Nat.toDigits_of_base_le hbase hbig, fixedDigits, List.map_append, ← ih hwidth' hdiv]
        simp

/-- The digit of a value among the first ten is decimal. -/
theorem isDigit_digitChar {d : Nat} (hd : d < 10) : d.digitChar.isDigit = true := by
  rw [Nat.isDigit_digitChar]
  exact decide_eq_true hd

theorem digitValue?_digitChar : ∀ d < 10, digitValue? d.digitChar = some d := by decide

theorem hexValue?_digitChar : ∀ d < 16, hexValue? d.digitChar = some d := by decide

/-- Decimal digits are what is left of a number that is taken apart. -/
theorem toDigits_eq_map (base n : Nat) (hbase : 1 < base) :
    ∃ ds : List Nat, Nat.toDigits base n = ds.map Nat.digitChar ∧ (∀ d ∈ ds, d < base) ∧
      ds.foldl (fun m d => base * m + d) 0 = n := by
  induction n using Nat.strongRecOn with
  | _ n ih =>
      by_cases hsmall : n < base
      · exact ⟨[n], by simp [Nat.toDigits_of_lt_base hsmall], by simpa using hsmall, by simp⟩
      · have hbig : base ≤ n := Nat.le_of_not_lt hsmall
        obtain ⟨ds, hds, hlt, hvalue⟩ := ih (n / base) (Nat.div_lt_self (by omega) hbase)
        refine ⟨ds ++ [n % base], ?_, ?_, ?_⟩
        · simp [Nat.toDigits_of_base_le hbase hbig, hds]
        · intro d hd
          rcases List.mem_append.mp hd with hfront | hlast
          · exact hlt d hfront
          · rw [List.mem_singleton.mp hlast]
            exact Nat.mod_lt n (by omega)
        · rw [List.foldl_append, hvalue]
          exact Nat.div_add_mod n base

/-- A number in hexadecimal digits, exactly so many. -/
theorem toList_hexText {width n : Nat} (hwidth : 0 < width) (hn : n < 16 ^ width) :
    (hexText width n).toList = (fixedDigits 16 width n).map Nat.digitChar := by
  rw [hexText, String.toList_ofList]
  exact replicate_append_toDigits (by decide) hwidth hn

end Intake.Text

namespace Intake.Calendar

/-- A number in decimal digits, exactly so many. -/
theorem toList_digits {width n : Nat} (hwidth : 0 < width) (hn : n < 10 ^ width) :
    (digits width n).toList = (Text.fixedDigits 10 width n).map Nat.digitChar := by
  unfold digits Text.padLeft
  have hshown : (toString n).toList = Nat.toDigits 10 n := by
    rw [Nat.toString_eq_ofList_toDigits, String.toList_ofList]
  rw [String.toList_ofList, ← Text.replicate_append_toDigits (by decide) hwidth hn, hshown]
  rw [← String.length_toList, hshown]

end Intake.Calendar
