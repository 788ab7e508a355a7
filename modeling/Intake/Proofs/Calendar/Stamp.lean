import Intake.Proofs.Calendar.Iso
import Intake.Proofs.Outcome
import Intake.Shape.Scalar

/-!
Time stamps that documents carry. The text of a moment is read as that moment where its offset, if it
has one, is a whole number of minutes.
-/

namespace Intake.Calendar.Stamp

open Iso

variable {bytes : Array Char} {i : Nat} {rest : List Char}

theorem decimals_two (n : Nat) : decimals 2 n = [(n / 10 % 10).digitChar, (n % 10).digitChar] := by
  simp [decimals, Text.fixedDigits]

/-- Four digits are two digits twice. -/
theorem decimals_four (n : Nat) : decimals 4 n = decimals 2 (n / 100) ++ decimals 2 (n % 100) := by
  have hfirst : n / 10 / 10 / 10 % 10 = n / 100 / 10 % 10 := by omega
  have hsecond : n / 10 / 10 % 10 = n / 100 % 10 := by omega
  have hthird : n / 10 % 10 = n % 100 / 10 % 10 := by omega
  have hfourth : n % 10 = n % 100 % 10 := by omega
  simp [decimals, Text.fixedDigits, hfirst, hsecond, hthird, ← hfourth]

theorem digitAt_of_at {d : Nat} (fault : Fault) (h : At bytes i (d.digitChar :: rest)) (hd : d < 10) :
    digitAt bytes i fault = .ok d := by
  simp [digitAt, h.getElem?, Text.isDigit_digitChar hd, Nat.toNat_digitChar_sub_48_of_lt_ten hd]

/-- Two digits at a place are read as their number. -/
theorem pairAt_of_at {n : Nat} (fault : Fault) (h : At bytes i (decimals 2 n ++ rest)) (hn : n < 100) :
    pairAt bytes i fault = .ok n := by
  rw [decimals_two] at h
  have hfirst := digitAt_of_at fault h (Nat.mod_lt _ (by decide))
  have hsecond := digitAt_of_at fault h.next (Nat.mod_lt _ (by decide))
  have hvalue : 10 * (n / 10 % 10) + n % 10 = n := by omega
  rw [← hvalue]
  simp only [pairAt, hfirst, hsecond]
  rfl

/-- The day at the beginning of a text. -/
theorem leadingDay_of_at {d : Day} (hd : d.isValid = true) (h : At bytes 0 (d.chars ++ rest)) :
    leadingDay bytes = .ok d := by
  obtain ⟨-, hyear, hmonthLeast, hmonth, hdayLeast, hday⟩ := d.bounds hd
  have hmost : d.day ≤ daysInMonth d.year d.month := by
    simp only [Day.isValid, Bool.and_eq_true, decide_eq_true_eq] at hd
    exact hd.2
  have hlong : 10 ≤ bytes.size := by
    have hsize := h.size_eq (Nat.zero_le _)
    simp only [Day.chars, List.length_append, List.length_cons, length_decimals] at hsize
    omega
  simp only [Day.chars, decimals_four, List.append_assoc, List.cons_append] at h
  have hcentury := pairAt_of_at .yearCharacter h (by omega)
  have hyears := h.past
  have hyearInCentury := pairAt_of_at .yearCharacter hyears (by omega)
  have hmonths := hyears.past.next
  have hmonthRead := pairAt_of_at .monthCharacter hmonths (by omega)
  have hdays := hmonths.past.next
  have hdayRead := pairAt_of_at .dayCharacter hdays (by omega)
  have hfirst := hyears.past.byteAt
  have hsecond := hmonths.past.byteAt
  have hvalue : 100 * (d.year / 100) + d.year % 100 = d.year := by omega
  simp only [Nat.zero_add, Nat.reduceAdd] at hyearInCentury hmonthRead hdayRead hfirst hsecond
  simp [leadingDay, require, hlong, hcentury, hyearInCentury, hmonthRead, hdayRead, hfirst, hsecond, hvalue,
    hmonthLeast, hmonth, hdayLeast, hmost]

/-- A run of digits is passed over. -/
theorem digitsEnd_of_at {front : List Char} {left : Nat} (h : At bytes i (front ++ rest))
    (hfront : ∀ c ∈ front, c.isDigit = true) (hleft : front.length ≤ left)
    (hstop : (byteAt bytes (i + front.length)).isDigit = false) :
    digitsEnd bytes left i = i + front.length := by
  induction front generalizing i left with
  | nil => exact digitsEnd_of_not_isDigit left hstop
  | cons c more ih =>
      cases left with
      | zero => simp at hleft
      | succ left =>
          have hplace : i + 1 + more.length = i + (c :: more).length := by
            rw [List.length_cons]
            omega
          have hmore := ih h.next (fun d hd => hfront d (List.mem_cons_of_mem c hd)) (by simpa using hleft)
            (by rwa [hplace])
          rw [digitsEnd, h.byteAt, if_pos (hfront c List.mem_cons_self), hmore, hplace]

/-- A character that no fraction of a second begins or goes on with. -/
def isBehindClock (c : Char) : Bool := !c.isDigit && c != '.' && c != ','

/-- A time of day at a place. -/
theorem clockAt_of_at {c : Clock} (hc : c.isValid = true) (h : At bytes i (c.chars ++ rest))
    (hi : i ≤ bytes.size) (hstop : isBehindClock (byteAt bytes (i + c.chars.length)) = true) :
    clockAt bytes i = .ok (c, i + c.chars.length) := by
  simp only [isBehindClock, Bool.and_eq_true, Bool.not_eq_true', bne_iff_ne] at hstop
  obtain ⟨⟨hdigit, hpoint⟩, hcomma⟩ := hstop
  have hsize := h.size_eq hi
  rw [List.length_append] at hsize
  simp only [Clock.isValid, Bool.and_eq_true, decide_eq_true_eq] at hc
  obtain ⟨⟨⟨hhour, hminute⟩, hsecond⟩, hmicrosecond⟩ := hc
  simp only [Clock.chars, List.append_assoc, List.cons_append] at h
  have hminutes := h.past.next
  have hseconds := hminutes.past.next
  have hend := hseconds.past
  have hhourRead := pairAt_of_at .hourCharacter h (by omega)
  have hminuteRead := pairAt_of_at .minuteCharacter hminutes (by omega)
  have hsecondRead := pairAt_of_at .secondCharacter hseconds (by omega)
  have hfirstColon := h.past.byteAt
  have hsecondColon := hminutes.past.byteAt
  simp only [Nat.add_assoc, Nat.reduceAdd] at hminuteRead hsecondRead hsecondColon hend
  by_cases hzero : c.microsecond = 0
  · have hlength : c.chars.length = 8 := by simp [Clock.chars, fractionChars, hzero]
    have hlong : i + 5 ≤ bytes.size := by omega
    have hclock : ({ c with microsecond := 0 } : Clock) = c := by
      obtain ⟨hour, minute, second, microsecond⟩ := c
      simpa using hzero.symm
    rw [hlength] at hpoint hcomma ⊢
    simpa [clockAt, require, hlong, hhourRead, hfirstColon, hminuteRead, hsecondColon, hsecondRead, hhour, hminute,
      hsecond, hpoint, hcomma] using hclock
  · have hlength : c.chars.length = 15 := by simp [Clock.chars, fractionChars, hzero]
    have hlong : i + 5 ≤ bytes.size := by omega
    rw [hlength] at hdigit ⊢
    simp only [fractionChars, hzero, ↓reduceIte, List.cons_append] at hend
    have hmark := hend.byteAt
    have hplaces := hend.next
    have hnumber := hplaces.number? (by omega)
    have hdigits : ∀ d ∈ decimals 6 c.microsecond, d.isDigit = true :=
      forall_mem_decimals (fun _ => Text.isDigit_digitChar) 6 _
    have hleft : (decimals 6 c.microsecond).length ≤ bytes.size - (i + 9) := by
      rw [length_decimals]
      omega
    have hstop := digitsEnd_of_at hplaces hdigits hleft (by rwa [length_decimals])
    have hinside : i + 9 < i + 15 := by omega
    simp only [Nat.add_assoc, Nat.reduceAdd, length_decimals] at hnumber hstop
    have hfraction : fractionAt bytes (i + 9) = .ok (c.microsecond, i + 15) := by
      simp [fractionAt, require, hstop, hinside, hnumber]
    simp [clockAt, require, hlong, hhourRead, hfirstColon, hminuteRead, hsecondColon, hsecondRead, hhour, hminute,
      hsecond, hmark, hfraction]

/-- An offset of whole minutes at a place. -/
theorem offsetAt_of_at {offset : Int} (hoffset : offset.natAbs < 86400000000)
    (hwhole : offset.natAbs % 60000000 = 0) (h : At bytes i (zoneChars (some offset))) :
    offsetAt bytes i = .ok (offset, i + (zoneChars (some offset)).length) := by
  by_cases hzero : offset = 0
  · rw [zoneChars, if_pos hzero] at h ⊢
    simp [offsetAt, h.byteAt, hzero]
  · have hminutesOnly : (offsetClock offset).second = 0 ∧ (offsetClock offset).microsecond = 0 := by
      simp only [offsetClock]
      omega
    have hhours : (offsetClock offset).hour < 24 := by
      simp only [offsetClock]
      omega
    have hminutes : (offsetClock offset).minute < 60 := by
      simp only [offsetClock]
      omega
    have hsize : ((offsetClock offset).hour * 60 + (offsetClock offset).minute) * 60 * 1000000 = offset.natAbs := by
      simp only [offsetClock]
      omega
    have hchars : zoneChars (some offset) = (if offset < 0 then '-' else '+') ::
        (decimals 2 (offsetClock offset).hour ++ ':' :: decimals 2 (offsetClock offset).minute) := by
      rw [zoneChars, if_neg hzero, offsetChars, if_pos hminutesOnly]
    rw [hchars] at h ⊢
    have hsign := h.byteAt
    have hplace := h.next
    have hhourRead := pairAt_of_at .zoneHour hplace (by omega)
    have hcolon := hplace.past.byteAt
    have hbehind := hplace.past.next
    simp only [Nat.add_assoc, Nat.reduceAdd] at hcolon hbehind
    have hends := hbehind
    rw [← List.append_nil (decimals 2 _)] at hends
    have hminuteRead := pairAt_of_at .zoneMinute hends (by omega)
    have hthere : ∃ c, bytes[i + 4]? = some c := by
      rw [decimals_two] at hbehind
      exact ⟨_, hbehind.getElem?⟩
    obtain ⟨c, hthere⟩ := hthere
    by_cases hneg : offset < 0
    · rw [if_pos hneg] at hsign
      simp [offsetAt, signAt, hsign, hhourRead, hcolon, hthere, hminuteRead, require, hhours, hminutes, hneg]
      omega
    · rw [if_neg hneg] at hsign
      simp [offsetAt, signAt, hsign, hhourRead, hcolon, hthere, hminuteRead, require, hhours, hminutes, hneg]
      omega

/-- The text of a moment, its offset a whole number of minutes if it has one, is read as the moment. -/
theorem moment_written {m : Moment} (hm : m.isValid = true)
    (hwhole : ∀ offset ∈ m.offset, offset.natAbs % 60000000 = 0) : moment m.written = .ok m := by
  have hvalid := hm
  simp only [Moment.isValid, Bool.and_eq_true] at hvalid
  obtain ⟨⟨hday, hclock⟩, -⟩ := hvalid
  have hstart : At m.chars.toArray 0 (m.day.chars ++ 'T' :: (m.clock.chars ++ zoneChars m.offset)) := at_zero _
  have hten : m.day.chars.length = 10 := by simp [Day.chars]
  have hmark := hstart.advance
  have htime := hmark.next
  have hsize := hstart.size_eq (Nat.zero_le _)
  simp only [hten, Nat.zero_add, Nat.reduceAdd, List.length_append, List.length_cons] at hmark htime hsize
  have hbehind := htime.advance
  have hstop : isBehindClock (byteAt m.chars.toArray (11 + m.clock.chars.length)) = true := by
    rcases ho : m.offset with _ | offset
    · rw [ho, zoneChars] at hbehind
      rw [hbehind.byteAt_end]
      decide
    · obtain ⟨c, more, hzone, hc, -⟩ := exists_zoneChars offset
      rw [ho, hzone] at hbehind
      rw [hbehind.byteAt]
      simp only [isZoneChar, Bool.or_eq_true, beq_iff_eq] at hc
      rcases hc with (rfl | rfl) | rfl <;> decide
  have hclockRead := clockAt_of_at hclock htime (by omega) hstop
  have hyear := (m.day.bounds hday).1
  have hfixed : fixed m.chars.toArray = .ok m := by
    rw [List.size_toArray] at hsize
    rw [fixed]
    rcases ho : m.offset with _ | offset
    · have hend : m.chars.length ≤ 11 + m.clock.chars.length := by
        rw [ho] at hsize
        simp only [zoneChars, List.length_nil] at hsize
        omega
      have hm' : (⟨m.day, m.clock, none⟩ : Moment) = m := by rw [← ho]
      simp [leadingDay_of_at hday hstart, hmark.byteAt, require, hclockRead, hyear, hend, hm']
    · have hsmall := m.natAbs_offset_lt hm ho
      have hm' : (⟨m.day, m.clock, some offset⟩ : Moment) = m := by rw [← ho]
      rw [ho] at hbehind hsize
      have hread := offsetAt_of_at hsmall (hwhole offset ho) hbehind
      obtain ⟨c, more, hzone, -, -⟩ := exists_zoneChars offset
      have hmore : ¬ m.chars.length ≤ 11 + m.clock.chars.length := by
        rw [hzone, List.length_cons] at hsize
        omega
      have hend : m.chars.length ≤ 11 + m.clock.chars.length + (zoneChars (some offset)).length := by omega
      simp [leadingDay_of_at hday hstart, hmark.byteAt, require, hclockRead, hyear, hmore, hread, hend, hm']
  rw [moment, m.bytesOf_written hm, hfixed]

end Intake.Calendar.Stamp
