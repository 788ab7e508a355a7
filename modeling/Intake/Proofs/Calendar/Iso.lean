import Intake.Proofs.Calendar.Place

/-!
Moments in the international notation. The text of a moment with a known offset is read as that moment,
unless the offset is below one second and not zero: reading takes such an offset for none.
-/

namespace Intake.Calendar

open Iso

/-- The fraction of a second behind a point, if there is any. -/
def fractionChars (microsecond : Nat) : List Char :=
  if microsecond = 0 then [] else '.' :: decimals 6 microsecond

/-- The characters of a time of day. -/
def Clock.chars (c : Clock) : List Char :=
  decimals 2 c.hour ++ ':' :: (decimals 2 c.minute ++ ':' :: (decimals 2 c.second ++
    fractionChars c.microsecond))

/-- The characters of a day. -/
def Day.chars (d : Day) : List Char :=
  decimals 4 d.year ++ '-' :: (decimals 2 d.month ++ '-' :: decimals 2 d.day)

theorem toList_fraction {n : Nat} (hn : n < 1000000) :
    (if n == 0 then "" else "." ++ digits 6 n).toList = fractionChars n := by
  by_cases hzero : n = 0
  · simp [fractionChars, hzero]
  · simp [fractionChars, hzero, toList_digits (by decide : 0 < 6) hn, decimals]

theorem Clock.toList_text {c : Clock} (hc : c.isValid = true) : c.text.toList = c.chars := by
  simp only [Clock.isValid, Bool.and_eq_true, decide_eq_true_eq] at hc
  obtain ⟨⟨⟨hhour, hminute⟩, hsecond⟩, hmicrosecond⟩ := hc
  have htwo : ∀ n < 100, (digits 2 n).toList = decimals 2 n := fun n hn => toList_digits (by decide) hn
  unfold Clock.text Clock.chars
  rw [String.toList_append, toList_fraction hmicrosecond]
  simp [htwo c.hour (by omega), htwo c.minute (by omega), htwo c.second (by omega)]

/-- What holds of digits, the colon and the point holds of the characters of a time of day. -/
theorem Clock.forall_mem_chars {P : Char → Prop} (hdigit : ∀ d < 10, P d.digitChar) (hcolon : P ':')
    (hpoint : P '.') (c : Clock) : ∀ d ∈ c.chars, P d := by
  have hdigits : ∀ width n, ∀ d ∈ decimals width n, P d := fun width n =>
    forall_mem_decimals hdigit width n
  have hfraction : ∀ d ∈ fractionChars c.microsecond, P d := by
    rw [fractionChars]
    split
    · simp
    · intro d hd
      rcases List.mem_cons.mp hd with rfl | hlater
      · exact hpoint
      · exact hdigits _ _ d hlater
  intro d hd
  simp only [Clock.chars, List.mem_append, List.mem_cons] at hd
  rcases hd with h | rfl | h | rfl | h | h
  · exact hdigits _ _ d h
  · exact hcolon
  · exact hdigits _ _ d h
  · exact hcolon
  · exact hdigits _ _ d h
  · exact hfraction d h

theorem daysInMonth_le (year month : Nat) : daysInMonth year month ≤ 31 := by
  rw [daysInMonth]
  split
  · split <;> omega
  · split <;> omega

theorem Day.bounds {d : Day} (hd : d.isValid = true) :
    1 ≤ d.year ∧ d.year ≤ 9999 ∧ 1 ≤ d.month ∧ d.month ≤ 12 ∧ 1 ≤ d.day ∧ d.day ≤ 31 := by
  simp only [Day.isValid, Bool.and_eq_true, decide_eq_true_eq] at hd
  have hmost := daysInMonth_le d.year d.month
  omega

theorem Day.toList_text {d : Day} (hd : d.isValid = true) : d.text.toList = d.chars := by
  obtain ⟨-, hyear, -, hmonth, -, hday⟩ := d.bounds hd
  have htwo : ∀ n < 100, (digits 2 n).toList = decimals 2 n := fun n hn => toList_digits (by decide) hn
  have hfour : (digits 4 d.year).toList = decimals 4 d.year := toList_digits (by decide) (by omega)
  unfold Day.text Day.chars
  simp [hfour, htwo d.month (by omega), htwo d.day (by omega)]

/-- The size of an offset as a time of day. -/
def offsetClock (offset : Int) : Clock :=
  let seconds := offset.natAbs / 1000000
  ⟨seconds / 3600, seconds / 60 % 60, seconds % 60, offset.natAbs % 1000000⟩

theorem isValid_offsetClock {offset : Int} (hoffset : offset.natAbs < 86400000000) :
    (offsetClock offset).isValid = true := by
  have hparts : offset.natAbs / 1000000 / 3600 < 24 ∧ offset.natAbs / 1000000 / 60 % 60 < 60 ∧
      offset.natAbs / 1000000 % 60 < 60 ∧ offset.natAbs % 1000000 < 1000000 := by omega
  simp [Clock.isValid, offsetClock, hparts]

theorem sinceMidnight_offsetClock (offset : Int) :
    (offsetClock offset).sinceMidnight = offset.natAbs := by
  simp only [Clock.sinceMidnight, offsetClock]
  omega

/-- The characters of an offset. -/
def offsetChars (offset : Int) : List Char :=
  let c := offsetClock offset
  (if offset < 0 then '-' else '+') ::
    (if c.second = 0 ∧ c.microsecond = 0 then decimals 2 c.hour ++ ':' :: decimals 2 c.minute else c.chars)

theorem toList_offsetText {offset : Int} (hoffset : offset.natAbs < 86400000000) :
    (offsetText offset).toList = offsetChars offset := by
  have htwo : ∀ n < 100, (digits 2 n).toList = decimals 2 n := fun n hn => toList_digits (by decide) hn
  have hsign : (if offset < 0 then "-" else "+").toList = [if offset < 0 then '-' else '+'] := by
    split <;> rfl
  have hmicrosecond := toList_fraction (n := offset.natAbs % 1000000) (by omega)
  unfold offsetText offsetChars
  simp only [String.toList_append, hsign, hmicrosecond, offsetClock]
  rw [htwo _ (by omega), htwo _ (by omega)]
  by_cases hwhole : offset.natAbs / 1000000 % 60 = 0 ∧ offset.natAbs % 1000000 = 0
  · simp [hwhole, fractionChars]
  · have hshown : (offset.natAbs / 1000000 % 60 == 0 && offset.natAbs % 1000000 == 0) = false := by
      simpa using hwhole
    simp [hwhole, hshown, Clock.chars, htwo _ (by omega : offset.natAbs / 1000000 % 60 < 100)]

/-- The characters of the offset of a moment, the letter for universal time. -/
def zoneChars : Option Int → List Char
  | none => []
  | some offset => if offset = 0 then ['Z'] else offsetChars offset

/-- The characters of a moment. -/
def Moment.chars (m : Moment) : List Char :=
  m.day.chars ++ 'T' :: (m.clock.chars ++ zoneChars m.offset)

/-- The text that a moment is written as. -/
def Moment.written (m : Moment) : String := if m.isUniversal then m.zuluText else m.text

/-- An offset is less than a day. -/
theorem Moment.natAbs_offset_lt {m : Moment} {offset : Int} (hm : m.isValid = true)
    (ho : m.offset = some offset) : offset.natAbs < 86400000000 := by
  simp only [Moment.isValid, Bool.and_eq_true] at hm
  have hdecided : decide (offset.natAbs < microsecondsPerDay.natAbs) = true := by simpa [ho] using hm.2
  exact of_decide_eq_true hdecided

theorem Moment.toList_written {m : Moment} (hm : m.isValid = true) : m.written.toList = m.chars := by
  have hsmall : ∀ offset, m.offset = some offset → offset.natAbs < 86400000000 := fun _ ho =>
    m.natAbs_offset_lt hm ho
  simp only [Moment.isValid, Bool.and_eq_true] at hm
  obtain ⟨⟨hday, hclock⟩, -⟩ := hm
  unfold Moment.written Moment.zuluText Moment.text Moment.chars Moment.isUniversal
  rcases ho : m.offset with _ | offset
  · simp [zoneChars, Day.toList_text hday, Clock.toList_text hclock]
  · by_cases hzero : offset = 0
    · simp [zoneChars, hzero, Day.toList_text hday, Clock.toList_text hclock]
    · simp [zoneChars, hzero, Day.toList_text hday, Clock.toList_text hclock, toList_offsetText (hsmall offset ho)]

namespace Iso

variable {bytes : Array Char} {i : Nat} {rest : List Char}

/-- A run of digits ends where no digit is. -/
theorem digitsEnd_of_not_isDigit (left : Nat) (hnone : (byteAt bytes i).isDigit = false) :
    digitsEnd bytes left i = i := by
  cases left with
  | zero => rfl
  | succ left => simp [digitsEnd, hnone]

/-- A time of day is read to its end. -/
theorem clock?_of_at {c : Clock} (hc : c.isValid = true) (h : At bytes i (c.chars ++ rest))
    (hsize : i + c.chars.length ≤ bytes.size)
    (hstop : (byteAt bytes (i + c.chars.length)).isDigit = false) :
    clock? bytes i (i + c.chars.length) =
      some ⟨c, byteAt bytes (i + c.chars.length) != Char.ofNat 0⟩ := by
  simp only [Clock.isValid, Bool.and_eq_true, decide_eq_true_eq] at hc
  obtain ⟨⟨⟨hhour, hminute⟩, hsecond⟩, hmicrosecond⟩ := hc
  simp only [Clock.chars, List.append_assoc, List.cons_append] at h
  have hminutes := h.past.next
  have hseconds := hminutes.past.next
  have hend := hseconds.past
  have hhourRead := h.number? (by omega)
  have hminuteRead := hminutes.number? (by omega)
  have hsecondRead := hseconds.number? (by omega)
  have hfirstColon := h.past.byteAt
  have hsecondColon := hminutes.past.byteAt
  by_cases hzero : c.microsecond = 0
  · have hlength : c.chars.length = 8 := by simp [Clock.chars, fractionChars, hzero]
    have hclock : ({ c with microsecond := midnight.microsecond } : Clock) = c := by
      obtain ⟨hour, minute, second, microsecond⟩ := c
      simpa [midnight] using hzero.symm
    rw [hlength] at hstop ⊢
    simpa [clock?, parts?, hhourRead, hfirstColon, hminuteRead, hsecondColon, hsecondRead, setPart] using hclock
  · have hlength : c.chars.length = 15 := by simp [Clock.chars, fractionChars, hzero]
    rw [hlength] at hstop ⊢
    simp only [fractionChars, hzero, ↓reduceIte, List.cons_append] at hend
    have hpoint := hend.byteAt
    have hfractionRead := hend.next.number? (by omega)
    have hdigitsEnd := digitsEnd_of_not_isDigit (bytes.size - (i + 15)) hstop
    simp only [Nat.add_assoc, Nat.reduceAdd] at hfractionRead
    simp [clock?, parts?, hhourRead, hfirstColon, hminuteRead, hsecondColon, hsecondRead, setPart, hpoint,
      fraction?, Nat.add_assoc, hfractionRead, hdigitsEnd]

/-- A time of day without seconds is read to the end of the text. -/
theorem clock?_of_at_minutes {hour minute : Nat} (hhour : hour < 100) (hminute : minute < 100)
    (h : At bytes i (decimals 2 hour ++ ':' :: decimals 2 minute)) :
    clock? bytes i (i + 5) = some ⟨⟨hour, minute, 0, 0⟩, false⟩ := by
  have hminutes := h.past.next
  rw [← List.append_nil (decimals 2 minute)] at hminutes
  have hhourRead := h.number? (by omega)
  have hminuteRead := hminutes.number? (by omega)
  have hcolon := h.past.byteAt
  have hend := hminutes.past.byteAt_end
  simp only [Nat.add_assoc, Nat.reduceAdd] at hend hminuteRead
  simp [clock?, parts?, hhourRead, hcolon, hminuteRead, hend, setPart, midnight, Nat.add_assoc]

/-- Whether a character begins an offset. -/
def isZoneChar (c : Char) : Bool := c == '+' || c == '-' || c == 'Z'

/-- The offset begins behind the characters that begin none. -/
theorem zoneStart_of_at {front : List Char} {c : Char} {left : Nat} (h : At bytes i (front ++ c :: rest))
    (hfront : ∀ d ∈ front, isZoneChar d = false) (hc : isZoneChar c = true)
    (hleft : front.length < left) : zoneStart bytes left i = i + front.length := by
  induction front generalizing i left with
  | nil =>
      cases left with
      | zero => simp at hleft
      | succ left =>
          have hbyte := h.byteAt
          simp only [isZoneChar] at hc
          simp [zoneStart, hbyte, hc]
  | cons d more ih =>
      cases left with
      | zero => simp at hleft
      | succ left =>
          have hbyte := h.byteAt
          have hd := hfront d List.mem_cons_self
          simp only [isZoneChar] at hd
          have hmore := ih h.next (fun e he => hfront e (List.mem_cons_of_mem d he)) (by simpa using hleft)
          simp [zoneStart, hbyte, hd, hmore]
          omega

/-- The day at the beginning of a text. -/
theorem day?_of_at {d : Day} (hd : d.isValid = true) (h : At bytes 0 (d.chars ++ rest)) :
    day? bytes 10 = some d := by
  obtain ⟨-, hyear, -, hmonth, -, hday⟩ := d.bounds hd
  simp only [Day.chars, List.append_assoc, List.cons_append] at h
  have hmonths := h.past.next
  have hdays := hmonths.past.next
  have hyearRead := h.number? (by omega)
  have hmonthRead := hmonths.number? (by omega)
  have hdayRead := hdays.number? (by omega)
  have hfirst := h.past.byteAt
  have hsecond := hmonths.past.byteAt
  have hweek : byteAt bytes 5 ≠ 'W' := by
    intro hweek
    have hdigit := hmonths.isDigit
    simp [hweek] at hdigit
  simp only [Nat.zero_add, Nat.reduceAdd] at hfirst hsecond hmonthRead hdayRead
  simp [day?, hyearRead, hmonthRead, hdayRead, hfirst, hsecond, hweek, hd]

/-- The day by month has ten bytes. -/
theorem separator?_of_at {d : Day} (h : At bytes 0 (d.chars ++ rest)) : separator? bytes = some 10 := by
  have hsize := h.size_eq (Nat.zero_le _)
  simp only [Day.chars, List.append_assoc, List.cons_append] at h hsize
  have hfirst := h.past.byteAt
  have hweek : byteAt bytes 5 ≠ 'W' := by
    intro hweek
    have hdigit := h.past.next.isDigit
    simp [hweek] at hdigit
  have hlong : ¬ bytes.size < 7 ∧ bytes.size ≠ 7 := by
    simp only [List.length_append, List.length_cons, length_decimals] at hsize
    omega
  simp only [Nat.zero_add] at hfirst
  simp [separator?, hlong, hfirst, hweek]

/-- The characters of an offset begin with a sign or the letter for universal time. -/
theorem exists_zoneChars (offset : Int) :
    ∃ c more, zoneChars (some offset) = c :: more ∧ isZoneChar c = true ∧ c.isDigit = false := by
  by_cases hzero : offset = 0
  · exact ⟨'Z', [], by simp [zoneChars, hzero], by decide, by decide⟩
  · refine ⟨if offset < 0 then '-' else '+', _, by rw [zoneChars, if_neg hzero, offsetChars], ?_, ?_⟩
    · split <;> decide
    · split <;> decide

/-- The size of an offset behind its sign. -/
theorem clock?_of_at_offset {offset : Int} (hoffset : offset.natAbs < 86400000000) (hi : i ≤ bytes.size)
    (h : At bytes i (offsetChars offset)) :
    clock? bytes (i + 1) bytes.size = some ⟨offsetClock offset, false⟩ := by
  have hsize := h.size_eq hi
  have hvalid := isValid_offsetClock hoffset
  have hbehind := h.next
  by_cases hshort : (offsetClock offset).second = 0 ∧ (offsetClock offset).microsecond = 0
  · rw [if_pos hshort] at hbehind
    simp only [Clock.isValid, Bool.and_eq_true, decide_eq_true_eq] at hvalid
    obtain ⟨⟨⟨hhour, hminute⟩, -⟩, -⟩ := hvalid
    have hlength : bytes.size = i + 1 + 5 := by
      rw [hsize, offsetChars, if_pos hshort]
      simp
    have hclock : ∀ c : Clock, c.second = 0 → c.microsecond = 0 → (⟨c.hour, c.minute, 0, 0⟩ : Clock) = c := by
      intro ⟨hour, minute, second, microsecond⟩ hsecond hmicrosecond
      simp only at hsecond hmicrosecond
      rw [hsecond, hmicrosecond]
    rw [hlength, clock?_of_at_minutes (by omega) (by omega) hbehind, hclock _ hshort.1 hshort.2]
  · rw [if_neg hshort] at hbehind
    have hlength : bytes.size = i + 1 + (offsetClock offset).chars.length := by
      rw [hsize, offsetChars, if_neg hshort]
      simp
      omega
    have hfull : At bytes (i + 1) ((offsetClock offset).chars ++ []) := by simpa using hbehind
    have hend := hfull.advance.byteAt_end
    rw [hlength, clock?_of_at hvalid hfull (by omega) (by rw [hend]; decide), hend]
    rfl

/-- The offset that is read where one is written. -/
def offsetRead (offset : Int) : Int := if offset.natAbs < 1000000 then 0 else offset

theorem offsetRead_eq_self {offset : Int} (hheld : offset = 0 ∨ 1000000 ≤ offset.natAbs) :
    offsetRead offset = offset := by
  rw [offsetRead]
  split
  · omega
  · rfl

/-- A time of day and the offset behind it. -/
theorem time?_of_at {c : Clock} {offset : Int} (hc : c.isValid = true)
    (hoffset : offset.natAbs < 86400000000) (hi : i ≤ bytes.size)
    (h : At bytes i (c.chars ++ zoneChars (some offset))) :
    time? bytes i = some (c, some (offsetRead offset)) := by
  obtain ⟨sign, more, hzone, hsign, hdigit⟩ := exists_zoneChars offset
  have hsize := h.size_eq hi
  have hbehind := h.advance
  rw [hzone] at h hsize
  have hbyte : byteAt bytes (i + c.chars.length) = sign := by
    rw [hzone] at hbehind
    exact hbehind.byteAt
  have hstart : zoneStart bytes (bytes.size - i) i = i + c.chars.length := by
    have hfront : ∀ d ∈ c.chars, isZoneChar d = false :=
      c.forall_mem_chars (by decide) (by decide) (by decide)
    apply zoneStart_of_at h hfront hsign
    rw [hsize]
    simp
  have hinside : i + c.chars.length < bytes.size := by
    rw [hsize]
    simp
  have hclock := clock?_of_at hc h (Nat.le_of_lt hinside) (by rw [hbyte]; exact hdigit)
  rw [time?]
  simp only [hstart, hclock]
  by_cases hzero : offset = 0
  · rw [zoneChars, if_pos hzero] at hbehind
    have hletter := hbehind.byteAt
    have hend := hbehind.next.byteAt_end
    simp [hletter, hend, hzero, Nat.ne_of_lt hinside, offsetRead]
  · rw [zoneChars, if_neg hzero] at hbehind
    have hdistance := clock?_of_at_offset hoffset (Nat.le_of_lt hinside) hbehind
    have hsize' := sinceMidnight_offsetClock offset
    have hletter := hbehind.byteAt
    have hnotZulu : (if offset < 0 then '-' else '+') ≠ 'Z' := by split <;> decide
    generalize hmagnitude : offset.natAbs = magnitude at hsize'
    by_cases hsmall : magnitude < 1000000
    · simp [hletter, hdistance, hnotZulu, Nat.ne_of_lt hinside, hsize', offsetRead, hmagnitude, hsmall]
    · simp [hletter, hdistance, hnotZulu, Nat.ne_of_lt hinside, hsize', offsetRead, hmagnitude, hsmall]
      split <;> omega

end Iso

/-- A moment is written in ASCII characters. -/
theorem Moment.forall_mem_chars (m : Moment) : ∀ c ∈ m.chars, c.toNat < 128 := by
  have hdigits : ∀ width n, ∀ c ∈ decimals width n, c.toNat < 128 := fun width n =>
    forall_mem_decimals (by decide) width n
  have hclock : ∀ k : Clock, ∀ c ∈ k.chars, c.toNat < 128 := fun k =>
    k.forall_mem_chars (by decide) (by decide) (by decide)
  have hday : ∀ c ∈ m.day.chars, c.toNat < 128 := by
    intro c hc
    simp only [Day.chars, List.mem_append, List.mem_cons] at hc
    rcases hc with h | rfl | h | rfl | h
    · exact hdigits _ _ c h
    · decide
    · exact hdigits _ _ c h
    · decide
    · exact hdigits _ _ c h
  have hzone : ∀ c ∈ zoneChars m.offset, c.toNat < 128 := by
    intro c hc
    unfold zoneChars offsetChars at hc
    split at hc
    · simp at hc
    · split at hc
      · rw [List.mem_singleton.mp hc]
        decide
      · rcases List.mem_cons.mp hc with rfl | hlater
        · split <;> decide
        · split at hlater
          · rcases List.mem_append.mp hlater with h | h
            · exact hdigits _ _ c h
            · rcases List.mem_cons.mp h with rfl | h
              · decide
              · exact hdigits _ _ c h
          · exact hclock _ c hlater
  intro c hc
  simp only [Moment.chars, List.mem_append, List.mem_cons] at hc
  rcases hc with h | rfl | h | h
  · exact hday c h
  · decide
  · exact hclock _ c h
  · exact hzone c h

theorem Moment.bytesOf_written {m : Moment} (hm : m.isValid = true) :
    bytesOf m.written = m.chars.toArray := by
  have hchars := m.toList_written hm
  rw [bytesOf_of_ascii (by rw [hchars]; exact m.forall_mem_chars), hchars]

/-- A moment with an offset is read from its text, with the offset that is read. -/
theorem Moment.ofIso?_written_eq {m : Moment} {offset : Int} (hm : m.isValid = true)
    (hknown : m.offset = some offset) :
    Moment.ofIso? m.written = some { m with offset := some (offsetRead offset) } := by
  have hvalid := hm
  simp only [Moment.isValid, Bool.and_eq_true] at hvalid
  obtain ⟨⟨hday, hclock⟩, -⟩ := hvalid
  have hsmall := m.natAbs_offset_lt hm hknown
  have hstart : At m.chars.toArray 0 (m.day.chars ++ 'T' :: (m.clock.chars ++ zoneChars (some offset))) := by
    have hchars : m.chars = m.day.chars ++ 'T' :: (m.clock.chars ++ zoneChars (some offset)) := by
      rw [← hknown]
      rfl
    rw [hchars]
    exact at_zero _
  have hten : m.day.chars.length = 10 := by simp [Day.chars]
  have hmark := hstart.advance
  have htime := hmark.next
  have hsize := hstart.size_eq (Nat.zero_le _)
  simp only [hten, Nat.zero_add, Nat.reduceAdd, List.length_append, List.length_cons] at hmark htime hsize
  have hclockRead := time?_of_at hclock hsmall (by omega) htime
  have hbehind : ¬ m.chars.length ≤ 10 := by
    rw [List.size_toArray] at hsize
    omega
  have hback : (⟨m.day, m.clock, some (offsetRead offset)⟩ : Moment).isValid = true := by
    have hless : (offsetRead offset).natAbs < microsecondsPerDay.natAbs := by
      rw [offsetRead]
      split
      · decide
      · exact hsmall
    simp [Moment.isValid, hday, hclock, hless]
  rw [Moment.ofIso?]
  simp only [bytesOf_written hm, separator?_of_at hstart]
  have hwidth : charWidth 'T' = 1 := by decide
  simp [day?_of_at hday hstart, hbehind, hmark.byteAt, hwidth, hclockRead, hback]

/-- A moment is read from its text if its offset is known and zero or at least one second. -/
theorem Moment.ofIso?_written {m : Moment} {offset : Int} (hm : m.isValid = true)
    (hknown : m.offset = some offset) (hread : offset = 0 ∨ 1000000 ≤ offset.natAbs) :
    Moment.ofIso? m.written = some m := by
  rw [Moment.ofIso?_written_eq hm hknown, offsetRead_eq_self hread, ← hknown]

end Intake.Calendar
