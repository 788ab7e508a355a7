import Intake.Calendar.Stamp
import Intake.Proofs.Text.Digits

/-!
Reading at a place of a text. The characters from a place on determine what is read there: a number of
decimal digits, a character, or the end; past what was read stands the rest.
-/

namespace Intake.Calendar.Iso

/-- Going through an array of bytes collects those from a place on. -/
theorem loop_eq_append_drop (bs : ByteArray) (i : Nat) (r : List UInt8) :
    ByteArray.toList.loop bs i r = r.reverse ++ bs.data.toList.drop i := by
  induction i, r using ByteArray.toList.loop.induct bs with
  | case1 i r hin ih =>
      have hlen : i < bs.data.toList.length := by simpa using hin
      rw [ByteArray.toList.loop, if_pos hin, ih, List.drop_eq_getElem_cons hlen]
      simp [ByteArray.get!, hin]
  | case2 i r hstop =>
      have hnone : bs.data.toList.drop i = [] := by
        apply List.drop_eq_nil_of_le
        simpa using Nat.le_of_not_lt hstop
      rw [ByteArray.toList.loop, if_neg hstop, hnone, List.append_nil]

/-- The byte of an ASCII character has its code. -/
theorem map_utf8EncodeChar {c : Char} (hc : c.toNat < 128) :
    (String.utf8EncodeChar c).map (fun b => Char.ofNat b.toNat) = [c] := by
  have hsize : c.utf8Size = 1 := by
    rw [Char.utf8Size_eq_one_iff, UInt32.le_iff_toNat_le]
    exact Nat.le_of_lt_succ hc
  have hbyte : c.val.toUInt8.toNat = c.toNat := by
    rw [UInt32.toNat_toUInt8]
    exact Nat.mod_eq_of_lt (Nat.lt_trans hc (by decide))
  rw [String.utf8EncodeChar_eq_singleton hsize, List.map_singleton, hbyte, Char.ofNat_toNat]

/-- The bytes of a text of ASCII characters are its characters. -/
theorem bytesOf_of_ascii {s : String} (hs : ∀ c ∈ s.toList, c.toNat < 128) :
    bytesOf s = s.toList.toArray := by
  have hbytes : s.toUTF8.toList = s.toList.flatMap String.utf8EncodeChar := by
    rw [ByteArray.toList, loop_eq_append_drop, String.toUTF8_eq_toByteArray, ← String.utf8Encode_toList,
      List.utf8Encode, List.toList_data_toByteArray]
    rfl
  have hchars : ∀ cs : List Char, (∀ c ∈ cs, c.toNat < 128) →
      (cs.flatMap String.utf8EncodeChar).map (fun b => Char.ofNat b.toNat) = cs := by
    intro cs
    induction cs with
    | nil => simp
    | cons c rest ih =>
        intro hcs
        rw [List.flatMap_cons, List.map_append, map_utf8EncodeChar (hcs c List.mem_cons_self),
          ih fun d hd => hcs d (List.mem_cons_of_mem c hd)]
        rfl
  rw [bytesOf, hbytes, hchars s.toList hs]

/-- The characters from a place on. -/
def At (bytes : Array Char) (i : Nat) (rest : List Char) : Prop := bytes.toList.drop i = rest

variable {bytes : Array Char} {i : Nat} {c : Char} {front rest : List Char}

theorem at_zero (cs : List Char) : At cs.toArray 0 cs := rfl

/-- What was read stands before the rest. -/
theorem At.advance (h : At bytes i (front ++ rest)) : At bytes (i + front.length) rest := by
  unfold At at h ⊢
  rw [← List.drop_drop, h, List.drop_left]

theorem At.next (h : At bytes i (c :: rest)) : At bytes (i + 1) rest := by
  rw [← List.singleton_append] at h
  exact h.advance

theorem At.size_eq (h : At bytes i rest) (hi : i ≤ bytes.size) : bytes.size = i + rest.length := by
  unfold At at h
  have hlength := congrArg List.length h
  rw [List.length_drop, Array.length_toList] at hlength
  omega

theorem At.getElem? (h : At bytes i (c :: rest)) : bytes[i]? = some c := by
  unfold At at h
  have hhead := congrArg List.head? h
  rwa [List.head?_drop, List.head?_cons, Array.getElem?_toList] at hhead

theorem At.byteAt (h : At bytes i (c :: rest)) : Iso.byteAt bytes i = c := by
  simp [Iso.byteAt, Array.getD_eq_getD_getElem?, h.getElem?]

/-- Past the end stands the null character. -/
theorem At.byteAt_end (h : At bytes i []) : Iso.byteAt bytes i = Char.ofNat 0 := by
  unfold At at h
  have hlength := List.drop_eq_nil_iff.mp h
  rw [Array.length_toList] at hlength
  simp [Iso.byteAt, Array.getD_eq_getD_getElem?, Array.getElem?_eq_none hlength]

/-- The decimal digits of a number, exactly so many. -/
def decimals (width n : Nat) : List Char := (Text.fixedDigits 10 width n).map Nat.digitChar

@[simp] theorem length_decimals (width n : Nat) : (decimals width n).length = width := by
  simp [decimals]

/-- What holds of every decimal digit holds of the digits of a number. -/
theorem forall_mem_decimals {P : Char → Prop} (hdigit : ∀ d < 10, P d.digitChar) (width n : Nat) :
    ∀ c ∈ decimals width n, P c := by
  intro c hc
  obtain ⟨d, hd, rfl⟩ := List.mem_map.mp hc
  exact hdigit d (Text.lt_of_mem_fixedDigits (by decide) hd)

theorem decimals_succ (width n : Nat) :
    decimals (width + 1) n = decimals width (n / 10) ++ [(n % 10).digitChar] := by
  simp [decimals, Text.fixedDigits]

theorem At.past {width n : Nat} (h : At bytes i (decimals width n ++ rest)) : At bytes (i + width) rest := by
  simpa using h.advance

/-- The digits at a place are read as their number. -/
theorem At.number? {width n : Nat} (h : At bytes i (decimals width n ++ rest)) (hn : n < 10 ^ width) :
    Iso.number? bytes i width = some n := by
  induction width generalizing n rest with
  | zero =>
      have hzero : n = 0 := by simpa using hn
      rw [hzero]
      rfl
  | succ width ih =>
      rw [decimals_succ, List.append_assoc] at h
      have hdiv : n / 10 < 10 ^ width := by
        rw [Nat.div_lt_iff_lt_mul (by decide)]
        rwa [Nat.pow_succ] at hn
      have hbefore := ih h hdiv
      have hmod : n % 10 < 10 := Nat.mod_lt n (by decide)
      have hlast : Iso.byteAt bytes (i + width) = (n % 10).digitChar := h.past.byteAt
      have hvalue : 10 * (n / 10) + n % 10 = n := Nat.div_add_mod n 10
      rw [Iso.number?, hbefore]
      simp [hlast, Text.isDigit_digitChar hmod, Nat.toNat_digitChar_sub_48_of_lt_ten hmod, hvalue]

/-- Where digits stand, a digit stands first. -/
theorem At.isDigit {width n : Nat} (h : At bytes i (decimals (width + 1) n ++ rest)) :
    (Iso.byteAt bytes i).isDigit = true := by
  have hdigits : ∀ c ∈ decimals (width + 1) n, c.isDigit = true :=
    forall_mem_decimals (fun _ => Text.isDigit_digitChar) (width + 1) n
  rcases hcs : decimals (width + 1) n with _ | ⟨c, more⟩
  · have hlength := length_decimals (width + 1) n
    simp [hcs] at hlength
  · rw [hcs] at h
    rw [h.byteAt]
    exact hdigits c (by simp [hcs])

end Intake.Calendar.Iso
