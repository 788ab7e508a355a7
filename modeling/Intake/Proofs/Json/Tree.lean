import Intake.Proofs.Json.Text
import Intake.Proofs.Number.Integer
import Mathlib.Data.List.Nodup
import Mathlib.Data.List.Perm.Subperm
import Mathlib.Tactic.Choose

/-!
Documents of trees. A tree is put together of texts, integers, truth values and nothing by lists and by
dictionaries under texts. Its document says all about it but the order of the entries: two trees have one document
if and only if they are alike, as long as no halves of a character stand next to each other in a text.
-/

namespace Intake.Json

/-! ### Trees -/

/-- A text with codes that are allowed. As characters it has only codes of characters, and as codes some that
belong to none. -/
inductive IsText (allowed : List Nat → Prop) : Value → Prop where
  | whole {s : String} (hallowed : allowed (codesOf s)) : IsText allowed (.text s)
  | broken {codes : List Nat} (hcodes : ∀ n ∈ codes, n < 0x110000) (hbroken : codes.any Text.isSurrogate = true)
      (hallowed : allowed codes) : IsText allowed (.brokenText codes)

/-- A tree over texts with codes that are allowed. No two entries of a dictionary have one key. -/
inductive IsTree (allowed : List Nat → Prop) : Value → Prop where
  | null : IsTree allowed .null
  | bool (b : Bool) : IsTree allowed (.bool b)
  | int (i : Int) : IsTree allowed (.int i)
  | text {v : Value} (hv : IsText allowed v) : IsTree allowed v
  | list {xs : List Value} (hitems : ∀ x ∈ xs, IsTree allowed x) : IsTree allowed (.list xs)
  | dict {es : List (Value × Value)} (hkeys : ∀ e ∈ es, IsText allowed e.1) (hvalues : ∀ e ∈ es, IsTree allowed e.2)
      (honce : (es.map Prod.fst).Nodup) : IsTree allowed (.dict es)

/-- Whether a value is a list or a dictionary. -/
def isBranch : Value → Bool
  | .list _ | .dict _ => true
  | _ => false

/-- Whether two values have the same structure: the same scalar, alike items at each place, or alike entries under
the same keys. -/
inductive Alike : Value → Value → Prop where
  | scalar {v : Value} (hv : isBranch v = false) : Alike v v
  | list {xs ys : List Value} (hlength : xs.length = ys.length)
      (hitems : ∀ (i : Nat) (hx : i < xs.length) (hy : i < ys.length), Alike xs[i] ys[i]) : Alike (.list xs) (.list ys)
  | dict {es fs : List (Value × Value)} (partner : Value × Value → Value) (hlength : es.length = fs.length)
      (hin : ∀ e ∈ es, (e.1, partner e) ∈ fs) (hvalues : ∀ e ∈ es, Alike e.2 (partner e)) : Alike (.dict es) (.dict fs)

/-- The codes of a text. -/
def textCodes (v : Value) : List Nat := (textCodes? v).getD []

section texts

variable {allowed : List Nat → Prop} {v w : Value}

theorem IsText.allowed_textCodes (hv : IsText allowed v) : allowed (textCodes v) := by
  cases hv with
  | whole h => exact h
  | broken _ _ h => exact h

theorem toNat_lt (c : Char) : c.toNat < 0x110000 := by
  have hvalid := c.valid
  simp only [UInt32.isValidChar, Nat.isValidChar] at hvalid
  change c.val.toNat < _
  omega

theorem IsText.textCodes_lt (hv : IsText allowed v) : ∀ n ∈ textCodes v, n < 0x110000 := by
  cases hv with
  | whole _ =>
      intro n hn
      obtain ⟨c, -, rfl⟩ := List.mem_map.mp hn
      exact toNat_lt c
  | broken hcodes _ _ => exact hcodes

theorem textCodes?_eq (hv : IsText allowed v) : textCodes? v = some (textCodes v) := by
  cases hv <;> rfl

theorem keyCodes_eq (hv : IsText allowed v) : keyCodes v = .ok (textCodes v) := by
  cases hv <;> rfl

theorem size?_eq_none (hv : IsText allowed v) : v.size? = none := by
  cases hv <;> rfl

theorem isSurrogate_toNat (c : Char) : Text.isSurrogate c.toNat = false := by
  have hvalid := c.valid
  simp only [UInt32.isValidChar, Nat.isValidChar] at hvalid
  change Text.isSurrogate c.val.toNat = false
  simp only [Text.isSurrogate, Bool.and_eq_false_iff, decide_eq_false_iff_not]
  omega

/-- A text of characters has no code that belongs to none. -/
theorem any_isSurrogate_codesOf (s : String) : (codesOf s).any Text.isSurrogate = false := by
  simp [codesOf, isSurrogate_toNat]

/-- A text is determined by its codes. -/
theorem eq_of_textCodes_eq (hv : IsText allowed v) (hw : IsText allowed w) (hcodes : textCodes v = textCodes w) :
    v = w := by
  cases hv with
  | @whole s _ =>
      cases hw with
      | @whole t _ =>
          have hsame : s.toList = t.toList :=
            List.map_injective_iff.mpr (fun a b hab => Char.toNat_inj.mp hab) hcodes
          rw [String.toList_inj.mp hsame]
      | @broken codes _ hbroken _ =>
          have hnone := any_isSurrogate_codesOf s
          rw [show codesOf s = codes from hcodes, hbroken] at hnone
          cases hnone
  | @broken codes _ hbroken _ =>
      cases hw with
      | @whole t _ =>
          have hnone := any_isSurrogate_codesOf t
          rw [← show codes = codesOf t from hcodes, hbroken] at hnone
          cases hnone
      | broken _ _ _ => exact congrArg Value.brokenText hcodes

end texts

/-! ### Documents -/

/-- The document of a value that has one. -/
def document (v : Value) : String := (dump v).toOption.getD ""

/-- Whether an entry may stand before another, by the codes of their keys. -/
def mayPrecede (a b : Value × Value) : Bool := decide (textCodes a.1 ≤ textCodes b.1)

/-- The text of an entry. -/
def entryText (e : Value × Value) : String := quotedCodes (textCodes e.1) ++ ": " ++ document e.2

section dump

variable {allowed : List Nat → Prop} {v : Value} {xs : List Value} {es : List (Value × Value)}

theorem document_of_dump {s : String} (h : dump v = .ok s) : document v = s := by
  rw [document, h]
  rfl

theorem dump_text (hv : IsText allowed v) : dump v = .ok (quotedCodes (textCodes v)) := by
  cases hv <;> rw [dump] <;> rfl

theorem dumpItems_eq (h : ∀ x ∈ xs, dump x = .ok (document x)) : dumpItems xs = .ok (xs.map document) := by
  induction xs with
  | nil => rfl
  | cons x rest ih =>
      obtain ⟨hx, hrest⟩ := List.forall_mem_cons.mp h
      rw [dumpItems, hx, ih hrest]
      rfl

theorem dumpEntries_eq (h : ∀ e ∈ es, dump e.2 = .ok (document e.2)) :
    dumpEntries es = .ok (es.map fun e => (e.1, document e.2)) := by
  induction es with
  | nil => rfl
  | cons e rest ih =>
      obtain ⟨he, hrest⟩ := List.forall_mem_cons.mp h
      obtain ⟨k, v⟩ := e
      rw [dumpEntries, he, ih hrest]
      rfl

/-- Texts have an order. -/
theorem keyLt?_eq {k l : Value} (hk : IsText allowed k) (hl : IsText allowed l) :
    keyLt? k l = some (decide (textCodes k < textCodes l)) := by
  simp only [keyLt?, size?_eq_none hk, size?_eq_none hl, textCodes?_eq hk, textCodes?_eq hl]

theorem unordered?_eq_none {ts : List (Value × String)} (h : ∀ t ∈ ts, IsText allowed t.1) : unordered? ts = none := by
  induction ts with
  | nil => rfl
  | cons t rest ih =>
      obtain ⟨ht, hrest⟩ := List.forall_mem_cons.mp h
      cases rest with
      | nil => rfl
      | cons next rest =>
          obtain ⟨hnext, -⟩ := List.forall_mem_cons.mp hrest
          obtain ⟨k, s⟩ := t
          obtain ⟨l, r⟩ := next
          rw [unordered?, keyLt?_eq hnext ht]
          exact ih hrest

theorem dump_list (hitems : ∀ x ∈ xs, dump x = .ok (document x)) :
    dump (.list xs) = .ok ("[" ++ ", ".intercalate (xs.map document) ++ "]") := by
  rw [dump, dumpItems_eq hitems]
  rfl

/-- The entries of a dictionary stand in the order of their keys. -/
theorem dump_dict (hkeys : ∀ e ∈ es, IsText allowed e.1) (hvalues : ∀ e ∈ es, dump e.2 = .ok (document e.2)) :
    dump (.dict es) = .ok ("\x7b" ++ ", ".intercalate ((es.mergeSort mayPrecede).map entryText) ++ "\x7d") := by
  let dumped : Value × Value → Value × String := fun e => (e.1, document e.2)
  have hdumped : ∀ {fs : List (Value × Value)}, (∀ e ∈ fs, e ∈ es) → ∀ t ∈ fs.map dumped, IsText allowed t.1 := by
    intro fs hfs t ht
    obtain ⟨e, he, rfl⟩ := List.mem_map.mp ht
    exact hkeys e (hfs e he)
  have hsorted : sortEntries (es.map dumped) = .ok ((es.mergeSort mayPrecede).map dumped) := by
    rw [sortEntries, unordered?_eq_none (hdumped fun e he => he), List.map_mergeSort]
    intro a ha b hb
    rw [keyLt?_eq (hkeys b hb) (hkeys a ha), mayPrecede]
    by_cases hlt : textCodes b.1 < textCodes a.1
    · simp [hlt, not_le.mpr hlt]
    · simp [hlt, not_lt.mp hlt]
  have htexts : ((es.mergeSort mayPrecede).map dumped).mapM
      (fun (e : Value × String) => (do return quotedCodes (← keyCodes e.1) ++ ": " ++ e.2 : Except WriteFault String)) =
        .ok (((es.mergeSort mayPrecede).map dumped).map fun e => quotedCodes (textCodes e.1) ++ ": " ++ e.2) := by
    refine mapM_of_forall fun t ht => ?_
    rw [keyCodes_eq (hdumped (fun e he => (List.mergeSort_perm es mayPrecede).subset he) t ht)]
    rfl
  rw [List.map_map] at htexts
  rw [dump, dumpEntries_eq hvalues, ok_bind, hsorted, ok_bind]
  exact congrArg (· >>= _) htexts

/-- Trees have documents. -/
theorem dump_eq_ok (hv : IsTree allowed v) : dump v = .ok (document v) := by
  induction hv with
  | null | bool b | int i => rfl
  | text hv =>
      have hdump := dump_text hv
      rw [document_of_dump hdump, hdump]
  | list _ ih =>
      have hdump := dump_list ih
      rw [document_of_dump hdump, hdump]
  | dict hkeys _ _ ih =>
      have hdump := dump_dict hkeys ih
      rw [document_of_dump hdump, hdump]

end dump

/-! ### Trees that are alike -/

section alike

variable {allowed : List Nat → Prop} {v w : Value} {es fs : List (Value × Value)}

theorem isTree_list {xs : List Value} (h : IsTree allowed (.list xs)) : ∀ x ∈ xs, IsTree allowed x := by
  cases h with
  | text hv => cases hv
  | list hitems => exact hitems

theorem isTree_dict (h : IsTree allowed (.dict es)) :
    (∀ e ∈ es, IsText allowed e.1) ∧ (∀ e ∈ es, IsTree allowed e.2) ∧ (es.map Prod.fst).Nodup := by
  cases h with
  | text hv => cases hv
  | dict hkeys hvalues honce => exact ⟨hkeys, hvalues, honce⟩

/-- Entries under different texts have one order. -/
theorem mergeSort_eq_of_perm (hperm : es.Perm fs) (hkeys : ∀ e ∈ es, IsText allowed e.1)
    (honce : (es.map Prod.fst).Nodup) : es.mergeSort mayPrecede = fs.mergeSort mayPrecede := by
  have hsorted : ∀ gs : List (Value × Value), (gs.mergeSort mayPrecede).Pairwise fun a b => mayPrecede a b = true := by
    refine List.pairwise_mergeSort (fun a b c hab hbc => ?_) fun a b => ?_
    · simp only [mayPrecede, decide_eq_true_eq] at hab hbc ⊢
      exact le_trans hab hbc
    · simp only [mayPrecede, Bool.or_eq_true, decide_eq_true_eq]
      exact le_total _ _
  have hes := List.mergeSort_perm es mayPrecede
  have hfs := List.mergeSort_perm fs mayPrecede
  refine List.Perm.eq_of_pairwise (fun a b ha hb hab hba => ?_) (hsorted es) (hsorted fs)
    (hes.trans (hperm.trans hfs.symm))
  simp only [mayPrecede, decide_eq_true_eq] at hab hba
  have ha' := hes.subset ha
  have hb' := hperm.symm.subset (hfs.subset hb)
  exact List.inj_on_of_nodup_map honce ha' hb'
    (eq_of_textCodes_eq (hkeys a ha') (hkeys b hb') (le_antisymm hab hba))

/-- Trees that are alike have one document. -/
theorem document_eq_of_alike (h : Alike v w) (hv : IsTree allowed v) (hw : IsTree allowed w) :
    document v = document w := by
  induction h with
  | scalar hv => rfl
  | @list xs ys hlength hitems ih =>
      have hxs := isTree_list hv
      have hys := isTree_list hw
      have hsame : xs.map document = ys.map document := by
        refine List.ext_getElem (by simpa using hlength) fun i hx hy => ?_
        rw [List.length_map] at hx hy
        rw [List.getElem_map, List.getElem_map]
        exact ih i hx hy (hxs _ (List.getElem_mem hx)) (hys _ (List.getElem_mem hy))
      rw [document_of_dump (dump_list fun x hx => dump_eq_ok (hxs x hx)),
        document_of_dump (dump_list fun y hy => dump_eq_ok (hys y hy)), hsame]
  | @dict es fs partner hlength hin hvalues ih =>
      obtain ⟨hkeys, htrees, honce⟩ := isTree_dict hv
      obtain ⟨hkeys', htrees', -⟩ := isTree_dict hw
      -- Put for every value its partner, the entries of the one are those of the other.
      let put : Value × Value → Value × Value := fun e => (e.1, partner e)
      have hfirst : (es.map put).map Prod.fst = es.map Prod.fst := by
        rw [List.map_map]
        rfl
      have hperm : (es.map put).Perm fs := by
        have hnodup : (es.map put).Nodup := List.Nodup.of_map Prod.fst (by rwa [hfirst])
        refine (hnodup.subperm fun f hf => ?_).perm_of_length_le (by simp [hlength])
        obtain ⟨e, he, rfl⟩ := List.mem_map.mp hf
        exact hin e he
      have hsorted : fs.mergeSort mayPrecede = (es.mergeSort mayPrecede).map put := by
        rw [← mergeSort_eq_of_perm hperm (fun f hf => hkeys' f (hperm.subset hf)) (by rwa [hfirst]), List.map_mergeSort]
        exact fun a _ b _ => rfl
      have hentries : (es.mergeSort mayPrecede).map entryText = (fs.mergeSort mayPrecede).map entryText := by
        rw [hsorted, List.map_map]
        refine List.map_congr_left fun e he => ?_
        have he' := (List.mergeSort_perm es mayPrecede).subset he
        show entryText e = entryText (e.1, partner e)
        rw [entryText, entryText, ih e he' (htrees e he') (htrees' _ (hin e he'))]
      rw [document_of_dump (dump_dict hkeys fun e he => dump_eq_ok (htrees e he)),
        document_of_dump (dump_dict hkeys' fun f hf => dump_eq_ok (htrees' f hf)), hentries]

end alike

/-! ### Documents that are the same -/

/-- The characters of a document. -/
def chars (v : Value) : List Char := (document v).toList

/-- Whether no digit comes next, so that a number ends here. -/
def EndsNumber (rest : List Char) : Prop := ∀ c ∈ rest.head?, c.isDigit = false

/-- Pieces between commas. -/
def row (pieces : List (List Char)) : List Char := [',', ' '].intercalate pieces

section rows

variable {allowed : List Nat → Prop} {v : Value} {xs : List Value} {es : List (Value × Value)}

theorem chars_text (hv : IsText allowed v) : chars v = (quotedCodes (textCodes v)).toList := by
  rw [chars, document_of_dump (dump_text hv)]

theorem chars_list (hitems : ∀ x ∈ xs, IsTree allowed x) : chars (.list xs) = '[' :: (row (xs.map chars) ++ [']']) := by
  rw [chars, document_of_dump (dump_list fun x hx => dump_eq_ok (hitems x hx)), String.toList_append,
    String.toList_append, String.toList_intercalate, List.map_map]
  rfl

/-- The characters of an entry. -/
def entryChars (e : Value × Value) : List Char := (quotedCodes (textCodes e.1)).toList ++ ':' :: ' ' :: chars e.2

theorem chars_dict (hkeys : ∀ e ∈ es, IsText allowed e.1) (hvalues : ∀ e ∈ es, IsTree allowed e.2) :
    chars (.dict es) = '\x7b' :: (row ((es.mergeSort mayPrecede).map entryChars) ++ ['\x7d']) := by
  have hentry : ∀ e, (entryText e).toList = entryChars e := by
    intro e
    rw [entryText, String.toList_append, String.toList_append, List.append_assoc]
    rfl
  rw [chars, document_of_dump (dump_dict hkeys fun e he => dump_eq_ok (hvalues e he)), String.toList_append,
    String.toList_append, String.toList_intercalate, List.map_map]
  simp only [Function.comp_def, hentry]
  rfl

/-- What comes behind the first piece of a row. -/
theorem row_cons_append (x : List Char) (xs : List (List Char)) (rest : List Char) :
    row (x :: xs) ++ rest = x ++ match xs with
      | [] => rest
      | next :: more => ',' :: ' ' :: (row (next :: more) ++ rest) := by
  cases xs with
  | nil => simp [row]
  | cons next more => simp [row, List.intercalate_cons_cons]

/-- Rows that are closed alike have the same pieces, if no two of their pieces can be mistaken for each other and
none begins as a row is closed. -/
theorem row_append_inj {close : Char} {xs ys : List (List Char)} {rest rest' : List Char} (hcomma : close ≠ ',')
    (hclose : close.isDigit = false)
    (hpieces : ∀ x ∈ xs, ∀ y ∈ ys, ∀ r r', EndsNumber r → EndsNumber r' → x ++ r = y ++ r' → x = y ∧ r = r')
    (hxs : ∀ x ∈ xs, ∃ c more, x = c :: more ∧ c ≠ close) (hys : ∀ y ∈ ys, ∃ c more, y = c :: more ∧ c ≠ close)
    (h : row xs ++ close :: rest = row ys ++ close :: rest') : xs = ys ∧ rest = rest' := by
  induction xs generalizing ys with
  | nil =>
      cases ys with
      | nil => exact ⟨rfl, (List.cons.inj h).2⟩
      | cons y ys =>
          obtain ⟨c, more, rfl, hc⟩ := hys y List.mem_cons_self
          rw [row_cons_append] at h
          exact absurd (List.cons.inj h).1.symm hc
  | cons x xs ih =>
      cases ys with
      | nil =>
          obtain ⟨c, more, rfl, hc⟩ := hxs x List.mem_cons_self
          rw [row_cons_append] at h
          exact absurd (List.cons.inj h).1 hc
      | cons y ys =>
          have hends : ∀ (zs : List (List Char)) (r : List Char), EndsNumber (match zs with
              | [] => close :: r
              | next :: more => ',' :: ' ' :: (row (next :: more) ++ close :: r)) := by
            rintro (_ | ⟨z, zs⟩) r c hc
            · obtain rfl := Option.some.inj hc
              exact hclose
            · obtain rfl := Option.some.inj hc
              decide
          rw [row_cons_append, row_cons_append] at h
          obtain ⟨rfl, hbehind⟩ := hpieces x List.mem_cons_self y List.mem_cons_self _ _ (hends xs rest) (hends ys rest') h
          cases xs with
          | nil =>
              cases ys with
              | nil => exact ⟨rfl, (List.cons.inj hbehind).2⟩
              | cons _ _ => exact absurd (List.cons.inj hbehind).1 hcomma
          | cons z zs =>
              cases ys with
              | nil => exact absurd (List.cons.inj hbehind).1.symm hcomma
              | cons _ _ =>
                  obtain ⟨hsame, hrest⟩ := ih (fun a ha b hb => hpieces a (List.mem_cons_of_mem x ha) b
                      (List.mem_cons_of_mem x hb)) (fun a ha => hxs a (List.mem_cons_of_mem x ha))
                    (fun b hb => hys b (List.mem_cons_of_mem x hb)) (List.cons.inj (List.cons.inj hbehind).2).2
                  exact ⟨congrArg (x :: ·) hsame, hrest⟩

end rows

/-- The kind of a tree, as its first character tells it. -/
def treeKind : Value → Kind
  | .null => .any
  | .bool _ => .boolean
  | .int _ => .integer
  | .list _ => .array
  | .dict _ => .map
  | _ => .string

/-- The kind of the tree whose document begins with a character. -/
def kindOfFirst (c : Char) : Kind :=
  if c = 'n' then .any
  else if c = 't' ∨ c = 'f' then .boolean
  else if c = '\x22' then .string
  else if c = '[' then .array
  else if c = '\x7b' then .map
  else .integer

section same

variable {allowed : List Nat → Prop} {v w : Value}

theorem chars_int (i : Int) : chars (.int i) = (toString i).toList := rfl

/-- The first character of a document. -/
theorem exists_first (hv : IsTree allowed v) :
    ∃ c more, chars v = c :: more ∧ kindOfFirst c = treeKind v ∧ c ≠ ']' ∧ c ≠ '\x7d' := by
  cases hv with
  | null => exact ⟨'n', _, rfl, by decide⟩
  | bool b =>
      cases b
      · exact ⟨'f', _, rfl, by decide⟩
      · exact ⟨'t', _, rfl, by decide⟩
  | int i =>
      have hdigits : ∀ c ∈ Nat.toDigits 10 i.natAbs, kindOfFirst c = .integer ∧ c ≠ ']' ∧ c ≠ '\x7d' :=
        Text.forall_mem_toDigits (by decide) i.natAbs
      rw [chars_int, Number.toList_toString]
      split
      · exact ⟨'-', _, rfl, rfl, by decide, by decide⟩
      · obtain ⟨c, more, hc⟩ := List.exists_cons_of_ne_nil (Nat.toDigits_ne_nil (b := 10) (n := i.natAbs))
        exact ⟨c, more, hc, hdigits c (by rw [hc]; exact List.mem_cons_self)⟩
  | text hv =>
      have hkind : treeKind v = .string := by cases hv <;> rfl
      refine ⟨'\x22', _, (chars_text hv).trans (toList_quotedCodes _), ?_, by decide, by decide⟩
      rw [hkind]
      rfl
  | list hitems => exact ⟨'[', _, chars_list hitems, rfl, by decide, by decide⟩
  | dict hkeys hvalues _ => exact ⟨'\x7b', _, chars_dict hkeys hvalues, rfl, by decide, by decide⟩

/-- Characters that are all digits end where no digit follows. -/
theorem digits_append_inj {cs ds rest rest' : List Char} (hcs : ∀ c ∈ cs, c.isDigit = true)
    (hds : ∀ d ∈ ds, d.isDigit = true) (hrest : EndsNumber rest) (hrest' : EndsNumber rest')
    (h : cs ++ rest = ds ++ rest') : cs = ds ∧ rest = rest' := by
  have htake : ∀ {fs tail : List Char}, (∀ c ∈ fs, c.isDigit = true) → EndsNumber tail →
      (fs ++ tail).takeWhile Char.isDigit = fs := by
    intro fs tail hfs htail
    rw [List.takeWhile_append_of_pos hfs]
    cases tail with
    | nil => simp
    | cons c tail => simp [htail c rfl]
  have hsame : cs = ds := by rw [← htake hcs hrest, h, htake hds hrest']
  subst hsame
  exact ⟨rfl, List.append_cancel_left h⟩

/-- An integer ends where no digit follows. -/
theorem chars_int_append_inj {i k : Int} {rest rest' : List Char} (hrest : EndsNumber rest)
    (hrest' : EndsNumber rest') (h : chars (.int i) ++ rest = chars (.int k) ++ rest') : i = k ∧ rest = rest' := by
  have hdigits : ∀ n, ∀ c ∈ Nat.toDigits 10 n, c.isDigit = true := fun n c hc =>
    Nat.isDigit_of_mem_toDigits (by decide) (by decide) hc
  have hsize : ∀ {m n : Nat}, Nat.toDigits 10 m = Nat.toDigits 10 n → m = n := by
    intro m n hsame
    rw [← Shape.foldl_toDigits m, hsame, Shape.foldl_toDigits]
  have hsign : ∀ (n : Nat) (r r' : List Char), '-' :: r ≠ Nat.toDigits 10 n ++ r' := by
    intro n r r' hsame
    obtain ⟨c, more, hc⟩ := List.exists_cons_of_ne_nil (Nat.toDigits_ne_nil (b := 10) (n := n))
    have hdigit := hdigits n c (by rw [hc]; exact List.mem_cons_self)
    rw [hc] at hsame
    rw [← (List.cons.inj hsame).1] at hdigit
    cases hdigit
  rw [chars_int, chars_int, Number.toList_toString, Number.toList_toString] at h
  split at h <;> split at h
  · obtain ⟨hsame, hrest⟩ := digits_append_inj (hdigits _) (hdigits _) hrest hrest' (List.cons.inj h).2
    exact ⟨by have habs := hsize hsame; omega, hrest⟩
  · exact absurd h (hsign _ _ _)
  · exact absurd h.symm (hsign _ _ _)
  · obtain ⟨hsame, hrest⟩ := digits_append_inj (hdigits _) (hdigits _) hrest hrest' h
    exact ⟨by have habs := hsize hsame; omega, hrest⟩

theorem treeKind_of_isText (hv : IsText allowed v) : treeKind v = .string := by
  cases hv <;> rfl

theorem isBranch_of_isText (hv : IsText allowed v) : isBranch v = false := by
  cases hv <;> rfl

/-- Documents that go on differently, or not at all, begin with trees of one kind if they are the same. -/
theorem treeKind_eq {rest rest' : List Char} (hv : IsTree allowed v) (hw : IsTree allowed w)
    (h : chars v ++ rest = chars w ++ rest') : treeKind v = treeKind w := by
  obtain ⟨c, more, hc, hkind, -⟩ := exists_first hv
  obtain ⟨d, more', hd, hkind', -⟩ := exists_first hw
  rw [hc, hd] at h
  rw [← hkind, ← hkind', (List.cons.inj h).1]

end same

section apart

variable {v w : Value} {xs : List Value} {es : List (Value × Value)}

/-- Whether the document of a tree ends where it ends, and is the document of trees that are alike only. -/
def TellsApart (v : Value) : Prop :=
  ∀ (w : Value) (rest rest' : List Char), IsTree IsJoined w → EndsNumber rest → EndsNumber rest' →
    chars v ++ rest = chars w ++ rest' → Alike v w ∧ rest = rest'

theorem endsNumber_nil : EndsNumber [] := nofun

theorem tellsApart_text (hv : IsText IsJoined v) : TellsApart v := by
  intro w rest rest' hw _ _ h
  have hkind := treeKind_eq (.text hv) hw h
  rw [treeKind_of_isText hv] at hkind
  cases hw with
  | text hw =>
      rw [chars_text hv, chars_text hw] at h
      obtain ⟨hcodes, hrest⟩ :=
        quotedCodes_append_inj hv.textCodes_lt hv.allowed_textCodes hw.textCodes_lt hw.allowed_textCodes h
      obtain rfl := eq_of_textCodes_eq hv hw hcodes
      exact ⟨.scalar (isBranch_of_isText hv), hrest⟩
  | _ => cases hkind

theorem tellsApart_int (i : Int) : TellsApart (.int i) := by
  intro w rest rest' hw hrest hrest' h
  have hkind := treeKind_eq (.int i) hw h
  cases hw with
  | int k =>
      obtain ⟨rfl, hsame⟩ := chars_int_append_inj hrest hrest' h
      exact ⟨.scalar rfl, hsame⟩
  | text hw => cases hkind.trans (treeKind_of_isText hw)
  | _ => cases hkind

theorem tellsApart_null : TellsApart .null := by
  intro w rest rest' hw _ _ h
  have hkind := treeKind_eq .null hw h
  cases hw with
  | null => exact ⟨.scalar rfl, List.append_cancel_left h⟩
  | text hw => cases hkind.trans (treeKind_of_isText hw)
  | _ => cases hkind

theorem tellsApart_bool (b : Bool) : TellsApart (.bool b) := by
  intro w rest rest' hw _ _ h
  have hkind := treeKind_eq (.bool b) hw h
  cases hw with
  | bool d =>
      have hsame : b = d := by
        cases b <;> cases d
        · rfl
        · exact absurd (List.cons.inj h).1 (by decide)
        · exact absurd (List.cons.inj h).1 (by decide)
        · rfl
      subst hsame
      exact ⟨.scalar rfl, List.append_cancel_left h⟩
  | text hw => cases hkind.trans (treeKind_of_isText hw)
  | _ => cases hkind

/-- The documents of trees can be told apart in a row. -/
theorem eq_of_tellsApart (hv : TellsApart v) (hw : IsTree IsJoined w) {r r' : List Char} (hr : EndsNumber r)
    (hr' : EndsNumber r') (h : chars v ++ r = chars w ++ r') : chars v = chars w ∧ r = r' := by
  obtain ⟨-, rfl⟩ := hv w r r' hw hr hr' h
  exact ⟨List.append_cancel_right h, rfl⟩

theorem tellsApart_list (hxs : ∀ x ∈ xs, IsTree IsJoined x) (ih : ∀ x ∈ xs, TellsApart x) :
    TellsApart (.list xs) := by
  intro w rest rest' hw _ _ h
  have hkind := treeKind_eq (.list hxs) hw h
  cases hw with
  | @list ys hys =>
      have hfirst : ∀ zs : List Value, (∀ z ∈ zs, IsTree IsJoined z) →
          ∀ z ∈ zs.map chars, ∃ c more, z = c :: more ∧ c ≠ ']' := by
        intro zs hzs z hz
        obtain ⟨x, hx, rfl⟩ := List.mem_map.mp hz
        obtain ⟨c, more, hc, -, hclose, -⟩ := exists_first (hzs x hx)
        exact ⟨c, more, hc, hclose⟩
      rw [chars_list hxs, chars_list hys, List.cons_append, List.cons_append, List.append_assoc, List.append_assoc,
        List.singleton_append, List.singleton_append] at h
      obtain ⟨hsame, hrest⟩ := row_append_inj (by decide) (by decide) (fun a ha b hb r r' hr hr' hab => by
        obtain ⟨x, hx, rfl⟩ := List.mem_map.mp ha
        obtain ⟨y, hy, rfl⟩ := List.mem_map.mp hb
        exact eq_of_tellsApart (ih x hx) (hys y hy) hr hr' hab) (hfirst xs hxs) (hfirst ys hys) (List.cons.inj h).2
      have hlength : xs.length = ys.length := by simpa using congrArg List.length hsame
      refine ⟨.list hlength fun i hx hy => ?_, hrest⟩
      have hitem : chars xs[i] = chars ys[i] := by
        have hget := congrArg (·[i]?) hsame
        simpa [hx, hy] using hget
      exact (ih _ (List.getElem_mem hx) _ [] [] (hys _ (List.getElem_mem hy)) endsNumber_nil endsNumber_nil
        (by rw [hitem])).1
  | text hw => cases hkind.trans (treeKind_of_isText hw)
  | _ => cases hkind

/-- An entry is told apart by its key and by its value. -/
theorem of_entryChars_append {e f : Value × Value} (hkey : IsText IsJoined e.1) (hvalue : TellsApart e.2)
    (hkey' : IsText IsJoined f.1) (hvalue' : IsTree IsJoined f.2) {r r' : List Char} (hr : EndsNumber r)
    (hr' : EndsNumber r') (h : entryChars e ++ r = entryChars f ++ r') : e.1 = f.1 ∧ Alike e.2 f.2 ∧ r = r' := by
  rw [entryChars, entryChars, List.append_assoc, List.append_assoc] at h
  obtain ⟨hcodes, hbehind⟩ :=
    quotedCodes_append_inj hkey.textCodes_lt hkey.allowed_textCodes hkey'.textCodes_lt hkey'.allowed_textCodes h
  obtain ⟨halike, hrest⟩ := hvalue f.2 r r' hvalue' hr hr' (List.cons.inj (List.cons.inj hbehind).2).2
  exact ⟨eq_of_textCodes_eq hkey hkey' hcodes, halike, hrest⟩

theorem tellsApart_dict (hkeys : ∀ e ∈ es, IsText IsJoined e.1) (hvalues : ∀ e ∈ es, IsTree IsJoined e.2)
    (honce : (es.map Prod.fst).Nodup) (ih : ∀ e ∈ es, TellsApart e.2) : TellsApart (.dict es) := by
  intro w rest rest' hw _ _ h
  have hkind := treeKind_eq (.dict hkeys hvalues honce) hw h
  cases hw with
  | @dict fs hkeys' hvalues' _ =>
      have hes : ∀ {e}, e ∈ es.mergeSort mayPrecede → e ∈ es := fun he => (List.mergeSort_perm es mayPrecede).subset he
      have hfs : ∀ {f}, f ∈ fs.mergeSort mayPrecede → f ∈ fs := fun hf => (List.mergeSort_perm fs mayPrecede).subset hf
      have hfirst : ∀ gs : List (Value × Value), ∀ g ∈ gs.map entryChars, ∃ c more, g = c :: more ∧ c ≠ '\x7d' := by
        intro gs g hg
        obtain ⟨e, -, rfl⟩ := List.mem_map.mp hg
        exact ⟨'\x22', _, by rw [entryChars, toList_quotedCodes]; rfl, by decide⟩
      rw [chars_dict hkeys hvalues, chars_dict hkeys' hvalues', List.cons_append, List.cons_append, List.append_assoc,
        List.append_assoc, List.singleton_append, List.singleton_append] at h
      obtain ⟨hsame, hrest⟩ := row_append_inj (by decide) (by decide) (fun a ha b hb r r' hr hr' hab => by
        obtain ⟨e, he, rfl⟩ := List.mem_map.mp ha
        obtain ⟨f, hf, rfl⟩ := List.mem_map.mp hb
        obtain ⟨-, -, rfl⟩ := of_entryChars_append (hkeys e (hes he)) (ih e (hes he)) (hkeys' f (hfs hf))
          (hvalues' f (hfs hf)) hr hr' hab
        exact ⟨List.append_cancel_right hab, rfl⟩) (hfirst _) (hfirst _) (List.cons.inj h).2
      have hlength : es.length = fs.length := by simpa using congrArg List.length hsame
      -- Every entry stands in the other row too, with a value that is alike.
      have hpartner : ∀ e ∈ es, ∃ u, (e.1, u) ∈ fs ∧ Alike e.2 u := by
        intro e he
        have hmem : entryChars e ∈ (fs.mergeSort mayPrecede).map entryChars := by
          rw [← hsame]
          exact List.mem_map_of_mem ((List.mergeSort_perm es mayPrecede).symm.subset he)
        obtain ⟨f, hf, hentry⟩ := List.mem_map.mp hmem
        have hsole : entryChars e ++ [] = entryChars f ++ [] := by rw [hentry]
        obtain ⟨hkey, halike, -⟩ := of_entryChars_append (hkeys e he) (ih e he) (hkeys' f (hfs hf))
          (hvalues' f (hfs hf)) endsNumber_nil endsNumber_nil hsole
        exact ⟨f.2, by rw [hkey]; exact hfs hf, halike⟩
      choose! partner hin halike using hpartner
      exact ⟨.dict partner hlength hin halike, hrest⟩
  | text hw => cases hkind.trans (treeKind_of_isText hw)
  | _ => cases hkind

theorem tellsApart (hv : IsTree IsJoined v) : TellsApart v := by
  induction hv with
  | null => exact tellsApart_null
  | bool b => exact tellsApart_bool b
  | int i => exact tellsApart_int i
  | text hv => exact tellsApart_text hv
  | list hitems ih => exact tellsApart_list hitems ih
  | dict hkeys hvalues honce ih => exact tellsApart_dict hkeys hvalues honce ih

/-- Trees have one document exactly if they are alike. -/
theorem document_eq_iff_alike (hv : IsTree IsJoined v) (hw : IsTree IsJoined w) :
    document v = document w ↔ Alike v w := by
  constructor
  · intro h
    exact (tellsApart hv w [] [] hw endsNumber_nil endsNumber_nil (by rw [chars, h, ← chars])).1
  · intro h
    exact document_eq_of_alike h hv hw

end apart

end Intake.Json
