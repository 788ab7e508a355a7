import Intake.Proofs.Outcome
import Intake.Validation.Predicate

/-!
Rules on values of their kind. On a value of the kind of its field no rule fails but for three reasons: a number
is too large to be counted in millionths, an expression cannot be read for another reason than its form, or an
item that has to be compared as a document has none.
-/

namespace Intake.Validation

variable {α β : Type}

/-- A value of a kind. -/
inductive IsOfKind : Kind → Value → Prop where
  | text (s : String) : IsOfKind .string (.text s)
  | textMember (enumeration name s : String) : IsOfKind .string (.member enumeration name .text (.text s))
  | int (i : Int) : IsOfKind .integer (.int i)
  | intMember (enumeration name : String) (i : Int) :
      IsOfKind .integer (.member enumeration name .integer (.int i))
  | float (x : Binary64) : IsOfKind .float (.float x)
  | bool (b : Bool) : IsOfKind .boolean (.bool b)
  | moment (m : Calendar.Moment) : IsOfKind .moment (.moment m)
  | uuid (u : Uuid) : IsOfKind .uuid (.uuid u)
  | row {v : Value} {xs : List Value} (hv : v.items? = some xs) : IsOfKind .array v
  | map (entries : List (Value × Value)) : IsOfKind .map (.dict entries)
  | record (name : String) (attributes : List (String × Value)) : IsOfKind .record (.record name attributes)
  | any (v : Value) : IsOfKind .any v

/-- A value of a kind, or nothing. -/
def IsOfKindOrNull (kind : Kind) (v : Value) : Prop := v.isNull = true ∨ IsOfKind kind v

/-- A value that a field may hold: nothing, or a value of its kind whose items are of the kind of its items. -/
structure Suits (d : Descriptor) (v : Value) : Prop where
  ofKind : IsOfKindOrNull d.kind v
  items : d.kind = .array → ∀ kind xs, d.elementKind = some kind → v.items? = some xs →
    ∀ x ∈ xs, IsOfKindOrNull kind x

/-! ### Rules on values of their kind -/

/-- A number that can be counted in millionths. -/
def IsCountable (x : Binary64) : Prop := ∃ n, truncate (x.scaleNat multipleScale) = .ok n

/-- A rule that does not fail on a value that is no collection. -/
def IsHarmlessFor (kind : Kind) (r : Rule) (v : Value) : Prop :=
  match kind with
  | .float => r.name = "multipleOf" →
      (∀ step, numberArgument r = .ok step → IsCountable step) ∧ ∀ x, v = .float x → IsCountable x
  | .string => r.name = "pattern" →
      ∀ pattern flaw, r.arg = some pattern → Pattern.compile .none pattern = .error flaw → flaw = .malformed
  | _ => True

/-- An item that can be compared with others. -/
def IsComparable (v : Value) : Prop := ∃ key, uniqueKey v = .ok key

/-- A rule that does not fail on the value of a field. -/
structure IsHarmless (d : Descriptor) (r : Rule) (v : Value) : Prop where
  whole : d.kind ≠ .array → IsHarmlessFor d.kind r v
  items : d.kind = .array → ∀ kind xs, d.elementKind = some kind → v.items? = some xs →
    ∀ x ∈ xs, IsHarmlessFor kind r x
  unique : d.kind = .array → r.name = "uniqueItems" → ∀ xs, v.items? = some xs → ∀ x ∈ xs, IsComparable x

/-- A verdict that is no failure. -/
def NoFault {α : Type} (x : Except Trouble α) : Prop := ∀ fault, x ≠ .error (.fault fault)

theorem noFault_ok (v : α) : NoFault (.ok v : Except Trouble α) := nofun

theorem noFault_argument (reason : String) : NoFault (.error (.argument reason) : Except Trouble α) := nofun

theorem NoFault.bind {x : Except Trouble α} {f : α → Except Trouble β} (hx : NoFault x)
    (hf : ∀ v, x = .ok v → NoFault (f v)) : NoFault (x >>= f) := by
  cases x with
  | ok v => exact hf v rfl
  | error trouble =>
      rintro fault ⟨⟩
      exact hx fault rfl

theorem noFault_lift {x : Except Fault α} {v : α} (hx : x = .ok v) : NoFault (lift x) := by
  rw [hx]
  exact noFault_ok v

theorem lift_eq_ok {x : Except Fault α} {v : α} (h : lift x = .ok v) : x = .ok v := by
  cases x with
  | ok w =>
      cases h
      rfl
  | error fault => cases h

theorem noFault_integerArgument (r : Rule) : NoFault (integerArgument r) := by
  unfold integerArgument
  split <;> exact nofun

theorem noFault_numberArgument (r : Rule) : NoFault (numberArgument r) := by
  unfold numberArgument
  split <;> exact nofun

theorem noFault_bounded (r : Rule) (f : Int → Verdict) (hf : ∀ bound, NoFault (f bound)) :
    NoFault (integerArgument r >>= f) :=
  (noFault_integerArgument r).bind fun bound _ => hf bound

theorem noFault_judgeInteger {v : Value} (hv : IsOfKind .integer v) (r : Rule) : NoFault (judgeInteger r v) := by
  have hinteger : ∃ i, integerOf v = .ok i := by
    cases hv with
    | int i => exact ⟨i, rfl⟩
    | intMember enumeration name i => exact ⟨i, rfl⟩
  obtain ⟨i, hi⟩ := hinteger
  unfold judgeInteger
  refine (noFault_lift hi).bind fun size _ => ?_
  dsimp only
  split
  · exact noFault_bounded r _ fun _ => noFault_ok _
  · exact noFault_bounded r _ fun _ => noFault_ok _
  · refine noFault_bounded r _ fun step => ?_
    split
    · exact noFault_argument _
    · exact noFault_ok _
  · exact noFault_ok _
  · exact noFault_ok _

/-- A number is judged without failure, if it and the step of its multiples can be counted in millionths. -/
theorem noFault_judgeNumber {v : Value} (hv : IsOfKind .float v) {r : Rule} (hr : IsHarmlessFor .float r v) :
    NoFault (judgeNumber r v) := by
  cases hv with
  | float x =>
      unfold judgeNumber
      refine (noFault_lift (rfl : numberOf (.float x) = .ok x)).bind fun number hnumber => ?_
      obtain rfl : x = number := Except.ok.inj (lift_eq_ok hnumber)
      dsimp only
      split
      · exact (noFault_numberArgument r).bind fun _ _ => noFault_ok _
      · exact (noFault_numberArgument r).bind fun _ _ => noFault_ok _
      · rename_i hname
        obtain ⟨hstep, hvalue⟩ := hr hname
        refine (noFault_numberArgument r).bind fun step hargument => ?_
        obtain ⟨scaled, hscaled⟩ := hstep step hargument
        obtain ⟨size, hsize⟩ := hvalue x rfl
        refine (noFault_lift hscaled).bind fun _ _ => ?_
        split
        · exact noFault_argument _
        · exact (noFault_lift hsize).bind fun _ _ => noFault_ok _
      · exact noFault_ok _
      · exact noFault_ok _

theorem noFault_judgePattern {r : Rule} {v : Value} (hr : IsHarmlessFor .string r v) (hname : r.name = "pattern")
    (s : String) : NoFault (judgePattern r s) := by
  unfold judgePattern
  split
  · exact noFault_argument _
  · rename_i pattern harg
    split
    · exact noFault_ok _
    · exact noFault_ok _
    · rename_i flaw hnot hflaw
      exact absurd (hr hname pattern flaw harg hflaw) hnot

/-- A text is judged without failure, if its expression can be read or is malformed. -/
theorem noFault_judgeText {v : Value} (hv : IsOfKind .string v) {r : Rule} (hr : IsHarmlessFor .string r v) :
    NoFault (judgeText r v) := by
  have htext : ∃ s, textOf v = .ok s ∧ length v = .ok s.length := by
    cases hv with
    | text s => exact ⟨s, rfl, rfl⟩
    | textMember enumeration name s => exact ⟨s, rfl, rfl⟩
  obtain ⟨s, hs, hlength⟩ := htext
  unfold judgeText
  split
  · exact (noFault_lift hlength).bind fun _ _ => noFault_bounded r _ fun _ => noFault_ok _
  · exact (noFault_lift hlength).bind fun _ _ => noFault_bounded r _ fun _ => noFault_ok _
  · rename_i hname
    split
    · exact noFault_argument _
    · exact (noFault_lift hs).bind fun _ _ => noFault_judgePattern hr hname _
  · exact (noFault_lift hs).bind fun _ _ => noFault_ok _
  · exact noFault_ok _
  · exact noFault_ok _

theorem noFault_judgeScalar {kind : Kind} {v : Value} (hv : IsOfKind kind v) {r : Rule}
    (hr : IsHarmlessFor kind r v) : NoFault (judgeScalar kind r v) := by
  unfold judgeScalar
  split
  · exact noFault_judgeInteger hv r
  · exact noFault_judgeNumber hv hr
  · exact noFault_judgeText hv hr
  · exact noFault_ok _

theorem noFault_judgeCount (r : Rule) (count : Nat) (noun : String) : NoFault (judgeCount r count noun) := by
  unfold judgeCount
  split
  · exact noFault_bounded r _ fun _ => noFault_ok _
  · exact noFault_bounded r _ fun _ => noFault_ok _
  · exact noFault_ok _

theorem noFault_judgeItems {kind : Kind} {r : Rule} {xs : List Value} (hxs : ∀ x ∈ xs, IsOfKindOrNull kind x)
    (hr : ∀ x ∈ xs, IsHarmlessFor kind r x) : NoFault (judgeItems kind r xs) := by
  induction xs with
  | nil => exact noFault_ok _
  | cons x rest ih =>
      have hrest := ih (fun y hy => hxs y (List.mem_cons_of_mem x hy)) fun y hy => hr y (List.mem_cons_of_mem x hy)
      rw [judgeItems]
      split
      · exact hrest
      · rename_i hnull
        have hx := (hxs x List.mem_cons_self).resolve_left hnull
        refine (noFault_judgeScalar hx (hr x List.mem_cons_self)).bind fun verdict _ => ?_
        split
        · exact noFault_ok _
        · exact hrest

theorem exists_allUnique {xs seen : List Value} (hxs : ∀ x ∈ xs, IsComparable x) :
    ∃ unique, allUnique seen xs = .ok unique := by
  induction xs generalizing seen with
  | nil => exact ⟨true, rfl⟩
  | cons x rest ih =>
      obtain ⟨key, hkey⟩ := hxs x List.mem_cons_self
      rw [allUnique, hkey, ok_bind]
      split
      · exact ⟨false, rfl⟩
      · exact ih fun y hy => hxs y (List.mem_cons_of_mem x hy)

theorem traverse?_of_items? {v : Value} {xs : List Value} (hv : v.items? = some xs) : v.traverse? = some xs := by
  cases v <;> first | exact hv | cases hv

theorem length_of_items? {v : Value} {xs : List Value} (hv : v.items? = some xs) : length v = .ok xs.length := by
  cases v <;> cases hv <;> rfl

/-- A rule is judged without failure on a value of the kind of its field. -/
theorem noFault_judge {d : Descriptor} {r : Rule} {v : Value} (hv : Suits d v) (hnull : v.isNull = false)
    (hr : IsHarmless d r v) : NoFault (judge d r v) := by
  have hkind := hv.ofKind.resolve_left (by simp [hnull])
  unfold judge
  split
  · rename_i harray
    rw [harray] at hkind
    cases hkind with
    | @row _ xs hxs =>
        have hitems : itemsOf v = .ok xs := by rw [itemsOf, traverse?_of_items? hxs]
        split
        · exact (noFault_lift (length_of_items? hxs)).bind fun count _ => noFault_judgeCount r count _
        · split
          · rename_i hname
            refine (noFault_lift hitems).bind fun items hfound => ?_
            obtain rfl : xs = items := Except.ok.inj (hitems.symm.trans (lift_eq_ok hfound))
            obtain ⟨unique, hunique⟩ := exists_allUnique (hr.unique harray (eq_of_beq hname) xs hxs)
            exact (noFault_lift hunique).bind fun _ _ => noFault_ok _
          · split
            · rename_i kind _ helement
              refine (noFault_lift hitems).bind fun items hfound => ?_
              obtain rfl : xs = items := Except.ok.inj (hitems.symm.trans (lift_eq_ok hfound))
              exact noFault_judgeItems (hv.items harray kind xs helement hxs) (hr.items harray kind xs helement hxs)
            · exact noFault_ok _
  · rename_i hmap
    rw [hmap] at hkind
    cases hkind with
    | map entries => exact (noFault_lift rfl).bind fun count _ => noFault_judgeCount r count _
  · rename_i hnot _
    exact noFault_judgeScalar hkind (hr.whole hnot)

end Intake.Validation
