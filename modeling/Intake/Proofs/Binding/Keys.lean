import Intake.Binding.Strings
import Intake.Proofs.Outcome

/-!
Keys of forms. The key of a field stands behind that of the record around it, with a point between them;
what is inside the field stands under its key, behind a point or an opening bracket. Keys under
different names have nothing in common.
-/

namespace Intake.Text

/-- What is left behind a beginning. -/
theorem afterStart?_eq_some_iff {start cs rest : List Char} :
    afterStart? start cs = some rest ↔ cs = start ++ rest := by
  induction start generalizing cs with
  | nil => simp [afterStart?, eq_comm]
  | cons p ps ih =>
      cases cs with
      | nil => simp [afterStart?]
      | cons c more =>
          by_cases hsame : p = c
          · simp [afterStart?, hsame, ih]
          · have hother : c ≠ p := fun h => hsame h.symm
            simp [afterStart?, hsame, hother]

end Intake.Text

namespace Intake.Binding

/-- What may stand behind the key of a field: nothing, or something that is inside the field. -/
def IsInside (rest : List Char) : Prop := rest = [] ∨ ∃ more, rest = '.' :: more ∨ rest = '[' :: more

/-- A key of something inside the field of a key, or the key itself. -/
def Under (key inner : String) : Prop :=
  ∃ rest : List Char, inner.toList = key.toList ++ rest ∧ IsInside rest

/-- The characters that no name of a field in a form may have. -/
def isPlainName (name : String) : Bool :=
  !name.isEmpty && name.toList.all fun c => c != '.' && c != '[' && c != ']'

theorem under_refl (key : String) : Under key key := ⟨[], by simp, .inl rfl⟩

theorem under_bracket (key entry : String) : Under key (key ++ "[" ++ entry ++ "]") :=
  ⟨'[' :: (entry.toList ++ [']']), by simp, .inr ⟨_, .inr rfl⟩⟩

theorem keyUnder_ne_empty {base name : String} (h : base ≠ "" ∨ name ≠ "") : keyUnder base name ≠ "" := by
  rw [keyUnder]
  split
  · rename_i hbase
    rcases h with hbase' | hname
    · exact absurd (by simpa using hbase) hbase'
    · exact hname
  · intro hempty
    have hchars := congrArg String.toList hempty
    simp at hchars

/-- What is under a key inside a record is under the key of the record. -/
theorem Under.of_keyUnder {base name key : String} (hbase : base ≠ "") (h : Under (keyUnder base name) key) :
    Under base key := by
  obtain ⟨rest, hrest, -⟩ := h
  have hnotEmpty : base.isEmpty = false := by simpa using hbase
  refine ⟨'.' :: (name.toList ++ rest), ?_, .inr ⟨_, .inl rfl⟩⟩
  simpa [keyUnder, hnotEmpty] using hrest

/-- A name without points and brackets is told from what stands behind it. -/
theorem eq_of_append_eq_append {n n' rest rest' : List Char} (hn : ∀ c ∈ n, c ≠ '.' ∧ c ≠ '[')
    (hn' : ∀ c ∈ n', c ≠ '.' ∧ c ≠ '[') (hrest : IsInside rest) (hrest' : IsInside rest')
    (hsame : n ++ rest = n' ++ rest') : n = n' := by
  induction n generalizing n' with
  | nil =>
      cases n' with
      | nil => rfl
      | cons c more =>
          have hc := hn' c List.mem_cons_self
          rcases hrest with rfl | ⟨behind, rfl | rfl⟩ <;> simp at hsame
          · exact absurd hsame.1.symm hc.1
          · exact absurd hsame.1.symm hc.2
  | cons d ds ih =>
      cases n' with
      | nil =>
          have hd := hn d List.mem_cons_self
          rcases hrest' with rfl | ⟨behind, rfl | rfl⟩ <;> simp at hsame
          · exact absurd hsame.1 hd.1
          · exact absurd hsame.1 hd.2
      | cons c more =>
          obtain ⟨hhead, htail⟩ := List.cons.inj hsame
          rw [hhead, ih (fun x hx => hn x (List.mem_cons_of_mem d hx))
            (fun x hx => hn' x (List.mem_cons_of_mem c hx)) htail]

theorem forall_of_isPlainName {name : String} (hname : isPlainName name = true) :
    name ≠ "" ∧ ∀ c ∈ name.toList, c ≠ '.' ∧ c ≠ '[' := by
  simp only [isPlainName, Bool.and_eq_true, Bool.not_eq_true', List.all_eq_true, bne_iff_ne] at hname
  obtain ⟨hempty, hchars⟩ := hname
  refine ⟨by simpa using hempty, ?_⟩
  intro c hc
  exact (hchars c hc).1

/-- No key is under those of two fields. -/
theorem eq_of_under {base n n' key : String} (hn : isPlainName n = true) (hn' : isPlainName n' = true)
    (h : Under (keyUnder base n) key) (h' : Under (keyUnder base n') key) : n = n' := by
  obtain ⟨rest, hrest, hmark⟩ := h
  obtain ⟨rest', hrest', hmark'⟩ := h'
  have hsame : n.toList ++ rest = n'.toList ++ rest' := by
    rw [hrest] at hrest'
    unfold keyUnder at hrest'
    by_cases hbase : base.isEmpty
    · simpa [hbase] using hrest'
    · simpa [hbase] using hrest'
  have hlists := eq_of_append_eq_append (forall_of_isPlainName hn).2 (forall_of_isPlainName hn').2 hmark hmark' hsame
  exact String.toList_inj.mp hlists

/-- What stands in the brackets of a key is what was put there. -/
theorem bracketed?_eq_some_iff {name key entry : String} :
    bracketed? name key = some entry ↔ key = name ++ "[" ++ entry ++ "]" := by
  rw [bracketed?]
  constructor
  · intro hentry
    rcases hrest : Text.afterStart? (name ++ "[").toList key.toList with _ | rest
    · rw [hrest] at hentry
      cases hentry
    · rw [hrest] at hentry
      by_cases hlast : rest.getLast? = some ']'
      · have hinner : String.ofList rest.dropLast = entry := by simpa [hlast] using hentry
        have hwhole : rest = rest.dropLast ++ [']'] := by
          obtain ⟨front, hfront⟩ := List.getLast?_eq_some_iff.mp hlast
          rw [hfront, List.dropLast_concat]
        apply String.toList_inj.mp
        rw [Text.afterStart?_eq_some_iff.mp hrest, hwhole, ← hinner]
        simp
      · simp [hlast] at hentry
  · intro hkey
    have hrest : Text.afterStart? (name ++ "[").toList key.toList = some (entry.toList ++ [']']) := by
      rw [Text.afterStart?_eq_some_iff, hkey]
      simp
    rw [hrest]
    simp

end Intake.Binding
