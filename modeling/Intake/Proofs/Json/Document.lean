import Intake.Json.Reader
import Intake.Proofs.Outcome
import Intake.Proofs.Shape.Built

/-!
What is read of a document. A value that is read of bytes is one as it stands in documents: it is put together of
nothing, truth values, numbers, texts, rows and dictionaries alone.
-/

namespace Intake.Json

/-- Putting a value under a key adds that value and nothing else. -/
theorem isData_putEntry {k v : Value} {es : List (Value × Value)} (hv : v.IsData) (hes : ∀ e ∈ es, e.2.IsData) :
    ∀ e ∈ Value.putEntry k v es, e.2.IsData :=
  fun e he => (Value.forall_mem_putEntry (p := fun _ => True) trivial hv (fun e he => ⟨trivial, hes e he⟩) e he).2

theorem isData_textValue (codes : List Nat) : (textValue codes).IsData := by
  unfold textValue
  split
  · exact .brokenText codes
  · exact .text _

theorem isData_of_readWord? {codes rest : List Nat} {v : Value} (h : readWord? codes = some (v, rest)) : v.IsData := by
  obtain ⟨⟨word, value⟩, hword, hfound⟩ := List.exists_of_findSome?_eq_some h
  obtain ⟨after, -, hpair⟩ := Option.map_eq_some_iff.mp hfound
  obtain ⟨rfl, -⟩ := Prod.mk.inj hpair
  simp only [words, List.mem_cons, Prod.mk.injEq, List.not_mem_nil, or_false] at hword
  rcases hword with ⟨-, rfl⟩ | ⟨-, rfl⟩ | ⟨-, rfl⟩ | ⟨-, rfl⟩ | ⟨-, rfl⟩ | ⟨-, rfl⟩ <;> constructor

theorem isData_of_readNumber {whole codes rest : List Nat} {negative : Bool} {v : Value}
    (h : readNumber whole negative codes = .ok (v, rest)) : v.IsData := by
  unfold readNumber at h
  split at h
  · cases h
  · dsimp only at h
    split at h
    · obtain ⟨rfl, -⟩ := Prod.mk.inj (Except.ok.inj h)
      exact .float _
    · split at h
      · cases h
      · obtain ⟨rfl, -⟩ := Prod.mk.inj (Except.ok.inj h)
        exact .int _

/-- What is read with some fuel is data: a value, the entries of an object behind entries that are data, and the items
of an array. -/
structure ReadsData (fuel : Nat) : Prop where
  value : ∀ room codes v rest, readValue room fuel codes = .ok (v, rest) → v.IsData
  entries : ∀ room before codes es rest, (∀ e ∈ before, e.2.IsData) →
    readEntries room fuel before codes = .ok (es, rest) → ∀ e ∈ es, e.2.IsData
  items : ∀ room codes xs rest, readItems room fuel codes = .ok (xs, rest) → ∀ x ∈ xs, x.IsData

section reading

variable {fuel room : Nat} {codes rest : List Nat}

theorem ReadsData.value_succ (hinside : ReadsData fuel) {v : Value}
    (h : readValue room (fuel + 1) codes = .ok (v, rest)) : v.IsData := by
  rw [readValue.eq_def] at h
  dsimp only at h
  split at h
  · cases h
  · obtain ⟨text, -, h⟩ := exists_of_bind_eq_ok h
    obtain ⟨rfl, -⟩ := Prod.mk.inj (Except.ok.inj h)
    exact isData_textValue _
  · split at h
    · cases h
    · split at h
      · obtain ⟨rfl, -⟩ := Prod.mk.inj (Except.ok.inj h)
        exact .dict nofun
      · obtain ⟨⟨es, after⟩, hes, h⟩ := exists_of_bind_eq_ok h
        obtain ⟨rfl, -⟩ := Prod.mk.inj (Except.ok.inj h)
        exact .dict (hinside.entries _ [] _ es after nofun hes)
  · split at h
    · cases h
    · split at h
      · obtain ⟨rfl, -⟩ := Prod.mk.inj (Except.ok.inj h)
        exact .list nofun
      · obtain ⟨⟨xs, after⟩, hxs, h⟩ := exists_of_bind_eq_ok h
        obtain ⟨rfl, -⟩ := Prod.mk.inj (Except.ok.inj h)
        exact .list (hinside.items _ _ xs after hxs)
  · split at h
    · rename_i hfound
      rw [Except.ok.inj h] at hfound
      exact isData_of_readWord? hfound
    · split at h <;> exact isData_of_readNumber h

theorem ReadsData.entries_succ (hinside : ReadsData fuel) {before es : List (Value × Value)}
    (hbefore : ∀ e ∈ before, e.2.IsData) (h : readEntries room (fuel + 1) before codes = .ok (es, rest)) :
    ∀ e ∈ es, e.2.IsData := by
  rw [readEntries.eq_def] at h
  dsimp only at h
  split at h
  · obtain ⟨⟨key, afterKey⟩, -, h⟩ := exists_of_bind_eq_ok h
    dsimp only at h
    split at h
    · obtain ⟨⟨v, afterValue⟩, hv, h⟩ := exists_of_bind_eq_ok h
      have hmore := isData_putEntry (k := textValue key) (hinside.value _ _ v _ hv) hbefore
      dsimp only at h
      split at h
      · obtain ⟨rfl, -⟩ := Prod.mk.inj (Except.ok.inj h)
        exact hmore
      · exact hinside.entries _ _ _ es rest hmore h
      · cases h
    · cases h
  · cases h

theorem ReadsData.items_succ (hinside : ReadsData fuel) {xs : List Value}
    (h : readItems room (fuel + 1) codes = .ok (xs, rest)) : ∀ x ∈ xs, x.IsData := by
  rw [readItems] at h
  obtain ⟨⟨v, afterValue⟩, hv, h⟩ := exists_of_bind_eq_ok h
  have hfirst := hinside.value _ _ v _ hv
  dsimp only at h
  split at h
  · obtain ⟨rfl, -⟩ := Prod.mk.inj (Except.ok.inj h)
    exact List.forall_mem_singleton.mpr hfirst
  · obtain ⟨⟨others, after⟩, hothers, h⟩ := exists_of_bind_eq_ok h
    obtain ⟨rfl, -⟩ := Prod.mk.inj (Except.ok.inj h)
    exact List.forall_mem_cons.mpr ⟨hfirst, hinside.items _ _ others after hothers⟩
  · cases h

/-- What the reader finds at the beginning is data, with any fuel. -/
theorem readsData (fuel : Nat) : ReadsData fuel := by
  induction fuel with
  | zero => refine ⟨fun _ _ _ _ h => ?_, fun _ _ _ _ _ _ h => ?_, fun _ _ _ _ h => ?_⟩ <;> cases h
  | succ fuel ih =>
      exact ⟨fun _ _ _ _ => ih.value_succ, fun _ _ _ _ _ => ih.entries_succ, fun _ _ _ _ => ih.items_succ⟩

end reading

/-- A document that is read of bytes is data. -/
theorem isData_of_ofBytes {bytes : List UInt8} {v : Value} (h : ofBytes bytes = .ok v) : v.IsData := by
  obtain ⟨codes, -, h⟩ := exists_of_bind_eq_ok h
  cases hcodes : ofCodes codes with
  | error problem =>
      rw [hcodes] at h
      cases h
  | ok found =>
      rw [hcodes] at h
      obtain rfl := Except.ok.inj h
      obtain ⟨⟨v, rest⟩, hv, hrest⟩ := exists_of_bind_eq_ok hcodes
      dsimp only at hrest
      split at hrest
      · obtain rfl := Except.ok.inj hrest
        exact (readsData _).value _ _ _ _ hv
      · cases hrest

end Intake.Json
