import Intake.Proofs.Binding.Keys
import Intake.Proofs.Model.Description
import Intake.Proofs.Scalar
import Intake.Proofs.Value.Entries
import Mathlib.Data.List.Nodup

/-!
The canonical form of a value: the names and texts by which a form writes it. A scalar is one text under
its key, an array one text for each item, and an entry of a map stands in brackets behind the key of
the map; the fields of a record stand behind its key. What a form offers under the keys of one field
is what the value of that field wrote.
-/

namespace Intake.Binding

variable {c : Catalogue}

/-- The fields of a model as they are described. -/
def descriptorsOf (c : Catalogue) (model : String) : List Descriptor :=
  match c.model? model with
  | some m => m.fields.map c.descriptorOf
  | none => []

mutual

/-- The names and texts that write a value under a key. -/
def pairsAt (c : Catalogue) (key : String) : Value → List (String × String)
  | .record model attributes => pairsOf c key (descriptorsOf c model) attributes
  | .list items => items.map fun v => (key, v.scalarText)
  | .dict entries => entries.map fun e => (key ++ "[" ++ e.1.scalarText ++ "]", e.2.scalarText)
  | v => [(key, v.scalarText)]

/-- The names and texts that write the fields of a record behind its key. -/
def pairsOf (c : Catalogue) (base : String) :
    List Descriptor → List (String × Value) → List (String × String)
  | d :: ds, (_, v) :: rest => pairsAt c (keyUnder base d.formName) v ++ pairsOf c base ds rest
  | _, _ => []

end

theorem pairsOf_map {fields : List Field} {describe : Field → Descriptor} {value : Field → Value} (base : String) :
    pairsOf c base (fields.map describe) (fields.map fun f => (f.name, value f)) =
      fields.flatMap fun f => pairsAt c (keyUnder base (describe f).formName) (value f) := by
  induction fields with
  | nil => simp [pairsOf]
  | cons f rest ih => simp [pairsOf, ih]

mutual

/-- A value is written under its key. -/
theorem under_of_mem_pairsAt {key : String} (hkey : key ≠ "") (v : Value) :
    ∀ p ∈ pairsAt c key v, Under key p.1 := by
  cases v with
  | record model attributes =>
      simp only [pairsAt]
      exact under_of_mem_pairsOf hkey (descriptorsOf c model) attributes
  | list items =>
      simp only [pairsAt, List.mem_map]
      rintro p ⟨v, -, rfl⟩
      exact under_refl key
  | dict entries =>
      simp only [pairsAt, List.mem_map]
      rintro p ⟨e, -, rfl⟩
      exact under_bracket key e.1.scalarText
  | _ =>
      simp only [pairsAt, List.mem_singleton]
      rintro p rfl
      exact under_refl key

theorem under_of_mem_pairsOf {base : String} (hbase : base ≠ "") (ds : List Descriptor)
    (attributes : List (String × Value)) : ∀ p ∈ pairsOf c base ds attributes, Under base p.1 := by
  cases attributes with
  | nil => simp [pairsOf]
  | cons a rest =>
      cases ds with
      | nil => simp [pairsOf]
      | cons d ds =>
          obtain ⟨name, v⟩ := a
          simp only [pairsOf, List.mem_append]
          rintro p (hfirst | hlater)
          · have hkey : keyUnder base d.formName ≠ "" := keyUnder_ne_empty (.inl hbase)
            exact (under_of_mem_pairsAt hkey v p hfirst).of_keyUnder hbase
          · exact under_of_mem_pairsOf hbase ds rest p hlater

end

/-- A form offers under a key what the given names and texts write there. -/
def Offer.Agrees (o : Offer) (pairs : List (String × String)) (key : String) : Prop :=
  o.values key = Request.valuesOf pairs key ∧ (key ∈ o.keys ↔ key ∈ pairs.map Prod.fst)

theorem valuesOf_eq_nil {pairs : List (String × String)} {key : String} (hnone : ∀ p ∈ pairs, p.1 ≠ key) :
    Request.valuesOf pairs key = [] := by
  rw [Request.valuesOf, List.filter_eq_nil_iff.mpr fun p hp => by simpa using hnone p hp, List.map_nil]

theorem valuesOf_append (xs ys : List (String × String)) (key : String) :
    Request.valuesOf (xs ++ ys) key = Request.valuesOf xs key ++ Request.valuesOf ys key := by
  simp [Request.valuesOf]

theorem valuesOf_flatMap {fields : List Field} {write : Field → List (String × String)} {f : Field}
    {key : String} (hnodup : fields.Nodup) (hf : f ∈ fields)
    (hother : ∀ g ∈ fields, g ≠ f → ∀ p ∈ write g, p.1 ≠ key) :
    Request.valuesOf (fields.flatMap write) key = Request.valuesOf (write f) key := by
  obtain ⟨before, after, hwhole, hothers⟩ : ∃ before after, fields.flatMap write = before ++ write f ++ after ∧
      ∀ p ∈ before ++ after, ∃ g ∈ fields, g ≠ f ∧ p ∈ write g := exists_flatMap_eq hnodup hf
  have hnone : ∀ p ∈ before ++ after, p.1 ≠ key := by
    intro p hp
    obtain ⟨g, hg, hne, hpg⟩ := hothers p hp
    exact hother g hg hne p hpg
  have hbefore := valuesOf_eq_nil fun p hp => hnone p (List.mem_append_left after hp)
  have hafter := valuesOf_eq_nil fun p hp => hnone p (List.mem_append_right before hp)
  rw [hwhole, valuesOf_append, valuesOf_append, hbefore, hafter, List.nil_append, List.append_nil]

/-- Where the key is that of one field only, what all fields write is what that field writes. -/
theorem agrees_of_flatMap {o : Offer} {fields : List Field} {write : Field → List (String × String)} {f : Field}
    {key : String} (hnodup : fields.Nodup) (hf : f ∈ fields)
    (hother : ∀ g ∈ fields, g ≠ f → ∀ p ∈ write g, p.1 ≠ key) (h : o.Agrees (fields.flatMap write) key) :
    o.Agrees (write f) key := by
  have hvalues := valuesOf_flatMap hnodup hf hother
  have hkeys : key ∈ (fields.flatMap write).map Prod.fst ↔ key ∈ (write f).map Prod.fst := by
    constructor
    · intro hkey
      obtain ⟨p, hp, rfl⟩ := List.mem_map.mp hkey
      obtain ⟨g, hg, hpg⟩ := List.mem_flatMap.mp hp
      by_cases hsame : g = f
      · rw [← hsame]
        exact List.mem_map_of_mem hpg
      · exact absurd rfl (hother g hg hsame p hpg)
    · intro hkey
      obtain ⟨p, hp, rfl⟩ := List.mem_map.mp hkey
      exact List.mem_map_of_mem (List.mem_flatMap.mpr ⟨f, hf, hp⟩)
  exact ⟨by rw [h.1, hvalues], by rw [h.2, hkeys]⟩

theorem pairsAt_of_isScalar {kind : Kind} {v : Value} (key : String) (hv : IsScalar kind v) :
    pairsAt c key v = [(key, v.scalarText)] := by
  cases hv <;> simp [pairsAt]

/-- Under the key of an array stand the texts of its items, in their order. -/
theorem valuesOf_pairsAt_list (key : String) (xs : List Value) :
    Request.valuesOf (pairsAt c key (.list xs)) key = xs.map Value.scalarText := by
  simp [pairsAt, Request.valuesOf, List.filter_map, Function.comp_def]

theorem pairsAt_dict (key : String) (es : List (String × Value)) :
    pairsAt c key (.dict (Value.textEntries es)) = es.map fun e => (key ++ "[" ++ e.1 ++ "]", e.2.scalarText) := by
  simp only [pairsAt, Value.textEntries, List.map_map]
  rfl

theorem bracket_inj {key entry entry' : String} (h : key ++ "[" ++ entry ++ "]" = key ++ "[" ++ entry' ++ "]") :
    entry = entry' := by
  have hfound : bracketed? key (key ++ "[" ++ entry ++ "]") = some entry' := by
    rw [h]
    exact bracketed?_eq_some_iff.mpr rfl
  rw [bracketed?_eq_some_iff.mpr rfl] at hfound
  exact Option.some.inj hfound

/-- The keys of a map, in brackets behind its own, are those that are written. -/
theorem mem_keys_pairsAt_dict (key entry : String) (es : List (String × Value)) :
    key ++ "[" ++ entry ++ "]" ∈ (pairsAt c key (.dict (Value.textEntries es))).map Prod.fst ↔
      entry ∈ es.map Prod.fst := by
  rw [pairsAt_dict, List.map_map]
  constructor
  · intro hentry
    obtain ⟨e, he, hsame⟩ := List.mem_map.mp hentry
    rw [← bracket_inj hsame]
    exact List.mem_map_of_mem he
  · intro hentry
    obtain ⟨e, he, rfl⟩ := List.mem_map.mp hentry
    exact List.mem_map.mpr ⟨e, he, rfl⟩

/-- Under the key of an entry stands the text of its value. -/
theorem valuesOf_pairsAt_dict (key : String) {es : List (String × Value)} (hkeys : (es.map Prod.fst).Nodup)
    {e : String × Value} (he : e ∈ es) :
    Request.valuesOf (pairsAt c key (.dict (Value.textEntries es))) (key ++ "[" ++ e.1 ++ "]") =
      [e.2.scalarText] := by
  rw [pairsAt_dict]
  induction es with
  | nil => simp at he
  | cons x rest ih =>
      rw [List.map_cons, List.nodup_cons] at hkeys
      have hsplit : Request.valuesOf ((x :: rest).map fun e => (key ++ "[" ++ e.1 ++ "]", e.2.scalarText))
          (key ++ "[" ++ e.1 ++ "]") =
          Request.valuesOf [(key ++ "[" ++ x.1 ++ "]", x.2.scalarText)] (key ++ "[" ++ e.1 ++ "]") ++
          Request.valuesOf (rest.map fun e => (key ++ "[" ++ e.1 ++ "]", e.2.scalarText))
            (key ++ "[" ++ e.1 ++ "]") := by
        rw [← valuesOf_append]
        rfl
      rw [hsplit]
      rcases List.mem_cons.mp he with rfl | hlater
      · have hnone : Request.valuesOf (rest.map fun e => (key ++ "[" ++ e.1 ++ "]", e.2.scalarText))
            (key ++ "[" ++ e.1 ++ "]") = [] := by
          apply valuesOf_eq_nil
          intro p hp hsame
          obtain ⟨y, hy, rfl⟩ := List.mem_map.mp hp
          exact hkeys.1 (bracket_inj hsame ▸ List.mem_map_of_mem hy)
        rw [hnone]
        simp [Request.valuesOf]
      · have hfirst : Request.valuesOf [(key ++ "[" ++ x.1 ++ "]", x.2.scalarText)]
            (key ++ "[" ++ e.1 ++ "]") = [] := by
          apply valuesOf_eq_nil
          intro p hp hsame
          rw [List.mem_singleton.mp hp] at hsame
          exact hkeys.1 (bracket_inj hsame ▸ List.mem_map_of_mem hlater)
        rw [hfirst, ih hkeys.2 hlater, List.nil_append]

end Intake.Binding
