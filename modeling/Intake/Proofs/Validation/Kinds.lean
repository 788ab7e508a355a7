import Intake.Proofs.Shape.Built
import Intake.Proofs.Validation.Safety

/-!
What fits a type is of the kind of the type. A scalar that fits is a scalar of the kind, whatever stood for it
in the document; a row that fits is a row, and its items come one by one from the items of a row.
-/

namespace Intake

open Shape Validation

variable {c : Catalogue} {record : String → Value → Fitted} {t : Ty} {v w : Value} {fitness : Fitness}

/-! ### Scalars -/

theorem isOfKind_of_ofScalar {kind : Kind} {outcome : Outcome} {r : Fit}
    (hscalar : ∀ {v fitness}, outcome = .ok (v, fitness) → IsOfKind kind v) (h : ofScalar outcome = .ok r) :
    IsOfKind kind r.value := by
  cases outcome with
  | ok found =>
      obtain rfl := Except.ok.inj h
      exact hscalar rfl
  | error problem => cases h

/-- What is found as a scalar is a scalar of the kind. -/
theorem isOfKind_of_found {α : Type} {kind : Kind} {wrap : α → Value} {found : Except Problem α} {how : Fitness}
    (hwrap : ∀ x, IsOfKind kind (wrap x)) (h : (do return (wrap (← found), how)) = (.ok (v, fitness) : Outcome)) :
    IsOfKind kind v := by
  cases found with
  | ok x =>
      obtain rfl := (Prod.mk.inj (Except.ok.inj h)).1
      exact hwrap x
  | error problem => cases h

theorem isOfKind_of_fitText (hw : w.IsData) (h : fitText w = .ok (v, fitness)) : IsOfKind .string v := by
  cases hw with
  | text s =>
      obtain rfl := (Prod.mk.inj (Except.ok.inj h)).1
      exact .text s
  | _ => cases h

theorem isOfKind_of_fitInt (hw : w.IsData) (h : fitInt w = .ok (v, fitness)) : IsOfKind .integer v := by
  cases hw with
  | int i | bool b =>
      obtain rfl := (Prod.mk.inj (Except.ok.inj h)).1
      exact .int _
  | float x => exact isOfKind_of_found .int h
  | text s =>
      simp only [fitInt, spelling?, Value.text?, ok_bind] at h
      exact isOfKind_of_found .int h
  | _ => cases h

theorem isOfKind_of_fitFloat (hw : w.IsData) (h : fitFloat w = .ok (v, fitness)) : IsOfKind .float v := by
  cases hw with
  | float x | bool b =>
      obtain rfl := (Prod.mk.inj (Except.ok.inj h)).1
      exact .float _
  | int i =>
      simp only [fitFloat] at h
      split at h
      · obtain rfl := (Prod.mk.inj (Except.ok.inj h)).1
        exact .float _
      · cases h
  | text s =>
      simp only [fitFloat, spelling?, Value.text?, ok_bind] at h
      exact isOfKind_of_found .float h
  | _ => cases h

theorem isOfKind_of_fitBool (hw : w.IsData) (h : fitBool w = .ok (v, fitness)) : IsOfKind .boolean v := by
  cases hw with
  | bool b =>
      obtain rfl := (Prod.mk.inj (Except.ok.inj h)).1
      exact .bool _
  | int i => exact isOfKind_of_found .bool h
  | float x =>
      simp only [fitBool] at h
      split at h
      · exact isOfKind_of_found .bool h
      · cases h
  | text s =>
      simp only [fitBool, spelling?, Value.text?, ok_bind] at h
      exact isOfKind_of_found .bool h
  | _ => cases h

theorem isOfKind_of_fitUuid (hw : w.IsData) (h : fitUuid w = .ok (v, fitness)) : IsOfKind .uuid v := by
  cases hw with
  | uuid u =>
      obtain rfl := (Prod.mk.inj (Except.ok.inj h)).1
      exact .uuid _
  | text s =>
      simp only [fitUuid] at h
      split at h
      · obtain rfl := (Prod.mk.inj (Except.ok.inj h)).1
        exact .uuid _
      · cases h
  | _ => cases h

theorem isOfKind_of_momentOf (hw : w.IsData) (h : momentOf w = .ok (v, fitness)) : IsOfKind .moment v := by
  cases hw with
  | moment m =>
      obtain rfl := (Prod.mk.inj (Except.ok.inj h)).1
      exact .moment _
  | int i =>
      simp only [momentOf] at h
      split at h
      · obtain rfl := (Prod.mk.inj (Except.ok.inj h)).1
        exact .moment _
      · cases h
  | float x =>
      simp only [momentOf] at h
      cases hparts : floorParts x with
      | error problem =>
          rw [hparts] at h
          cases h
      | ok parts =>
          rw [hparts, ok_bind] at h
          split at h
          · obtain rfl := (Prod.mk.inj (Except.ok.inj h)).1
            exact .moment _
          · cases h
  | text s =>
      simp only [momentOf, spelling?, Value.text?, ok_bind] at h
      split at h
      · obtain rfl := (Prod.mk.inj (Except.ok.inj h)).1
        exact .moment _
      · cases h
  | _ => cases h

theorem isOfKind_of_fitMoment (hw : w.IsData) (h : fitMoment w = .ok (v, fitness)) : IsOfKind .moment v := by
  unfold fitMoment at h
  split at h
  · rename_i found hfound
    obtain rfl := Except.ok.inj h
    exact isOfKind_of_momentOf hw hfound
  · split at h
    · split at h
      · obtain rfl := (Prod.mk.inj (Except.ok.inj h)).1
        exact .moment _
      · cases h
    · cases h

/-- The members of an enumeration are of the scalars that it says. -/
def Enumeration.IsSound (e : Enumeration) : Prop :=
  ∀ m ∈ e.members, match e.base with
    | .text => ∃ s, m.2 = .text s
    | .integer => ∃ i, m.2 = .int i
    | .plain => True

theorem mem_values_of_fitMember {e : Enumeration} (hw : w.IsData) (h : fitMember e w = .ok (v, fitness)) :
    v ∈ e.values := by
  have hfound : ∀ {p : Value → Bool} {m : Value} {how : Fitness}, e.values.find? p = some m →
      (Except.ok (m, how) : Outcome) = .ok (v, fitness) → v ∈ e.values := by
    rintro p m how hfind ⟨⟩
    exact List.mem_of_find?_eq_some hfind
  unfold fitMember at h
  dsimp only at h
  split at h
  · cases hw
  · split at h
    · split at h
      · split at h
        · exact hfound ‹_› h
        · cases h
      · cases h
    · split at h
      · split at h
        · exact hfound ‹_› h
        · cases h
      · cases h
    · split at h
      · exact hfound ‹_› h
      · cases h

theorem Enumeration.IsSound.isOfKind_of_mem {e : Enumeration} (he : e.IsSound) (hv : v ∈ e.values) :
    IsOfKind e.kind v := by
  obtain ⟨⟨name, value⟩, hm, rfl⟩ := List.mem_map.mp hv
  have hvalue := he _ hm
  unfold Enumeration.kind
  cases hbase : e.base with
  | text =>
      simp only [hbase] at hvalue
      obtain ⟨s, rfl⟩ := hvalue
      exact .textMember _ _ s
  | integer =>
      simp only [hbase] at hvalue
      obtain ⟨i, rfl⟩ := hvalue
      exact .intMember _ _ i
  | plain => exact .any _

/-! ### Rows -/

/-- The types of the items of a row. -/
def Ty.itemTypes : Ty → List Ty
  | .list item | .set _ item | .sequence item => [item]
  | .tuple items => items
  | _ => []

theorem Value.mem_of_mem_distinct {xs : List Value} {x : Value} (hx : x ∈ distinct xs) : x ∈ xs := by
  have hkept : ∀ (ys kept : List Value),
      x ∈ ys.foldl (fun kept y => if kept.any (same y) then kept else kept ++ [y]) kept → x ∈ kept ∨ x ∈ ys := by
    intro ys
    induction ys with
    | nil => exact fun kept h => .inl h
    | cons y rest ih =>
        intro kept h
        rw [List.foldl_cons] at h
        rcases ih _ h with hthere | hlater
        · split at hthere
          · exact .inl hthere
          · rcases List.mem_append.mp hthere with hbefore | hnew
            · exact .inl hbefore
            · exact .inr (List.mem_cons.mpr (.inl (List.mem_singleton.mp hnew)))
        · exact .inr (List.mem_cons_of_mem y hlater)
  exact (hkept xs [] hx).resolve_left List.not_mem_nil

theorem fitsAs_of_fitEach {most found index : Nat} {ts : List Ty} {ws : List Value} {fits : Fits}
    (h : fitEach c record most found index ts ws = .ok fits) :
    ∀ y ∈ fits.values, ∃ x ∈ ws, ∃ item ∈ ts, FitsAs c record item x y := by
  induction ts generalizing index ws fits with
  | nil =>
      cases ws with
      | nil =>
          simp only [fitEach] at h
          obtain rfl := Except.ok.inj h
          exact nofun
      | cons w rest => simp [fitEach] at h
  | cons t ts ih =>
      cases ws with
      | nil =>
          simp only [fitEach] at h
          split at h <;> cases h
      | cons w rest =>
          simp only [fitEach] at h
          obtain ⟨f, fs, hf, hfs, hvalues⟩ := consFit_eq_ok h
          intro y hy
          rw [hvalues] at hy
          rcases List.mem_cons.mp hy with rfl | hlater
          · exact ⟨w, List.mem_cons_self, t, List.mem_cons_self, f, hf, rfl⟩
          · obtain ⟨x, hx, item, hitem, hfits⟩ := ih hfs y hlater
            exact ⟨x, List.mem_cons_of_mem w hx, item, List.mem_cons_of_mem t hitem, hfits⟩

theorem fitsAs_of_fitItems {item : Ty} {ws : List Value} {fits : Fits}
    (h : fitItems (fit c record item) 0 ws = .ok fits) :
    ∀ y ∈ fits.values, ∃ x ∈ ws, FitsAs c record item x y :=
  exists_mem_of_forall₂ (forall₂_of_fitItems h)

theorem items_of_setFit {frozen : Bool} {fits : Fits} {r : Fit} (h : setFit frozen w fits = .ok r) :
    ∃ ys, r.value.items? = some ys ∧ ∀ y ∈ ys, y ∈ fits.values := by
  unfold setFit at h
  dsimp only at h
  split at h
  · cases h
  · obtain rfl := Except.ok.inj h
    exact ⟨_, rfl, fun y hy => Value.mem_of_mem_distinct hy⟩

/-- What fits the type of a row is a row, and its items come from items of a row, each by one of the types of the
items. -/
theorem row_of_fitsAs (hkind : c.kindOf t = .array) (h : FitsAs c record t w v) :
    ∃ xs ys, w.items? = some xs ∧ v.items? = some ys ∧
      (t.element? ≠ none → ∀ y ∈ ys, ∃ x ∈ xs, ∃ item ∈ t.itemTypes, FitsAs c record item x y) := by
  obtain ⟨r, hr, rfl⟩ := h
  cases t with
  | bareList | bareTuple =>
      simp only [fit] at hr
      split at hr
      · obtain ⟨fits, -, rfl⟩ := exists_of_map_eq_ok hr
        exact ⟨_, _, ‹_›, rfl, fun h => absurd rfl h⟩
      · cases hr
  | bareSet frozen =>
      simp only [fit] at hr
      split at hr
      · obtain ⟨fits, -, hset⟩ := exists_of_bind_eq_ok hr
        obtain ⟨ys, hys, -⟩ := items_of_setFit hset
        exact ⟨_, ys, ‹_›, hys, fun h => absurd rfl h⟩
      · cases hr
  | list item | sequence item =>
      simp only [fit] at hr
      split at hr
      · obtain ⟨fits, hfits, rfl⟩ := exists_of_map_eq_ok hr
        refine ⟨_, _, ‹_›, rfl, fun _ y hy => ?_⟩
        obtain ⟨x, hx, hfit⟩ := fitsAs_of_fitItems hfits y hy
        exact ⟨x, hx, item, List.mem_singleton_self item, hfit⟩
      · cases hr
  | set frozen item =>
      simp only [fit] at hr
      split at hr
      · obtain ⟨fits, hfits, hset⟩ := exists_of_bind_eq_ok hr
        obtain ⟨ys, hys, hmem⟩ := items_of_setFit hset
        refine ⟨_, ys, ‹_›, hys, fun _ y hy => ?_⟩
        obtain ⟨x, hx, hfit⟩ := fitsAs_of_fitItems hfits y (hmem y hy)
        exact ⟨x, hx, item, List.mem_singleton_self item, hfit⟩
      · cases hr
  | tuple items =>
      simp only [fit] at hr
      split at hr
      · obtain ⟨fits, hfits, rfl⟩ := exists_of_map_eq_ok hr
        exact ⟨_, _, ‹_›, rfl, fun _ => fitsAs_of_fitEach hfits⟩
      · cases hr
  | enumeration name => rcases Catalogue.kindOf_enumeration c name with h | h | h <;> rw [h] at hkind <;> cases hkind
  | _ => cases hkind

/-! ### Values of a kind -/

/-- The enumerations of a catalogue have members of the scalars that they say. -/
def Catalogue.HasSoundEnumerations (c : Catalogue) : Prop := ∀ e ∈ c.enumerations, e.IsSound

theorem isOfKind_of_fitsAs (hc : c.HasSoundEnumerations)
    (hrecord : ∀ name x r, record name x = .ok r → ∃ model attributes, r.value = .record model attributes)
    (hw : w.IsData) (h : FitsAs c record t w v) : IsOfKind (c.kindOf t) v := by
  have hwhole := h
  obtain ⟨r, hr, rfl⟩ := h
  cases t with
  | str => exact isOfKind_of_ofScalar (isOfKind_of_fitText hw) hr
  | int => exact isOfKind_of_ofScalar (isOfKind_of_fitInt hw) hr
  | float => exact isOfKind_of_ofScalar (isOfKind_of_fitFloat hw) hr
  | bool => exact isOfKind_of_ofScalar (isOfKind_of_fitBool hw) hr
  | moment => exact isOfKind_of_ofScalar (isOfKind_of_fitMoment hw) hr
  | uuid => exact isOfKind_of_ofScalar (isOfKind_of_fitUuid hw) hr
  | enumeration name =>
      cases hfind : c.enumeration? name with
      | none =>
          simp only [Catalogue.kindOf, hfind]
          exact .any _
      | some e =>
          have he : e.IsSound := hc e (List.mem_of_find?_eq_some hfind)
          simp only [fit, hfind] at hr
          simp only [Catalogue.kindOf, hfind]
          exact isOfKind_of_ofScalar (fun hmember => he.isOfKind_of_mem (mem_values_of_fitMember hw hmember)) hr
  | record name =>
      obtain ⟨model, attributes, hvalue⟩ := hrecord name w r hr
      rw [hvalue]
      exact .record model attributes
  | bareDict =>
      simp only [fit] at hr
      split at hr
      · obtain rfl := Except.ok.inj hr
        exact .map _
      · cases hr
  | dict key value =>
      simp only [fit] at hr
      split at hr
      · obtain ⟨found, -, rfl⟩ := exists_of_map_eq_ok hr
        exact .map _
      · cases hr
  | bareList | bareTuple | bareSet | list | set | tuple | sequence =>
      obtain ⟨xs, ys, -, hys, -⟩ := row_of_fitsAs rfl hwhole
      exact .row hys
  | _ => exact .any _

theorem isOfKindOrNull_of_fitsAs (hc : c.HasSoundEnumerations)
    (hrecord : ∀ name x r, record name x = .ok r → ∃ model attributes, r.value = .record model attributes)
    (hw : w.IsData) (h : FitsAs c record t w v) : IsOfKindOrNull (c.kindOf t.unwrap.1) v := by
  by_cases hnull : v.isNull = true
  · exact .inl hnull
  · exact .inr (isOfKind_of_fitsAs hc hrecord hw (h.unwrap (by simpa using hnull)))

end Intake
