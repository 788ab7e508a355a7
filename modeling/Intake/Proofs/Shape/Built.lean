import Intake.Proofs.Shape.Refusal

/-!
Records that are built from documents. Whatever stands in the document, in every field of a record that is
built stands what comes of something in the completed document, or the default of the field.
-/

namespace Intake

/-- A value as it stands in a document, or as a text is read: it has no tuples, sets, members of enumerations
or records inside it. -/
inductive Value.IsData : Value → Prop where
  | null : IsData .null
  | bool (b : Bool) : IsData (.bool b)
  | int (i : Int) : IsData (.int i)
  | float (x : Binary64) : IsData (.float x)
  | text (s : String) : IsData (.text s)
  | brokenText (codes : List Nat) : IsData (.brokenText codes)
  | moment (m : Calendar.Moment) : IsData (.moment m)
  | uuid (u : Uuid) : IsData (.uuid u)
  | list {xs : List Value} (hxs : ∀ x ∈ xs, IsData x) : IsData (.list xs)
  | dict {entries : List (Value × Value)} (hentries : ∀ e ∈ entries, IsData e.2) : IsData (.dict entries)

theorem Value.IsData.items {v : Value} {xs : List Value} (hv : v.IsData) (hxs : v.items? = some xs) :
    ∀ x ∈ xs, x.IsData := by
  cases hv with
  | list hitems =>
      obtain rfl := Option.some.inj hxs
      exact hitems
  | _ => cases hxs

theorem Value.IsData.entries {entries : List (Value × Value)} (hv : (Value.dict entries).IsData) :
    ∀ e ∈ entries, e.2.IsData := by
  cases hv with
  | dict hentries => exact hentries

/-- What a missing key stands for is something that stands in documents. -/
theorem Descriptor.isData_zero (d : Descriptor) : d.zero.IsData := by
  unfold zero
  split
  · exact .null
  · cases d.kind with
    | string => exact .text _
    | integer => exact .int _
    | float => exact .float _
    | boolean => exact .bool _
    | moment => exact .moment _
    | uuid => exact .uuid _
    | array => exact .list nofun
    | map => exact .dict nofun
    | record => exact .dict nofun
    | any => exact .null

theorem isData_withZeroValues {fields : List Descriptor} {entries : List (Value × Value)}
    (hentries : ∀ e ∈ entries, e.2.IsData) : ∀ e ∈ withZeroValues fields entries, e.2.IsData := by
  intro e he
  rw [Shape.withZeroValues_eq_append] at he
  rcases List.mem_append.mp he with hbefore | hzero
  · exact hentries e hbefore
  · obtain ⟨d, -, rfl⟩ := List.mem_map.mp hzero
    exact d.isData_zero

namespace Shape

variable {c : Catalogue} {record : String → Value → Fitted} {strictness : Strictness}
  {entries whole : List (Value × Value)} {m : Model} {f : Field}

theorem isData_completed (hentries : ∀ e ∈ entries, e.2.IsData) (hwhole : completed c m entries = .ok whole) :
    ∀ e ∈ whole, e.2.IsData := by
  unfold completed at hwhole
  split at hwhole
  · obtain rfl := Except.ok.inj hwhole
    exact hentries
  · split at hwhole
    · obtain rfl := Except.ok.inj hwhole
      exact isData_withZeroValues hentries
    · cases hwhole

/-- What a field of a record gets, if it gets something. -/
def settled (c : Catalogue) (record : String → Value → Fitted) (strictness : Strictness)
    (entries : List (Value × Value)) (f : Field) : Option Value :=
  match findField? strictness f entries with
  | some (_, w) => (fitField c record f w).toOption.map (·.value)
  | none => f.default.map Default.get

/-- Where the value of a field comes from: it is what the field takes of an entry, or it is the default. -/
def ComesFrom (c : Catalogue) (record : String → Value → Fitted) (entries : List (Value × Value)) (f : Field)
    (v : Value) : Prop :=
  (∃ e ∈ entries, Takes c record f e.2 v) ∨ ∃ d, f.default = some d ∧ d.get = v

theorem attributes_contribution (f : Field) :
    (contribution c record strictness entries f).attributes =
      ((settled c record strictness entries f).map (f.name, ·)).toList := by
  unfold contribution Filling.add settled
  cases findField? strictness f entries with
  | some found =>
      obtain ⟨key, w⟩ := found
      dsimp only
      cases fitField c record f w <;> rfl
  | none => cases f.default <;> rfl

theorem exists_mem_of_findField? {key : String} {w : Value}
    (hfind : findField? strictness f entries = some (key, w)) : ∃ e ∈ entries, e.2 = w := by
  obtain ⟨other, -, hkey⟩ := List.exists_of_findSome?_eq_some hfind
  obtain ⟨v, hv, hpair⟩ := Option.map_eq_some_iff.mp hkey
  obtain ⟨e, he, hvalue⟩ := Option.map_eq_some_iff.mp hv
  exact ⟨e, List.mem_of_find?_eq_some he, by rw [hvalue, (Prod.mk.inj hpair).2]⟩

/-- A field without faults gets a value, which comes from an entry or is the default. -/
theorem exists_settled (hrecord : ∀ name v, SaysWhy (record name v))
    (hfaults : (contribution c record strictness entries f).faults = []) :
    ∃ v, settled c record strictness entries f = some v ∧ ComesFrom c record entries f v := by
  cases hfind : findField? strictness f entries with
  | some found =>
      obtain ⟨key, w⟩ := found
      obtain ⟨v, fit, hfit, hv⟩ := (faults_eq_nil_iff_of_found hrecord hfind).mp hfaults
      obtain ⟨e, he, hw⟩ := exists_mem_of_findField? hfind
      refine ⟨v, ?_, .inl ⟨e, he, fit, ?_, hv⟩⟩
      · simp [settled, hfind, hfit, Except.toOption, hv]
      · rw [hw, hfit]
  | none =>
      cases hdefault : f.default with
      | some d => exact ⟨d.get, by simp [settled, hfind, hdefault], .inr ⟨d, hdefault, rfl⟩⟩
      | none => simp [contribution, Filling.add, hfind, hdefault] at hfaults

/-- A record of which every key must be known has no fault if no key is broken, its fields have none, and no key is
left over. -/
theorem strictFaults_eq_nil_iff {s : Filling} : strictFaults s entries = [] ↔
    (∀ e ∈ entries, isBrokenKey e.1 = false) ∧ s.faults = [] ∧ strayKeys s.used entries = [] := by
  rcases unbroken_or_exists entries with hkeys | ⟨e, he, hbroken⟩
  · rw [strictFaults_of_unbroken hkeys, List.append_eq_nil_iff]
    exact ⟨fun h => ⟨hkeys, h⟩, And.right⟩
  · rw [strictFaults_of_broken he hbroken]
    refine ⟨nofun, fun h => ?_⟩
    rw [h.1 e he] at hbroken
    cases hbroken

/-- A record that is filled has what its fields contribute, and none of them has a fault. -/
theorem contributions_of_fillRecord {r : Fit} (h : fillRecord c record m entries = .ok r) :
    r.value = .record m.name
        (m.fields.flatMap fun f => (contribution c record m.strictness entries f).attributes) ∧
      ∀ f ∈ m.fields, (contribution c record m.strictness entries f).faults = [] := by
  simp only [fillRecord, foldl_add_eq_contributions, List.nil_append] at h
  generalize hall : (m.fields.flatMap fun f => (contribution c record m.strictness entries f).faults) = faults at h
  have hnone : faults = [] ∧
      r.value = .record m.name
        (m.fields.flatMap fun f => (contribution c record m.strictness entries f).attributes) := by
    split at h
    · split at h
      · rename_i hempty
        obtain rfl := Except.ok.inj h
        exact ⟨(strictFaults_eq_nil_iff.mp (List.isEmpty_iff.mp hempty)).2.1, rfl⟩
      · cases h
    · split at h
      · rename_i hempty
        obtain rfl := Except.ok.inj h
        exact ⟨List.isEmpty_iff.mp hempty, rfl⟩
      · cases h
  refine ⟨hnone.2, ?_⟩
  rw [hnone.1] at hall
  exact List.flatMap_eq_nil_iff.mp hall

/-- No key is left over if each is used. -/
theorem strayKeys_eq_nil {used : List String} (h : ∀ e ∈ entries, ∃ key ∈ used, e.1 = .text key) :
    strayKeys used entries = [] := by
  apply List.filterMap_eq_nil_iff.mpr
  rintro ⟨k, v⟩ he
  obtain ⟨key, hkey, rfl⟩ := h _ he
  simp [Value.text?, hkey]

/-- A record that is filled as a strict one has no fault of its keys. -/
theorem strictFaults_of_fillRecord {r : Fit} (hstrict : m.strictness = .strict)
    (h : fillRecord c record m entries = .ok r) :
    strictFaults (m.fields.foldl (Filling.add c record m.strictness entries) ⟨[], [], []⟩) entries = [] := by
  unfold fillRecord at h
  generalize m.fields.foldl (Filling.add c record m.strictness entries) ⟨[], [], []⟩ = s at h ⊢
  rw [hstrict] at h
  dsimp only at h
  split at h
  · rename_i hempty
    exact List.isEmpty_iff.mp hempty
  · cases h

/-- A field contributes the same where it is found under the same key and the same comes of what stands there. -/
theorem contribution_congr {others : List (Value × Value)}
    (h : (findField? strictness f others).map (fun e => (e.1, (fitField c record f e.2).map Fit.value)) =
      (findField? strictness f entries).map fun e => (e.1, (fitField c record f e.2).map Fit.value)) :
    contribution c record strictness others f = contribution c record strictness entries f := by
  unfold contribution Filling.add
  cases hfound : findField? strictness f entries with
  | none =>
      rw [hfound, Option.map_none, Option.map_eq_none_iff] at h
      rw [h]
  | some e =>
      rw [hfound] at h
      obtain ⟨e', hother, hpair⟩ := Option.map_eq_some_iff.mp h
      obtain ⟨hkey, hfit⟩ := Prod.mk.inj hpair
      rw [hother]
      dsimp only
      rw [hkey]
      cases hown : fitField c record f e.2 <;> cases hnew : fitField c record f e'.2 <;> rw [hown, hnew] at hfit
      · rw [Except.error.inj hfit]
      · cases hfit
      · cases hfit
      · dsimp only
        rw [Except.ok.inj hfit]

/-- Fields that contribute the same one by one come to the same. -/
theorem foldl_add_congr {others : List (Value × Value)} {fs : List Field}
    (h : ∀ f ∈ fs, contribution c record strictness others f = contribution c record strictness entries f) :
    fs.foldl (Filling.add c record strictness others) ⟨[], [], []⟩ =
      fs.foldl (Filling.add c record strictness entries) ⟨[], [], []⟩ := by
  simp only [foldl_add_eq_contributions]
  rw [List.flatMap_congr fun f hf => congrArg Filling.attributes (h f hf),
    List.flatMap_congr fun f hf => congrArg Filling.faults (h f hf),
    List.flatMap_congr fun f hf => congrArg Filling.used (h f hf)]

/-- Where every field is found under the same key and fits in the same way, and no key is left over, a record is
filled in the same way. -/
theorem fillRecord_congr {others : List (Value × Value)} {r : Fit}
    (hsame : ∀ f ∈ m.fields, (findField? m.strictness f others).map (fun e => (e.1, fitField c record f e.2)) =
      (findField? m.strictness f entries).map fun e => (e.1, fitField c record f e.2))
    (hused : m.strictness = .strict → ∀ e ∈ others, ∃ f ∈ m.fields, ∃ key w, e.1 = .text key ∧
      findField? m.strictness f others = some (key, w))
    (h : fillRecord c record m entries = .ok r) : fillRecord c record m others = .ok r := by
  have hcontributions : ∀ f ∈ m.fields, contribution c record m.strictness others f =
      contribution c record m.strictness entries f := by
    intro f hf
    have hvalues := congrArg (Option.map fun e => (e.1, e.2.map Fit.value)) (hsame f hf)
    rw [Option.map_map, Option.map_map] at hvalues
    exact contribution_congr hvalues
  have hfilling := foldl_add_congr hcontributions
  have hfaults : m.strictness = .strict →
      strictFaults (m.fields.foldl (Filling.add c record m.strictness entries) ⟨[], [], []⟩) others =
        strictFaults (m.fields.foldl (Filling.add c record m.strictness entries) ⟨[], [], []⟩) entries := by
    intro hstrict
    have hnone := strictFaults_of_fillRecord hstrict h
    rw [hnone, strictFaults_eq_nil_iff]
    have hkeys : ∀ e ∈ others, ∃ key ∈ (m.fields.foldl (Filling.add c record m.strictness entries) ⟨[], [], []⟩).used,
        e.1 = .text key := by
      intro e he
      obtain ⟨f, hf, key, w, hkey, hfound⟩ := hused hstrict e he
      refine ⟨key, ?_, hkey⟩
      rw [← hfilling, foldl_add_eq_contributions]
      exact mem_used_contributions.mpr ⟨f, hf, w, hfound⟩
    refine ⟨fun e he => ?_, (strictFaults_eq_nil_iff.mp hnone).2.1, strayKeys_eq_nil hkeys⟩
    obtain ⟨key, -, hkey⟩ := hkeys e he
    rw [hkey, isBrokenKey]
    exact nofun
  unfold fillRecord at h ⊢
  rw [hfilling]
  cases hstrictness : m.strictness with
  | plain =>
      rw [hstrictness] at h
      exact h
  | strict =>
      rw [hstrictness] at h hfaults
      dsimp only at h ⊢
      rwa [hfaults rfl]

/-- In every field of a record that is filled stands a value that comes from an entry or is the default. -/
theorem attributes_of_fillRecord {r : Fit} (hrecord : ∀ name v, SaysWhy (record name v))
    (hnames : (m.fields.map Field.name).Nodup) (h : fillRecord c record m entries = .ok r) :
    ∃ attributes, r.value = .record m.name attributes ∧
      ∀ f ∈ m.fields, ∃ v, attributes.lookup f.name = some v ∧ ComesFrom c record entries f v := by
  obtain ⟨hvalue, hfaults⟩ := contributions_of_fillRecord h
  refine ⟨_, hvalue, fun f hf => ?_⟩
  obtain ⟨v, hv, hfrom⟩ := exists_settled hrecord (hfaults f hf)
  refine ⟨v, ?_, hfrom⟩
  simp only [attributes_contribution]
  rw [← List.filterMap_eq_flatMap_toList, lookup_filterMap hnames hf, hv]

/-- In every field of a record that is built stands a value that comes from an entry of the completed document
or is the default. -/
theorem attributes_of_fitRecord {fuel : Nat} {name : String} {r : Fit} (hm : c.model? name = some m)
    (hnames : (m.fields.map Field.name).Nodup) (h : fitRecord c (fuel + 1) name (.dict entries) = .ok r) :
    ∃ attributes whole, completed c m entries = .ok whole ∧ r.value = .record m.name attributes ∧
      ∀ f ∈ m.fields, ∃ v, attributes.lookup f.name = some v ∧ ComesFrom c (fitRecord c fuel) whole f v := by
  simp only [fitRecord, hm] at h
  cases hwhole : completed c m entries with
  | error problem =>
      rw [hwhole] at h
      cases h
  | ok whole =>
      rw [hwhole] at h
      obtain ⟨attributes, hvalue, hfields⟩ := attributes_of_fillRecord (saysWhy_fitRecord fuel) hnames h
      exact ⟨attributes, whole, rfl, hvalue, hfields⟩

end Shape
end Intake
