import Intake.Binding.JsonTypes
import Intake.Proofs.Model.Instance
import Intake.Proofs.Model.MadeOf

/-!
Documents of the right types. A value of a document has the type that a field is declared with when it is
what the type writes, at every depth: rows hold items of the types of their items, maps values of the type
of their values, and records what their fields say. Such a document is found without fault as far as a
field's kind and that of its items say all about it: a row of rows, a map of maps, and a row whose items
have types of several kinds are looked at as if everything inside were of the kind of the first item.
-/

namespace Intake

/-- The types of the items of a row, or of the values of a map. -/
def Ty.parts : Ty → List Ty
  | .list item | .set _ item | .sequence item => [item]
  | .tuple items => items
  | .dict _ value => [value]
  | _ => []

namespace Binding

/-- A value of a document that has the type of its annotation. Nothing may stand everywhere, and anything
where the type says nothing. -/
inductive HasType (c : Catalogue) : Ty → Value → Prop where
  | null (t : Ty) : HasType c t .null
  | any {t : Ty} (v : Value) (ht : c.kindOf t.unwrap.1 = .any) : HasType c t v
  | text {t : Ty} (s : String)
      (ht : c.kindOf t.unwrap.1 = .string ∨ c.kindOf t.unwrap.1 = .moment ∨ c.kindOf t.unwrap.1 = .uuid) :
      HasType c t (.text s)
  | brokenText {t : Ty} (codes : List Nat)
      (ht : c.kindOf t.unwrap.1 = .string ∨ c.kindOf t.unwrap.1 = .moment ∨ c.kindOf t.unwrap.1 = .uuid) :
      HasType c t (.brokenText codes)
  | bool {t : Ty} (b : Bool) (ht : c.kindOf t.unwrap.1 = .boolean) : HasType c t (.bool b)
  | int {t : Ty} (i : Int) (ht : c.kindOf t.unwrap.1 = .integer ∨ c.kindOf t.unwrap.1 = .float) :
      HasType c t (.int i)
  | float {t : Ty} (x : Binary64) (ht : c.kindOf t.unwrap.1 = .float) : HasType c t (.float x)
  | bareRow {t : Ty} (xs : List Value) (ht : c.kindOf t.unwrap.1 = .array) (hparts : t.unwrap.1.parts = []) :
      HasType c t (.list xs)
  | row {t item : Ty} {xs : List Value}
      (ht : t.unwrap.1 = .list item ∨ (∃ frozen, t.unwrap.1 = .set frozen item) ∨ t.unwrap.1 = .sequence item)
      (hxs : ∀ x ∈ xs, HasType c item x) : HasType c t (.list xs)
  | tuple {t : Ty} {items : List Ty} {xs : List Value} (ht : t.unwrap.1 = .tuple items)
      (hlength : xs.length = items.length) (hxs : ∀ p ∈ items.zip xs, HasType c p.1 p.2) :
      HasType c t (.list xs)
  | bareMap {t : Ty} (es : List (Value × Value)) (ht : t.unwrap.1 = .bareDict) : HasType c t (.dict es)
  | map {t key value : Ty} {es : List (Value × Value)} (ht : t.unwrap.1 = .dict key value)
      (hes : ∀ e ∈ es, HasType c value e.2) : HasType c t (.dict es)
  | record {t : Ty} {name : String} {m : Model} {es : List (Value × Value)} (ht : t.unwrap.1 = .record name)
      (hm : c.model? name = some m)
      (hes : ∀ f ∈ m.fields, ∀ v, Value.lookupText (keyOf (c.descriptorOf f) es) es = some v →
        HasType c f.type v) : HasType c t (.dict es)

end Binding

/-- Whether everything of one kind in documents passes for another kind. -/
def Kind.covers (kind other : Kind) : Bool :=
  match kind with
  | .any => true
  | .float => other == .float || other == .integer
  | .string | .moment | .uuid => other == .string || other == .moment || other == .uuid
  | .map => other == .map || other == .record
  | kind => other == kind

namespace Catalogue

/-- Whether what has one type can be looked at as what is left of another; a record has to be of the same
model. -/
def covers (c : Catalogue) (t u : Ty) : Bool :=
  (c.kindOf t).covers (c.kindOf u.unwrap.1) && (c.kindOf t != .record || u.unwrap.1.recordName? == t.recordName?)

/-- Whether the kind of a field and that of its items say all about its type: no row is inside a row and no
map inside a map, and all items pass for the first. -/
def isShallow (c : Catalogue) (t : Ty) : Bool :=
  t.element?.all fun element => c.kindOf element != c.kindOf t && t.parts.all (c.covers element)

end Catalogue

namespace Binding

variable {c : Catalogue} {root : String}

/-- The models whose records may be looked at in a document of a model. -/
inductive LooksInto (c : Catalogue) (root : String) : Model → Prop where
  | root {m : Model} (hm : c.model? root = some m) : LooksInto c root m
  | field {m next : Model} {f : Field} {name : String} (hm : LooksInto c root m) (hf : f ∈ m.fields)
      (hname : (c.descriptorOf f).model = some name) (hnext : c.model? name = some next) : LooksInto c root next

theorem LooksInto.mem_models {m : Model} (h : LooksInto c root m) : m ∈ c.models := by
  cases h with
  | root hm => exact List.mem_of_find?_eq_some hm
  | field _ _ _ hnext => exact List.mem_of_find?_eq_some hnext

/-- A kind by which a field's check may look at what has a type: it covers the type, and if it is that of
records, the model is the one that the field knows. -/
structure Sees (c : Catalogue) (root : String) (d : Descriptor) (kind : Kind) (t : Ty) : Prop where
  covers : kind.covers (c.kindOf t.unwrap.1) = true
  record : kind = .record → ∃ name, t.unwrap.1 = .record name ∧ d.model = some name ∧
    ∀ m, c.model? name = some m → LooksInto c root m

/-- A look at what has a type, by the kind of a field or by that of its items. Only the first goes on to what
is inside, and there it is by the kind of the items. -/
structure Looks (c : Catalogue) (root : String) (d : Descriptor) (kind : Kind) (t : Ty) : Prop where
  sees : Sees c root d kind t
  own : kind = d.kind → c.kindOf t.unwrap.1 = d.kind ∧ d.elementKind = t.unwrap.1.element?.map c.kindOf
  inside : kind = d.kind → ∀ element, d.elementKind = some element →
    element ≠ d.kind ∧ ∀ u ∈ t.unwrap.1.parts, Sees c root d element u

/-- A value that is found without fault wherever it has the type that is looked for. -/
def IsAccepted (c : Catalogue) (root : String) (v : Value) : Prop :=
  ∀ (t : Ty) (d : Descriptor) (kind : Kind) (path : String), HasType c t v → Looks c root d kind t →
    check c v d kind path = .ok none

/-- What is looked at by the kind of items is not gone into. -/
theorem Sees.looks {d : Descriptor} {element : Kind} {u : Ty} (h : Sees c root d element u)
    (hother : element ≠ d.kind) : Looks c root d element u :=
  ⟨h, fun hsame => absurd hsame hother, fun hsame => absurd hsame hother⟩

theorem eq_any_of_covers_any {kind : Kind} (h : kind.covers .any = true) : kind = .any := by
  cases kind <;> first | rfl | cases h

theorem covers_self (kind : Kind) : kind.covers kind = true := by cases kind <;> rfl

/-- An integer is a number. -/
theorem hasJsonType_float_of_integer {v : Value} (h : hasJsonType .integer v = true) :
    hasJsonType .float v = true := by
  cases v with
  | member enumeration name base value =>
      cases hsize : (Value.member enumeration name base value).size? with
      | none => simp [hasJsonType, hsize] at h
      | some size => simp [hasJsonType, jsonType, hsize]
  | int i => rfl
  | bool b => cases h
  | _ => simp [hasJsonType, Value.size?] at h

/-- What has the type of a kind has that of a kind that covers it. -/
theorem hasJsonType_of_covers {kind other : Kind} {v : Value} (hcovers : kind.covers other = true)
    (hv : hasJsonType other v = true) : hasJsonType kind v = true := by
  cases kind with
  | any => rfl
  | float =>
      rcases Bool.or_eq_true_iff.mp hcovers with hsame | hinteger
      · rwa [eq_of_beq hsame] at hv
      · rw [eq_of_beq hinteger] at hv
        exact hasJsonType_float_of_integer hv
  | _ => cases other <;> first | exact hv | cases hcovers

/-- What has a type of which something is said has the type of its kind, or is nothing. -/
theorem HasType.hasJsonType {t : Ty} {v : Value} (h : HasType c t v) :
    v = .null ∨ c.kindOf t.unwrap.1 = .any ∨ hasJsonType (c.kindOf t.unwrap.1) v = true := by
  cases h with
  | null => exact .inl rfl
  | any v ht => exact .inr (.inl ht)
  | text s ht | brokenText codes ht =>
      refine .inr (.inr ?_)
      rcases ht with ht | ht | ht <;> rw [ht] <;> rfl
  | bool b ht | float x ht =>
      refine .inr (.inr ?_)
      rw [ht]
      rfl
  | int i ht =>
      refine .inr (.inr ?_)
      rcases ht with ht | ht <;> rw [ht] <;> rfl
  | bareRow xs ht =>
      refine .inr (.inr ?_)
      rw [ht]
      rfl
  | row ht =>
      refine .inr (.inr ?_)
      rcases ht with ht | ⟨frozen, ht⟩ | ht <;> rw [ht] <;> rfl
  | tuple ht | bareMap es ht | map ht | record ht =>
      refine .inr (.inr ?_)
      rw [ht]
      rfl

/-- A value that has a type is found without fault, if nothing is found inside. -/
theorem checkValue_eq_none {v : Value} {t : Ty} {inside : Check} {d : Descriptor} {kind : Kind} {path : String}
    (hv : HasType c t v) (hcovers : kind.covers (c.kindOf t.unwrap.1) = true)
    (hinside : kind ≠ .any → hasJsonType kind v = true → inside d kind path = .ok none) :
    checkValue v inside d kind path = .ok none := by
  rw [checkValue]
  by_cases hany : kind = .any
  · simp [hany]
  rcases hv.hasJsonType with rfl | ht | htype
  · rfl
  · rw [ht] at hcovers
    exact absurd (eq_any_of_covers_any hcovers) hany
  · have hfound := hasJsonType_of_covers hcovers htype
    simp [hany, hfound, hinside hany hfound]

/-- There is nothing to look at inside a leaf. -/
theorem check_of_leaf {v : Value} (hlist : ∀ xs, v ≠ .list xs) (hdict : ∀ es, v ≠ .dict es) :
    check c v = checkValue v fun _ _ _ => .ok none := by
  cases v with
  | list xs => exact absurd rfl (hlist xs)
  | dict es => exact absurd rfl (hdict es)
  | _ => rfl

/-- A leaf that has a type is found without fault. -/
theorem isAccepted_of_leaf {v : Value} (hlist : ∀ xs, v ≠ .list xs) (hdict : ∀ es, v ≠ .dict es) :
    IsAccepted c root v := by
  intro t d kind path hv hlooks
  rw [check_of_leaf hlist hdict]
  exact checkValue_eq_none hv hlooks.sees.covers fun _ _ => rfl

theorem checkItems_eq_none {d : Descriptor} {kind : Kind} {path : String} {xs : List Value} {index : Nat}
    (hxs : ∀ x ∈ xs, ∀ path, check c x d kind path = .ok none) : checkItems c d kind path index xs = .ok none := by
  induction xs generalizing index with
  | nil => rfl
  | cons x rest ih =>
      rw [checkItems, hxs x List.mem_cons_self]
      exact ih fun y hy => hxs y (List.mem_cons_of_mem x hy)

theorem checkMembers_eq_none {d : Descriptor} {kind : Kind} {path : String} {es : List (Value × Value)}
    (hes : ∀ e ∈ es, ∀ path, check c e.2 d kind path = .ok none) : checkMembers c d kind path es = .ok none := by
  induction es with
  | nil => rfl
  | cons e rest ih =>
      rw [checkMembers, hes e List.mem_cons_self]
      exact ih fun x hx => hes x (List.mem_cons_of_mem e hx)

/-- The check of the entry under a key is that of its value. -/
theorem lookupCheck_checkEntries (key : String) (es : List (Value × Value)) :
    lookupCheck key (checkEntries c es) = (Value.lookupText key es).map (check c) :=
  Value.find?_each rfl (fun _ _ _ => rfl) key es

theorem parts_ne_nil_of_element? {t element : Ty} (h : t.element? = some element) : t.parts ≠ [] := by
  cases t with
  | tuple items =>
      cases items with
      | nil => cases h
      | cons item rest => simp [Ty.parts]
  | list item | set frozen item | sequence item | dict key value => simp [Ty.parts]
  | _ => cases h

/-- An item of a row whose items have types has one of them. -/
theorem exists_part_of_row {t : Ty} {xs : List Value} {x : Value} (hv : HasType c t (.list xs))
    (hkind : c.kindOf t.unwrap.1 = .array) (hparts : t.unwrap.1.parts ≠ []) (hx : x ∈ xs) :
    ∃ u ∈ t.unwrap.1.parts, HasType c u x := by
  cases hv with
  | any v ht =>
      rw [ht] at hkind
      cases hkind
  | bareRow xs ht hnone => exact absurd hnone hparts
  | row ht hxs =>
      refine ⟨_, ?_, hxs x hx⟩
      rcases ht with ht | ⟨frozen, ht⟩ | ht <;> simp [ht, Ty.parts]
  | @tuple _ items _ ht hlength hxs =>
      obtain ⟨i, hi, rfl⟩ := List.getElem_of_mem hx
      have hpair : (items[i], xs[i]) ∈ items.zip xs := by
        have hzip : i < (items.zip xs).length := by
          rw [List.length_zip]
          omega
        rw [← List.getElem_zip (h := hzip)]
        exact List.getElem_mem hzip
      refine ⟨items[i], ?_, hxs _ hpair⟩
      rw [ht]
      exact List.getElem_mem _

/-- A value of a map whose values have a type has that type. -/
theorem exists_part_of_map {t : Ty} {es : List (Value × Value)} {e : Value × Value} (hv : HasType c t (.dict es))
    (hkind : c.kindOf t.unwrap.1 = .map) (hparts : t.unwrap.1.parts ≠ []) (he : e ∈ es) :
    ∃ u ∈ t.unwrap.1.parts, HasType c u e.2 := by
  cases hv with
  | any v ht | record ht =>
      rw [ht] at hkind
      cases hkind
  | bareMap es ht =>
      rw [ht] at hparts
      exact absurd rfl hparts
  | map ht hes =>
      refine ⟨_, ?_, hes e he⟩
      simp [ht, Ty.parts]

/-- Looking at what is inside something that has a type is looking at things that have types. -/
theorem Looks.of_inside {t : Ty} {d : Descriptor} {kind element : Kind} (h : Looks c root d kind t)
    (hkind : kind = d.kind) (helement : d.elementKind = some element) :
    t.unwrap.1.parts ≠ [] ∧ c.kindOf t.unwrap.1 = kind ∧ ∀ u ∈ t.unwrap.1.parts, Looks c root d element u := by
  obtain ⟨hown, htype⟩ := h.own hkind
  obtain ⟨hother, hsees⟩ := h.inside hkind element helement
  rw [helement] at htype
  obtain ⟨inner, hinner, -⟩ := Option.map_eq_some_iff.mp htype.symm
  exact ⟨parts_ne_nil_of_element? hinner, hown.trans hkind.symm, fun u hu => (hsees u hu).looks hother⟩

/-- A row of accepted items is accepted. -/
theorem isAccepted_list {xs : List Value} (hxs : ∀ x ∈ xs, IsAccepted c root x) : IsAccepted c root (.list xs) := by
  intro t d kind path hv hlooks
  rw [check]
  refine checkValue_eq_none hv hlooks.sees.covers fun hany hrow => ?_
  have harray : kind = .array := by cases kind <;> first | rfl | exact absurd rfl hany | cases hrow
  cases helement : d.elementKind with
  | none => rfl
  | some element =>
      by_cases hkind : kind = d.kind
      · obtain ⟨hparts, htype, hinside⟩ := hlooks.of_inside hkind helement
        simp only [beq_iff_eq, hkind, ↓reduceIte]
        apply checkItems_eq_none
        intro x hx path
        obtain ⟨u, hu, hxu⟩ := exists_part_of_row hv (htype.trans harray) hparts hx
        exact hxs x hx u d element path hxu (hinside u hu)
      · simp [hkind]

/-- The fields of a record are found without fault one by one. -/
theorem checkFields_eq_none {es : List (Value × Value)} {path : String} {fields : List Descriptor}
    (hes : ∀ d ∈ fields, ∀ v, Value.lookupText (keyOf d es) es = some v → ∀ path, check c v d d.kind path = .ok none) :
    checkFields es (checkEntries c es) path fields = .ok none := by
  induction fields with
  | nil => rfl
  | cons d rest ih =>
      have hrest := ih fun e he => hes e (List.mem_cons_of_mem d he)
      rw [checkFields, lookupCheck_checkEntries]
      cases hfound : Value.lookupText (keyOf d es) es with
      | none => exact hrest
      | some v =>
          simp only [Option.map_some, hes d List.mem_cons_self v hfound]
          exact hrest

/-- What a field's kind and that of its items say is all there is to say, in every model that is looked into. -/
def IsChecked (c : Catalogue) (root : String) : Prop :=
  ∀ m, LooksInto c root m → (∃ fields, c.describe m = .ok fields) ∧ ∀ f ∈ m.fields, c.isShallow f.type.unwrap.1 = true

/-- A field is looked at by its own kind. -/
theorem looks_of_field {m : Model} {f : Field} (hm : LooksInto c root m) (hf : f ∈ m.fields)
    (hd : c.describeField f = .ok (c.descriptorOf f)) (hshallow : c.isShallow f.type.unwrap.1 = true) :
    Looks c root (c.descriptorOf f) (c.descriptorOf f).kind f.type := by
  obtain ⟨hkind, helement⟩ := Catalogue.kinds_of_field hd
  have hmodel := Catalogue.model_of_describeField hd
  have hleads : ∀ name, (c.descriptorOf f).model = some name → ∀ m', c.model? name = some m' → LooksInto c root m' :=
    fun name hname m' hm' => .field hm hf hname hm'
  refine ⟨⟨?_, ?_⟩, fun _ => ⟨hkind.symm, helement⟩, ?_⟩
  · rw [hkind]
    exact covers_self _
  · intro hrecord
    rw [hkind] at hrecord
    obtain ⟨name, ht⟩ := Catalogue.exists_record_of_kindOf hrecord
    rw [ht] at hmodel
    exact ⟨name, ht, hmodel, hleads name hmodel⟩
  · rintro - element hfound
    rw [hfound] at helement
    obtain ⟨inner, hinner, rfl⟩ := Option.map_eq_some_iff.mp helement.symm
    rw [Catalogue.isShallow, hinner, Option.all_some, Bool.and_eq_true, bne_iff_ne, List.all_eq_true] at hshallow
    rw [hkind]
    refine ⟨hshallow.1, fun u hu => ?_⟩
    obtain ⟨hcovers, hname⟩ := Bool.and_eq_true_iff.mp (hshallow.2 u hu)
    refine ⟨hcovers, fun hrecord => ?_⟩
    obtain ⟨name, rfl⟩ := Catalogue.exists_record_of_kindOf hrecord
    have hsame : u.unwrap.1 = .record name := by
      apply Ty.eq_record_of_recordName?
      simpa [hrecord, Ty.recordName?] using hname
    have hcontainer : f.type.unwrap.1.recordName? = none := by
      cases ht : f.type.unwrap.1 with
      | record other =>
          rw [ht] at hinner
          cases hinner
      | _ => rfl
    rw [hcontainer, hinner] at hmodel
    exact ⟨name, hsame, hmodel, hleads name hmodel⟩

/-- A record whose fields have their types is found without fault, if its values are accepted. -/
theorem checkRecord_eq_none (hchecked : IsChecked c root) {name path : String} {es : List (Value × Value)}
    (hleads : ∀ m, c.model? name = some m → LooksInto c root m) (hv : HasType c (.record name) (.dict es))
    (hes : ∀ e ∈ es, IsAccepted c root e.2) : checkRecord c es (checkEntries c es) name path = .ok none := by
  rw [checkRecord]
  cases hv with
  | any v hnone => cases hnone
  | bareMap es hother | map hother => cases hother
  | @record _ name' m _ hname hm hfields =>
      obtain rfl : name = name' := Ty.record.inj hname
      obtain ⟨⟨fields, hdescribe⟩, hshallow⟩ := hchecked m (hleads m hm)
      obtain ⟨rfl, hdescribed⟩ := Catalogue.describe_eq_map hdescribe
      simp only [hm, Action.describe_eq_ok hdescribe, ok_bind]
      apply checkFields_eq_none
      intro d hd v hv path
      obtain ⟨f, hf, rfl⟩ := List.mem_map.mp hd
      obtain ⟨e, he, rfl⟩ := Option.map_eq_some_iff.mp hv
      have hlooks := looks_of_field (hleads m hm) hf (hdescribed f hf) (hshallow f hf)
      exact hes e (List.mem_of_find?_eq_some he) f.type _ _ path (hfields f hf e.2 hv) hlooks

theorem hasType_record_of_unwrap {t : Ty} {name : String} {es : List (Value × Value)}
    (ht : t.unwrap.1 = .record name) (hv : HasType c t (.dict es)) : HasType c (.record name) (.dict es) := by
  cases hv with
  | any v hnone =>
      rw [ht] at hnone
      cases hnone
  | bareMap es hother | map hother =>
      rw [ht] at hother
      cases hother
  | record hname hm hfields => exact .record (ht.symm.trans hname) hm hfields

/-- A dictionary of accepted values is accepted, be it a map or a record. -/
theorem isAccepted_dict (hchecked : IsChecked c root) {es : List (Value × Value)}
    (hes : ∀ e ∈ es, IsAccepted c root e.2) : IsAccepted c root (.dict es) := by
  intro t d kind path hv hlooks
  rw [check]
  refine checkValue_eq_none hv hlooks.sees.covers fun hany hdict => ?_
  have hkinds : kind = .map ∨ kind = .record := by
    cases kind <;> first | exact .inl rfl | exact .inr rfl | exact absurd rfl hany | cases hdict
  rcases hkinds with rfl | rfl
  · cases helement : d.elementKind with
    | none => cases d.model <;> rfl
    | some element =>
        by_cases hkind : Kind.map = d.kind
        · obtain ⟨hparts, htype, hinside⟩ := hlooks.of_inside hkind helement
          simp only [beq_iff_eq, hkind, ↓reduceIte]
          apply checkMembers_eq_none
          intro e he path
          obtain ⟨u, hu, heu⟩ := exists_part_of_map hv htype hparts he
          exact hes e he u d element path heu (hinside u hu)
        · simp [hkind]
  · obtain ⟨name, ht, hmodel, hleads⟩ := hlooks.sees.record rfl
    simp only [hmodel]
    exact checkRecord_eq_none hchecked hleads (hasType_record_of_unwrap ht hv) hes

/-- Every value is accepted where it has the type that is looked for. -/
theorem isAccepted (hchecked : IsChecked c root) (v : Value) : IsAccepted c root v := by
  induction v using Value.madeOf_induction with
  | step v hinside =>
      cases v with
      | list xs => exact isAccepted_list hinside
      | dict es => exact isAccepted_dict hchecked fun e he => hinside e.2 (Value.mem_madeOf_dict he)
      | _ => exact isAccepted_of_leaf (by simp) (by simp)

/-- A document in which everything has the type of its annotation is found without fault, if no model that is
looked into has a row of rows, a map of maps, or a row whose items do not pass for the first. -/
theorem jsonTypeMismatch_of_hasType {name path : String} {es : List (Value × Value)} (hchecked : IsChecked c name)
    (hes : HasType c (.record name) (.dict es)) : jsonTypeMismatch c name es path = .ok none :=
  checkRecord_eq_none hchecked (fun _ hm => .root hm) hes fun e _ => isAccepted hchecked e.2

/-- Trees of nodes with labels, marks and a pair whose items are both texts. -/
def treeCatalogue : Catalogue :=
  ⟨[plainModel "Node" [plainField "labels" (.list .str), plainField "marks" (.dict .str .float),
    plainField "pair" (.tuple [.str, .uuid]), plainField "note" .any,
    plainField "children" (.list (.record "Node"))]], []⟩

/-- A node with a child. -/
def tree : List (String × Value) :=
  [("labels", .list [.text "a", .null]),
   ("marks", .dict [(.text "x", .int 3), (.text "y", .float Binary64.zero)]),
   ("pair", .list [.text "b", .text "c"]),
   ("note", .list [.list [.int 1]]),
   ("children", .list [.dict (Value.textEntries [("note", .bool true)])])]

theorem isChecked_tree : IsChecked treeCatalogue "Node" := by
  intro m hm
  obtain rfl := List.mem_singleton.mp hm.mem_models
  exact ⟨⟨_, rfl⟩, by decide⟩

/-- A record of fields of which nothing is said has its type when each of them has what stands under its name. -/
theorem hasType_plain {name : String} {fields : List Field} {es : List (String × Value)}
    (hm : c.model? name = some (plainModel name fields))
    (hplain : ∀ f ∈ fields, f = plainField f.name f.type)
    (hes : ∀ f ∈ fields, ∀ v, es.lookup f.name = some v → HasType c f.type v) :
    HasType c (.record name) (.dict (Value.textEntries es)) := by
  refine .record rfl hm fun f hf v hv => hes f hf v ?_
  obtain ⟨hown, hwire, -⟩ := Catalogue.names_of_describeField (c := c) (f := f)
    (d := c.descriptorOf f) (by rw [hplain f hf]; rfl)
  have hname : f.wireName = f.name := by
    rw [hplain f hf]
    rfl
  rwa [keyOf, hwire, hown, hname, ite_self, Value.lookupText_textEntries] at hv

theorem hasType_tree : HasType treeCatalogue (.record "Node") (.dict (Value.textEntries tree)) := by
  refine hasType_plain rfl (by simp [plainField]) fun f hf v hv => ?_
  simp only [List.mem_cons, List.not_mem_nil, or_false] at hf
  rcases hf with rfl | rfl | rfl | rfl | rfl <;> cases hv
  · exact .row (.inl rfl) (List.forall_mem_cons.mpr ⟨.text _ (.inl rfl), List.forall_mem_singleton.mpr (.null _)⟩)
  · exact .map rfl (List.forall_mem_cons.mpr ⟨.int _ (.inr rfl), List.forall_mem_singleton.mpr (.float _ rfl)⟩)
  · exact .tuple rfl rfl (List.forall_mem_cons.mpr ⟨.text _ (.inl rfl),
      List.forall_mem_singleton.mpr (.text _ (.inr (.inr rfl)))⟩)
  · exact .any _ rfl
  · refine .row (.inl rfl) (List.forall_mem_singleton.mpr (hasType_plain rfl (by simp [plainField]) fun f hf v hv => ?_))
    simp only [List.mem_cons, List.not_mem_nil, or_false] at hf
    rcases hf with rfl | rfl | rfl | rfl | rfl <;> cases hv
    exact .any _ rfl

/-- A tree is found without fault. -/
theorem jsonTypeMismatch_of_hasType_tree :
    IsChecked treeCatalogue "Node" ∧ HasType treeCatalogue (.record "Node") (.dict (Value.textEntries tree)) ∧
      jsonTypeMismatch treeCatalogue "Node" (Value.textEntries tree) "" = .ok none :=
  ⟨isChecked_tree, hasType_tree, jsonTypeMismatch_of_hasType isChecked_tree hasType_tree⟩

/-- A grid, whose rows are rows of numbers. -/
def gridCatalogue : Catalogue := ⟨[plainModel "Grid" [plainField "rows" (.list (.list .int))]], []⟩

/-- The rows of a grid with one number. -/
def grid : List (String × Value) := [("rows", .list [.list [.int 1]])]

/-- A row of rows that has its type is refused: what is inside the inner row is looked at as a row, too. -/
theorem jsonTypeMismatch_fails_on_rows :
    HasType gridCatalogue (.record "Grid") (.dict (Value.textEntries grid)) ∧
      jsonTypeMismatch gridCatalogue "Grid" (Value.textEntries grid) "" =
        .ok (some "rows[0][0]: cannot decode JSON number into array") := by
  refine ⟨hasType_plain rfl (by simp [plainField]) fun f hf v hv => ?_, by decide +kernel⟩
  obtain rfl := List.mem_singleton.mp hf
  cases hv
  exact .row (.inl rfl) (List.forall_mem_singleton.mpr
    (.row (.inl rfl) (List.forall_mem_singleton.mpr (.int 1 (.inl rfl)))))

end Binding
end Intake
