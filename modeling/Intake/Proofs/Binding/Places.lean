import Intake.Proofs.Binding.Typing
import Intake.Proofs.Shape.Built

/-!
The places of a document: its fields, what is in their rows and maps, and the fields of the records there, each
with the type that is declared for it. A document in which nothing is found wrong has the very type of the kind
at each of its places, or nothing: no text stands for a number, nor a number for a text, a fraction for an
integer, or a truth value for either. What is found wrong is the first of the places where it is otherwise, and
the finding begins with the way to it.
-/

namespace Intake.Binding

variable {c : Catalogue} {root : String} {t : Ty} {v : Value} {d : Descriptor} {path : String}

/-- What stands in a document for a value of a kind. -/
def StandsFor : Kind → Value → Prop
  | .string, v | .moment, v | .uuid, v => (∃ s, v = .text s) ∨ ∃ codes, v = .brokenText codes
  | .boolean, v => ∃ b, v = .bool b
  | .integer, v => ∃ i, v = .int i
  | .float, v => (∃ i, v = .int i) ∨ ∃ x, v = .float x
  | .array, v => ∃ xs, v = .list xs
  | .map, v | .record, v => ∃ es, v = .dict es
  | .any, _ => True

/-- What is taken to be of a kind in a document is what stands for such a value. -/
theorem standsFor_iff {kind : Kind} (hv : v.IsData) : StandsFor kind v ↔ hasJsonType kind v = true := by
  cases hv <;> cases kind <;>
    simp [StandsFor, hasJsonType, jsonType, Value.size?, Value.text?, Value.typeName]

/-- A place of a document: the way to it, the type that is declared for it, and what stands there. -/
structure Place where
  path : String
  type : Ty
  value : Value

namespace Place

/-- The kind of what is declared for a place. -/
def kind (c : Catalogue) (p : Place) : Kind := c.kindOf p.type.unwrap.1

/-- At a place stands nothing, or what stands for a value of the kind. -/
def IsTyped (c : Catalogue) (p : Place) : Prop := p.value = .null ∨ StandsFor (p.kind c) p.value

/-- What is said of a place where it is otherwise. -/
def reason (c : Catalogue) (p : Place) : String :=
  p.path ++ ": cannot decode JSON " ++ jsonType p.value ++ " into " ++ (p.kind c).label

end Place

/-- How to tell the places of a value, of a type at the end of a way. -/
abbrev Places := Ty → String → List Place

/-- The places of a field of a record; it stands under the key for documents if that is there, and under its name
if not. -/
def placesOfField (c : Catalogue) (es : List (Value × Value)) (inside : List (Value × Places)) (path : String)
    (f : Field) : List Place :=
  match (inside.find? fun e => e.1.same (.text (keyOf (c.descriptorOf f) es))).map (·.2) with
  | none => []
  | some places => places f.type (path ++ f.wireName)

/-- The places of the fields of a record, in the order of their declaration. -/
def placesOfRecord (c : Catalogue) (es : List (Value × Value)) (inside : List (Value × Places))
    (name path : String) : List Place :=
  match c.model? name with
  | none => []
  | some m => m.fields.flatMap (placesOfField c es inside path)

mutual

/-- The places of a value of a type, its own first and then those inside, in the order of items and entries. -/
def placesOf (c : Catalogue) : Value → Ty → String → List Place
  | .list xs, t, path =>
    ⟨path, t, .list xs⟩ :: match c.kindOf t.unwrap.1, t.unwrap.1.parts with
      | .array, item :: _ => placesOfItems c item path 0 xs
      | _, _ => []
  | .dict es, t, path =>
    ⟨path, t, .dict es⟩ :: match t.unwrap.1 with
      | .record name => placesOfRecord c es (placesOfEach c es) name (path ++ ".")
      | .dict _ value => placesOfMembers c value path es
      | _ => []
  | v, t, path => [⟨path, t, v⟩]

def placesOfItems (c : Catalogue) (item : Ty) (path : String) : (index : Nat) → List Value → List Place
  | _, [] => []
  | index, x :: rest =>
    placesOf c x item (path ++ "[" ++ toString index ++ "]") ++ placesOfItems c item path (index + 1) rest

def placesOfMembers (c : Catalogue) (value : Ty) (path : String) : List (Value × Value) → List Place
  | [] => []
  | (k, v) :: rest =>
    placesOf c v value (path ++ "[" ++ k.display ++ "]") ++ placesOfMembers c value path rest

def placesOfEach (c : Catalogue) : List (Value × Value) → List (Value × Places)
  | [] => []
  | (k, v) :: rest => (k, placesOf c v) :: placesOfEach c rest

end

/-- The places of a document of a model. -/
def places (c : Catalogue) (name : String) (es : List (Value × Value)) (path : String) : List Place :=
  placesOfRecord c es (placesOfEach c es) name path

theorem placesOfField_eq {es : List (Value × Value)} (f : Field) :
    placesOfField c es (placesOfEach c es) path f =
      match Value.lookupText (keyOf (c.descriptorOf f) es) es with
      | none => []
      | some v => placesOf c v f.type (path ++ f.wireName) := by
  have hfound : ((placesOfEach c es).find? fun e => e.1.same (.text (keyOf (c.descriptorOf f) es))).map (·.2) =
      (Value.lookupText (keyOf (c.descriptorOf f) es) es).map (placesOf c) :=
    Value.find?_each rfl (fun _ _ _ => rfl) _ es
  rw [placesOfField, hfound]
  cases Value.lookupText (keyOf (c.descriptorOf f) es) es <;> rfl

/-- What is found among places: nothing, if all are well typed, and otherwise the first that is not. -/
def FirstAmong (c : Catalogue) (ps : List Place) : Option String → Prop
  | none => ∀ p ∈ ps, p.IsTyped c
  | some reason => ∃ before p after, ps = before ++ p :: after ∧ (∀ q ∈ before, q.IsTyped c) ∧
      ¬p.IsTyped c ∧ reason = p.reason c

/-- A check that, if it comes to something, finds what is to be found among places. -/
def FindsFirst (c : Catalogue) (finding : Finding) (ps : List Place) : Prop :=
  ∀ found, finding = .ok found → FirstAmong c ps found

theorem findsFirst_nil : FindsFirst c (.ok none) [] := by
  rintro found ⟨⟩
  exact nofun

theorem FirstAmong.append_left {ps : List Place} {reason : String} (h : FirstAmong c ps (some reason))
    (qs : List Place) : FirstAmong c (ps ++ qs) (some reason) := by
  obtain ⟨before, p, after, rfl, hbefore, hp, hreason⟩ := h
  exact ⟨before, p, after ++ qs, by simp, hbefore, hp, hreason⟩

theorem FirstAmong.append_right {ps qs : List Place} {found : Option String} (hqs : FirstAmong c qs found)
    (hps : ∀ p ∈ ps, p.IsTyped c) : FirstAmong c (ps ++ qs) found := by
  cases found with
  | none => exact List.forall_mem_append.mpr ⟨hps, hqs⟩
  | some reason =>
      obtain ⟨before, p, after, rfl, hbefore, hp, hreason⟩ := hqs
      exact ⟨ps ++ before, p, after, by simp, List.forall_mem_append.mpr ⟨hps, hbefore⟩, hp, hreason⟩

/-- The first finding of two is the first among the places of both. -/
theorem FindsFirst.orElse {first second : Finding} {ps qs : List Place} (hps : FindsFirst c first ps)
    (hqs : FindsFirst c second qs) : FindsFirst c (orElse first second) (ps ++ qs) := by
  intro found hfound
  cases first with
  | error fault => cases hfound
  | ok reason =>
      cases reason with
      | none => exact (hqs found hfound).append_right (hps none rfl)
      | some reason =>
          obtain rfl := Except.ok.inj hfound
          exact (hps _ rfl).append_left qs

/-- A value is looked at before what is inside it. -/
theorem findsFirst_checkValue {kind : Kind} {inside : Check} {ps : List Place} (hv : v.IsData)
    (hkind : kind = c.kindOf t.unwrap.1) (hnone : v = .null ∨ kind = .any → ps = [])
    (hinside : kind ≠ .any → hasJsonType kind v = true → FindsFirst c (inside d kind path) ps) :
    FindsFirst c (checkValue v inside d kind path) (⟨path, t, v⟩ :: ps) := by
  have hown : (Place.mk path t v).IsTyped c ↔ v = .null ∨ hasJsonType kind v = true := by
    rw [Place.IsTyped, Place.kind, ← hkind, standsFor_iff hv]
  have hnull : v.isNull = true ↔ v = .null := by cases v <;> simp [Value.isNull]
  intro found hfound
  rw [checkValue] at hfound
  split at hfound
  · rename_i hskipped
    obtain rfl := Except.ok.inj hfound
    rw [Bool.or_eq_true, hnull, beq_iff_eq] at hskipped
    rw [hnone hskipped, FirstAmong, List.forall_mem_singleton, hown]
    exact hskipped.imp_right fun hany => by rw [hany]; rfl
  · rename_i hlooked
    rw [Bool.or_eq_true, hnull, beq_iff_eq, not_or] at hlooked
    split at hfound
    · rename_i hwrong
      obtain rfl := Except.ok.inj hfound
      refine ⟨[], _, ps, rfl, List.forall_mem_nil _, ?_, ?_⟩
      · rw [hown, not_or]
        exact ⟨hlooked.1, ne_true_of_eq_false (by simpa using hwrong)⟩
      · rw [Place.reason, Place.kind, ← hkind]
    · rename_i hright
      have htyped : hasJsonType kind v = true := by simpa using hright
      have hfirst : ∀ p ∈ [Place.mk path t v], p.IsTyped c := List.forall_mem_singleton.mpr (hown.mpr (.inr htyped))
      exact (hinside hlooked.2 htyped found hfound).append_right hfirst

/-- Whether the items of a row or the values of a map all have one type, which is that of neither rows nor
maps. -/
def IsFlat (c : Catalogue) (t : Ty) : Prop :=
  ∀ u ∈ t.parts, t.element? = some u.unwrap.1 ∧ c.kindOf u.unwrap.1 ≠ .array ∧ c.kindOf u.unwrap.1 ≠ .map

/-- The type of items is that of the first. -/
theorem element?_eq (t : Ty) : t.element? = t.parts.head?.map fun u => u.unwrap.1 := by
  cases t with
  | tuple items => cases items <;> rfl
  | _ => rfl

/-- Only rows and maps have something inside of which a type is said. -/
theorem kindOf_of_mem_parts {u : Ty} (hu : u ∈ t.parts) : c.kindOf t = .array ∨ c.kindOf t = .map := by
  cases t with
  | list item | set frozen item | sequence item | tuple items => exact .inl rfl
  | dict key value => exact .inr rfl
  | _ => cases hu

/-- In a flat type a field's kind and that of its items say all there is to say. -/
theorem IsFlat.isShallow (h : IsFlat c t) : c.isShallow t = true := by
  rw [Catalogue.isShallow, Option.all_eq_true]
  intro element helement
  obtain ⟨u, hu, rfl⟩ := Option.map_eq_some_iff.mp ((element?_eq t).symm.trans helement)
  have hparts : u ∈ t.parts := List.mem_of_head? hu
  obtain ⟨-, harray, hmap⟩ := h u hparts
  rw [Bool.and_eq_true, bne_iff_ne, List.all_eq_true]
  constructor
  · rcases kindOf_of_mem_parts (c := c) hparts with hkind | hkind <;> rwa [hkind]
  · intro other hother
    have hsame : u.unwrap.1 = other.unwrap.1 := Option.some.inj (helement.symm.trans (h other hother).1)
    rw [Catalogue.covers, ← hsame, covers_self, beq_self_eq_true, Bool.or_true, Bool.and_true]

/-- In every model that is looked into, the items of rows and the values of maps are of one type, a scalar or a
record. -/
def IsFlatBelow (c : Catalogue) (root : String) : Prop :=
  ∀ m, LooksInto c root m → ∀ f ∈ m.fields, IsFlat c f.type.unwrap.1

/-- A look at what is of a type by the very kind of the type; rows and maps are looked at for their own field. -/
structure Reads (c : Catalogue) (root : String) (d : Descriptor) (kind : Kind) (t : Ty) : Prop where
  looks : Looks c root d kind t
  kind_eq : kind = c.kindOf t.unwrap.1
  own : kind = .array ∨ kind = .map → kind = d.kind ∧ IsFlat c t.unwrap.1

/-- What is inside a row or a map of a flat type is looked at by its own kind, too. -/
theorem Reads.inside {kind : Kind} (h : Reads c root d kind t) (hkind : kind = .array ∨ kind = .map) :
    (t.unwrap.1.parts = [] → d.elementKind = none) ∧ ∀ u ∈ t.unwrap.1.parts,
      d.elementKind = some (c.kindOf u.unwrap.1) ∧ Reads c root d (c.kindOf u.unwrap.1) u := by
  obtain ⟨hown, hflat⟩ := h.own hkind
  have helement := (h.looks.own hown).2
  constructor
  · intro hnone
    rw [helement, element?_eq, hnone]
    rfl
  · intro u hu
    obtain ⟨hone, harray, hmap⟩ := hflat u hu
    rw [hone] at helement
    have hlooks := (h.looks.of_inside hown helement).2.2 u hu
    exact ⟨helement, hlooks, rfl, fun hnested => absurd hnested (not_or.mpr ⟨harray, hmap⟩)⟩

/-- A field is looked at by its own kind. -/
theorem reads_of_field {m : Model} {f : Field} (hflat : IsFlatBelow c root) (hm : LooksInto c root m)
    (hf : f ∈ m.fields) (hd : c.describeField f = .ok (c.descriptorOf f)) :
    Reads c root (c.descriptorOf f) (c.descriptorOf f).kind f.type :=
  ⟨looks_of_field hm hf hd (hflat m hm f hf).isShallow, (Catalogue.kinds_of_field hd).1,
    fun _ => ⟨rfl, hflat m hm f hf⟩⟩

/-- A value of which the first place that is ill typed is found, whatever it is looked at as. -/
def IsSearched (c : Catalogue) (root : String) (v : Value) : Prop :=
  ∀ (t : Ty) (d : Descriptor) (kind : Kind) (path : String), v.IsData → Reads c root d kind t →
    FindsFirst c (check c v d kind path) (placesOf c v t path)

theorem isSearched_of_leaf (hlist : ∀ xs, v ≠ .list xs) (hdict : ∀ es, v ≠ .dict es) : IsSearched c root v := by
  intro t d kind path hv hreads
  have hplaces : placesOf c v t path = [⟨path, t, v⟩] := by
    cases v with
    | list xs => exact absurd rfl (hlist xs)
    | dict es => exact absurd rfl (hdict es)
    | _ => rfl
  rw [check_of_leaf hlist hdict, hplaces]
  exact findsFirst_checkValue hv hreads.kind_eq (fun _ => rfl) fun _ _ => findsFirst_nil

theorem findsFirst_checkItems {item : Ty} {kind : Kind} {xs : List Value} (hreads : Reads c root d kind item)
    (hxs : ∀ x ∈ xs, x.IsData ∧ IsSearched c root x) (index : Nat) :
    FindsFirst c (checkItems c d kind path index xs) (placesOfItems c item path index xs) := by
  induction xs generalizing index with
  | nil => exact findsFirst_nil
  | cons x rest ih =>
      obtain ⟨hdata, hx⟩ := hxs x List.mem_cons_self
      rw [checkItems, placesOfItems]
      exact (hx item d kind _ hdata hreads).orElse (ih (fun y hy => hxs y (List.mem_cons_of_mem x hy)) (index + 1))

theorem findsFirst_checkMembers {value : Ty} {kind : Kind} {es : List (Value × Value)}
    (hreads : Reads c root d kind value) (hes : ∀ e ∈ es, e.2.IsData ∧ IsSearched c root e.2) :
    FindsFirst c (checkMembers c d kind path es) (placesOfMembers c value path es) := by
  induction es with
  | nil => exact findsFirst_nil
  | cons e rest ih =>
      obtain ⟨hdata, he⟩ := hes e List.mem_cons_self
      rw [checkMembers, placesOfMembers]
      exact (he value d kind _ hdata hreads).orElse (ih fun x hx => hes x (List.mem_cons_of_mem e hx))

/-- Of a row of searched items the first place that is ill typed is found. -/
theorem isSearched_list {xs : List Value} (hxs : ∀ x ∈ xs, IsSearched c root x) : IsSearched c root (.list xs) := by
  intro t d kind path hv hreads
  have hitems : ∀ x ∈ xs, x.IsData ∧ IsSearched c root x := fun x hx => ⟨hv.items rfl x hx, hxs x hx⟩
  rw [check, placesOf, ← hreads.kind_eq]
  apply findsFirst_checkValue hv hreads.kind_eq
  · rintro (hnull | rfl)
    · cases hnull
    · rfl
  · intro hany hrow
    obtain rfl : kind = .array := by cases kind <;> first | rfl | exact absurd rfl hany | cases hrow
    obtain ⟨hbare, hinside⟩ := hreads.inside (.inl rfl)
    have hown := (hreads.own (.inl rfl)).1
    cases hparts : t.unwrap.1.parts with
    | nil =>
        rw [hbare hparts]
        exact findsFirst_nil
    | cons item rest =>
        obtain ⟨helement, hitem⟩ := hinside item (hparts ▸ List.mem_cons_self)
        simp only [helement, beq_iff_eq, hown, ↓reduceIte]
        exact findsFirst_checkItems hitem hitems 0

theorem findsFirst_checkFields {m : Model} {es : List (Value × Value)} {fields : List Field}
    (hflat : IsFlatBelow c root) (hm : LooksInto c root m) (hes : ∀ e ∈ es, e.2.IsData ∧ IsSearched c root e.2)
    (hfields : ∀ f ∈ fields, f ∈ m.fields ∧ c.describeField f = .ok (c.descriptorOf f)) :
    FindsFirst c (checkFields es (checkEntries c es) path (fields.map c.descriptorOf))
      (fields.flatMap (placesOfField c es (placesOfEach c es) path)) := by
  induction fields with
  | nil => exact findsFirst_nil
  | cons f rest ih =>
      obtain ⟨⟨hf, hd⟩, hlater⟩ := List.forall_mem_cons.mp hfields
      have hrest := ih hlater
      rw [List.map_cons, List.flatMap_cons, checkFields, lookupCheck_checkEntries, placesOfField_eq]
      cases hfound : Value.lookupText (keyOf (c.descriptorOf f) es) es with
      | none => exact hrest
      | some v =>
          obtain ⟨e, he, rfl⟩ := Option.map_eq_some_iff.mp hfound
          obtain ⟨hdata, hsearched⟩ := hes e (List.mem_of_find?_eq_some he)
          rw [← (Catalogue.names_of_describeField hd).2.1]
          exact (hsearched f.type _ _ _ hdata (reads_of_field hflat hm hf hd)).orElse hrest

/-- Of a record of searched values the first place that is ill typed is found. -/
theorem findsFirst_checkRecord {name : String} {es : List (Value × Value)} (hflat : IsFlatBelow c root)
    (hleads : ∀ m, c.model? name = some m → LooksInto c root m)
    (hes : ∀ e ∈ es, e.2.IsData ∧ IsSearched c root e.2) :
    FindsFirst c (checkRecord c es (checkEntries c es) name path)
      (placesOfRecord c es (placesOfEach c es) name path) := by
  rw [checkRecord, placesOfRecord]
  cases hm : c.model? name with
  | none => exact findsFirst_nil
  | some m =>
      intro found hfound
      obtain ⟨fields, hdescribe, hfound⟩ := exists_of_bind_eq_ok hfound
      obtain ⟨rfl, hdescribed⟩ := Catalogue.describe_eq_map (Action.of_describe_eq_ok hdescribe)
      exact findsFirst_checkFields hflat (hleads m hm) hes (fun f hf => ⟨hf, hdescribed f hf⟩) found hfound

/-- Of a dictionary of searched values, be it a map or a record, the first place that is ill typed is found. -/
theorem isSearched_dict {es : List (Value × Value)} (hflat : IsFlatBelow c root)
    (hes : ∀ e ∈ es, IsSearched c root e.2) : IsSearched c root (.dict es) := by
  intro t d kind path hv hreads
  have hentries : ∀ e ∈ es, e.2.IsData ∧ IsSearched c root e.2 := fun e he => ⟨hv.entries e he, hes e he⟩
  rw [check, placesOf]
  apply findsFirst_checkValue hv hreads.kind_eq
  · rintro (hnull | hany)
    · cases hnull
    · rw [hreads.kind_eq] at hany
      cases ht : t.unwrap.1 with
      | record name | dict key value =>
          rw [ht] at hany
          cases hany
      | _ => rfl
  · intro hany hdict
    have hkinds : kind = .map ∨ kind = .record := by
      cases kind <;> first | exact .inl rfl | exact .inr rfl | exact absurd rfl hany | cases hdict
    rcases hkinds with rfl | rfl
    · obtain ⟨hbare, hinside⟩ := hreads.inside (.inr rfl)
      have hown := (hreads.own (.inr rfl)).1
      rcases Catalogue.eq_dict_of_kindOf hreads.kind_eq.symm with ht | ⟨key, value, ht⟩
      · rw [ht] at hbare ⊢
        rw [hbare rfl]
        exact findsFirst_nil
      · obtain ⟨helement, hvalue⟩ := hinside value (by simp [ht, Ty.parts])
        simp only [ht, helement, beq_iff_eq, ← hown, ↓reduceIte]
        exact findsFirst_checkMembers hvalue hentries
    · obtain ⟨name, ht, hmodel, hleads⟩ := hreads.looks.sees.record rfl
      simp only [ht, hmodel]
      exact findsFirst_checkRecord hflat hleads hentries

/-- Of every value the first place that is ill typed is found. -/
theorem isSearched (hflat : IsFlatBelow c root) (v : Value) : IsSearched c root v := by
  induction v using Value.madeOf_induction with
  | step v hinside =>
      cases v with
      | list xs => exact isSearched_list hinside
      | dict es => exact isSearched_dict hflat fun e he => hinside e.2 (Value.mem_madeOf_dict he)
      | _ => exact isSearched_of_leaf (by simp) (by simp)

/-- A document in which nothing is found wrong is well typed at each of its places, and otherwise what is found is
the first of them that is not, if rows and maps are of one type, a scalar or a record, in every model that is
looked into. -/
theorem jsonTypeMismatch_finds_first {name : String} {es : List (Value × Value)} {found : Option String}
    (hflat : IsFlatBelow c name) (hes : (Value.dict es).IsData) (hfound : jsonTypeMismatch c name es path = .ok found) :
    FirstAmong c (places c name es path) found := by
  have hentries : ∀ e ∈ es, e.2.IsData ∧ IsSearched c name e.2 :=
    fun e he => ⟨hes.entries e he, isSearched hflat e.2⟩
  exact findsFirst_checkRecord hflat (fun _ hm => .root hm) hentries found hfound

/-- Messages with votes, the place where they were written, and the messages that answer them. -/
def messageCatalogue : Catalogue :=
  ⟨[plainModel "Message" [plainField "number" .int, plainField "votes" (.dict .str .float),
    plainField "place" (.tuple [.float, .float]), plainField "replies" (.list (.record "Message"))]], []⟩

/-- A message with an answer that has a number. -/
def message (number : Value) : List (Value × Value) :=
  Value.textEntries [("votes", .dict [(.text "up", .int 3)]), ("place", .list [.int 1, .null]),
    ("replies", .list [.dict (Value.textEntries [("number", number)])])]

example : (places messageCatalogue "Message" (message (.int 2)) "").map Place.path =
    ["votes", "votes[up]", "place", "place[0]", "place[1]", "replies", "replies[0]", "replies[0].number"] := by
  decide +kernel

theorem isFlatBelow_message : IsFlatBelow messageCatalogue "Message" := by
  intro m hm
  obtain rfl := List.mem_singleton.mp hm.mem_models
  intro f hf u hu
  simp only [plainModel, List.mem_cons, List.not_mem_nil, or_false] at hf
  rcases hf with rfl | rfl | rfl | rfl <;> simp_all [plainField, Ty.unwrap, Ty.parts, Ty.element?, Catalogue.kindOf]

theorem isData_message {number : Value} (hnumber : number.IsData) : (Value.dict (message number)).IsData := by
  have hreply : (Value.dict (Value.textEntries [("number", number)])).IsData :=
    .dict (List.forall_mem_singleton.mpr hnumber)
  refine .dict (List.forall_mem_cons.mpr ⟨.dict (List.forall_mem_singleton.mpr (.int 3)), ?_⟩)
  refine List.forall_mem_cons.mpr ⟨.list (List.forall_mem_cons.mpr ⟨.int 1, List.forall_mem_singleton.mpr .null⟩), ?_⟩
  exact List.forall_mem_singleton.mpr (.list (List.forall_mem_singleton.mpr hreply))

/-- A message with the number of its answer is well typed, and one with a text in its place is found there. -/
theorem jsonTypeMismatch_finds_first_message :
    IsFlatBelow messageCatalogue "Message" ∧
      (jsonTypeMismatch messageCatalogue "Message" (message (.int 2)) "" = .ok none ∧
        FirstAmong messageCatalogue (places messageCatalogue "Message" (message (.int 2)) "") none) ∧
      jsonTypeMismatch messageCatalogue "Message" (message (.text "2")) "" =
        .ok (some "replies[0].number: cannot decode JSON string into integer") ∧
        FirstAmong messageCatalogue (places messageCatalogue "Message" (message (.text "2")) "")
          (some "replies[0].number: cannot decode JSON string into integer") := by
  have hright : jsonTypeMismatch messageCatalogue "Message" (message (.int 2)) "" = .ok none := by decide +kernel
  have hwrong : jsonTypeMismatch messageCatalogue "Message" (message (.text "2")) "" =
      .ok (some "replies[0].number: cannot decode JSON string into integer") := by decide +kernel
  exact ⟨isFlatBelow_message,
    ⟨hright, jsonTypeMismatch_finds_first isFlatBelow_message (isData_message (.int 2)) hright⟩,
    hwrong, jsonTypeMismatch_finds_first isFlatBelow_message (isData_message (.text "2")) hwrong⟩

end Intake.Binding
