import Intake.Proofs.Schema.Finished
import Intake.Proofs.Validation.Composition
import Intake.Proofs.Validation.Misapplied

/-!
The walk of validation. It goes to the records that fields are, and to those in a row of records, and so on
inside these. What it finds is exactly what the fields of the records on the walk find in themselves: no record
on the walk escapes, and nothing else is looked at. Records in dictionaries, and in rows of rows, are not on
the walk.
-/

namespace Intake

namespace Action

variable {α β : Type}

/-- Whether an operation comes to a value from some journal. -/
def MayGive (a : Action α) (v : α) : Prop := ∃ j later, a.outcome j = (.ok v, later)

theorem MayGive.of_pure {v w : α} (h : MayGive (pure v) w) : w = v := by
  obtain ⟨j, later, h⟩ := h
  cases h
  rfl

theorem MayGive.of_liftM {x : Except Fault α} {v : α} (h : MayGive (liftM x) v) : x = .ok v := by
  obtain ⟨j, later, h⟩ := h
  exact congrArg Prod.fst h

/-- Two operations in a row each come to something. -/
theorem MayGive.of_bind {a : Action α} {f : α → Action β} {w : β} (h : MayGive (a >>= f) w) :
    ∃ v, MayGive a v ∧ MayGive (f v) w := by
  obtain ⟨j, last, h⟩ := h
  obtain ⟨v, later, hfirst, hsecond⟩ := of_outcome_bind h
  exact ⟨v, ⟨j, later, hfirst⟩, later, last, hsecond⟩

/-- Whether an operation comes to a value from every journal. -/
def AlwaysGives (a : Action α) (v : α) : Prop := ∀ j, (a.outcome j).1 = .ok v

theorem AlwaysGives.mayGive {a : Action α} {v : α} (h : AlwaysGives a v) : MayGive a v :=
  ⟨Journal.empty, _, Prod.ext (h Journal.empty) rfl⟩

/-- What does not depend on what was noted before is always given if it is given once. -/
theorem MayGive.always {a : Action α} {v : α} (h : MayGive a v) (hsame : SameResult a a) : AlwaysGives a v := by
  obtain ⟨j, later, h⟩ := h
  intro j'
  rw [hsame j' j, h]

end Action

namespace Validation

open Intake.Action (MayGive AlwaysGives SameResult)

variable {c : Catalogue}

/-- What a field finds in itself does not depend on what was noted before. -/
theorem sameResult_fieldErrors (m : Model) (d : Descriptor) (path : String) (v : Value) :
    SameResult (fieldErrors c m d path v) (fieldErrors c m d path v) := fun j j' =>
  (fieldErrors_pruned c (fun _ => false) false m d path v j j).symm.trans
    (fieldErrors_pruned c (fun _ => false) false m d path v j j')

/-- What a record reports does not depend on what was noted before. -/
theorem sameResult_whole (v : Value) (place : String) :
    SameResult ((inside c v).whole place) ((inside c v).whole place) := fun j j' =>
  ((inside_pruned c (fun _ => false) v).whole place j j).symm.trans
    ((inside_pruned c (fun _ => false) v).whole place j j')

/-- The records that validation walks to from a value, with their places: what a field holds that is a record,
and the items of one that is a row of records. -/
inductive Walks (c : Catalogue) (base : String) (x : Value) : String → Value → Prop where
  | self : Walks c base x base x
  | field {place name : String} {attributes : List (String × Value)} {m : Model} {fields : List Descriptor}
      {d : Descriptor} (hrecord : Walks c base x place (.record name attributes)) (hm : c.model? name = some m)
      (hfields : c.describe m = .ok fields) (hd : d ∈ fields) (hkind : d.kind = .record) :
      Walks c base x (join place d.wireName) (held attributes d)
  | item {place name : String} {attributes : List (String × Value)} {m : Model} {fields : List Descriptor}
      {d : Descriptor} {xs : List Value} {i : Nat} {y : Value}
      (hrecord : Walks c base x place (.record name attributes)) (hm : c.model? name = some m)
      (hfields : c.describe m = .ok fields) (hd : d ∈ fields) (hkind : d.kind = .array)
      (helement : d.elementKind = some .record) (hxs : (held attributes d).items? = some xs)
      (hy : xs[i]? = some y) : Walks c base x (indexed (join place d.wireName) i) y

/-- A walk can be carried on. -/
theorem Walks.trans {base place place' : String} {x y z : Value} (hxy : Walks c base x place y)
    (hyz : Walks c place y place' z) : Walks c base x place' z := by
  induction hyz with
  | self => exact hxy
  | field _ hm hfields hd hkind ih => exact ih.field hm hfields hd hkind
  | item _ hm hfields hd hkind helement hxs hy ih => exact ih.item hm hfields hd hkind helement hxs hy

/-! ### What is found on the walk -/

section parts

variable {α β : Type} {gives : α → List β → Prop} {xs : List α} {all : List β}

/-- A list that is put together from what each of some things gives, in their order. -/
inductive PutTogether (gives : α → List β → Prop) : List α → List β → Prop where
  | nil : PutTogether gives [] []
  | cons {x : α} {xs : List α} {part rest : List β} (hpart : gives x part) (hrest : PutTogether gives xs rest) :
      PutTogether gives (x :: xs) (part ++ rest)

theorem PutTogether.sublist (h : PutTogether gives xs all) {x : α} (hx : x ∈ xs) :
    ∃ part, gives x part ∧ part.Sublist all := by
  induction h with
  | nil => cases hx
  | @cons y ys part rest hpart _ ih =>
      rcases List.mem_cons.mp hx with rfl | hx
      · exact ⟨part, hpart, List.sublist_append_left part rest⟩
      · obtain ⟨inner, hinner, hsub⟩ := ih hx
        exact ⟨inner, hinner, hsub.trans (List.sublist_append_right part rest)⟩

theorem PutTogether.exists_of_mem (h : PutTogether gives xs all) {e : β} (he : e ∈ all) :
    ∃ x ∈ xs, ∃ part, gives x part ∧ e ∈ part := by
  induction h with
  | nil => cases he
  | @cons y ys part rest hpart _ ih =>
      rcases List.mem_append.mp he with he | he
      · exact ⟨y, List.mem_cons_self, part, hpart, he⟩
      · obtain ⟨x, hx, hfound⟩ := ih he
        exact ⟨x, List.mem_cons_of_mem y hx, hfound⟩

end parts

variable {m : Model} {base path : String} {errors : List FieldError} {attributes : List (String × Value)}

/-- What a field of a record reports at a place: what it finds in itself, and what is found in the records
inside. -/
def ReportsAt (c : Catalogue) (m : Model) (place : String) (attributes : List (String × Value)) (d : Descriptor)
    (errors : List FieldError) : Prop :=
  ∃ own inner, MayGive (fieldErrors c m d (join place d.wireName) (held attributes d)) own ∧
    MayGive (insideErrors d (join place d.wireName) (inside c (held attributes d))) inner ∧ errors = own ++ inner

theorem putTogether_of_validateFields {ds : List Descriptor}
    (hall : MayGive (validateFields c m base attributes (insideEach c attributes) ds) errors) :
    PutTogether (ReportsAt c m base attributes) ds errors := by
  induction ds generalizing errors with
  | nil =>
      obtain rfl := hall.of_pure
      exact PutTogether.nil
  | cons d rest ih =>
      obtain ⟨own, hown, hall⟩ := hall.of_bind
      obtain ⟨inner, hinner, hall⟩ := hall.of_bind
      obtain ⟨later, hlater, hall⟩ := hall.of_bind
      rw [inside_held] at hinner
      obtain rfl := hall.of_pure
      exact PutTogether.cons ⟨own, inner, hown, hinner, rfl⟩ (ih hlater)

/-- A record reports what the fields of its model report, one after the other. -/
theorem putTogether_of_whole {name : String} {fields : List Descriptor} (hm : c.model? name = some m)
    (hfields : c.describe m = .ok fields) (hall : MayGive ((inside c (.record name attributes)).whole base) errors) :
    PutTogether (ReportsAt c m base attributes) fields errors := by
  simp only [inside, hm, Action.describe_eq_ok hfields] at hall
  exact putTogether_of_validateFields hall

/-- A row reports what its items report, one after the other. -/
theorem putTogether_of_insideItems {xs : List Value} {first : Nat}
    (hall : MayGive (insideItems c first xs path) errors) :
    PutTogether (fun x part => MayGive ((inside c x.1).whole (indexed path x.2)) part) (xs.zipIdx first) errors := by
  induction xs generalizing first errors with
  | nil =>
      obtain rfl := hall.of_pure
      exact PutTogether.nil
  | cons x rest ih =>
      obtain ⟨own, hown, hall⟩ := hall.of_bind
      obtain ⟨later, hlater, hall⟩ := hall.of_bind
      obtain rfl := hall.of_pure
      exact PutTogether.cons hown (ih hlater)

/-- What a record on the walk reports is part of what the whole reports. -/
theorem Walks.sublist {x y : Value} {place : String} (hwalk : Walks c base x place y)
    (hall : MayGive ((inside c x).whole base) errors) :
    ∃ own, MayGive ((inside c y).whole place) own ∧ own.Sublist errors := by
  induction hwalk with
  | self => exact ⟨errors, hall, List.Sublist.refl errors⟩
  | @field place name attributes m fields d _ hm hfields hd hkind ih =>
      obtain ⟨around, haround, hsub⟩ := ih
      obtain ⟨_, ⟨own, inner, _, hinner, rfl⟩, hpart⟩ := (putTogether_of_whole hm hfields haround).sublist hd
      simp only [insideErrors, hkind] at hinner
      exact ⟨inner, hinner, (List.sublist_append_right own inner).trans (hpart.trans hsub)⟩
  | @item place name attributes m fields d xs i y _ hm hfields hd hkind helement hxs hy ih =>
      obtain ⟨around, haround, hsub⟩ := ih
      obtain ⟨_, ⟨own, inner, _, hinner, rfl⟩, hpart⟩ := (putTogether_of_whole hm hfields haround).sublist hd
      simp only [insideErrors, hkind, helement, inside_items hxs] at hinner
      have hmem : (y, i) ∈ xs.zipIdx 0 := by simpa [List.mk_mem_zipIdx_iff_getElem?] using hy
      obtain ⟨part, hitem, hin⟩ := (putTogether_of_insideItems hinner).sublist hmem
      exact ⟨part, hitem, hin.trans ((List.sublist_append_right own inner).trans (hpart.trans hsub))⟩

/-- Whether an error is found by a field of a record on the walk in what the field itself holds. -/
def IsFoundIn (c : Catalogue) (base : String) (x : Value) (e : FieldError) : Prop :=
  ∃ place name attributes m fields d own, Walks c base x place (.record name attributes) ∧
    c.model? name = some m ∧ c.describe m = .ok fields ∧ d ∈ fields ∧
      AlwaysGives (fieldErrors c m d (join place d.wireName) (held attributes d)) own ∧ e ∈ own

theorem IsFoundIn.of_walks {place : String} {x y : Value} {e : FieldError} (hwalk : Walks c base x place y)
    (he : IsFoundIn c place y e) : IsFoundIn c base x e := by
  obtain ⟨place', name, attributes, m, fields, d, own, hrecord, hrest⟩ := he
  exact ⟨place', name, attributes, m, fields, d, own, hwalk.trans hrecord, hrest⟩

/-- Whether everything that is found inside a value is found on the walk from it, or from its items. -/
structure IsTraced (c : Catalogue) (v : Value) : Prop where
  whole : ∀ {base errors e}, MayGive ((inside c v).whole base) errors → e ∈ errors → IsFoundIn c base v e
  items : ∀ {path errors e}, MayGive ((inside c v).items path) errors → e ∈ errors →
    ∃ xs i x, v.items? = some xs ∧ xs[i]? = some x ∧ IsFoundIn c (indexed path i) x e

/-- Nothing is found inside what is no record and no row. -/
theorem isTraced_of_other {v : Value} (hv : inside c v = .ofOther v) : IsTraced c v := by
  constructor
  · intro base errors e hall he
    rw [hv] at hall
    obtain rfl : errors = [] := hall.of_pure
    cases he
  · intro path errors e hall he
    have hnone : errors = [] := by
      simp only [hv, Inside.ofOther] at hall
      split at hall
      · exact hall.of_pure
      · obtain ⟨_, -, hall⟩ := hall.of_bind
        exact hall.of_pure
    subst hnone
    cases he

/-- What is found in a record is found by one of its fields, or on the walk from what that holds. -/
theorem isFoundIn_record {name : String} {m : Model} {fields : List Descriptor} {e : FieldError}
    (hm : c.model? name = some m) (hfields : c.describe m = .ok fields)
    (hattributes : ∀ d, IsTraced c (held attributes d))
    (hall : MayGive ((inside c (.record name attributes)).whole base) errors) (he : e ∈ errors) :
    IsFoundIn c base (.record name attributes) e := by
  obtain ⟨d, hd, _, ⟨own, inner, hown, hinner, rfl⟩, he⟩ :=
    (putTogether_of_whole hm hfields hall).exists_of_mem he
  rcases List.mem_append.mp he with he | he
  · exact ⟨base, name, attributes, m, fields, d, own, Walks.self, hm, hfields, hd,
      hown.always (sameResult_fieldErrors m d _ _), he⟩
  · unfold insideErrors at hinner
    split at hinner
    · rename_i hkind
      exact ((hattributes d).whole hinner he).of_walks (Walks.self.field hm hfields hd hkind)
    · rename_i hkind helement
      obtain ⟨xs, i, x, hxs, hx, hfound⟩ := (hattributes d).items hinner he
      exact hfound.of_walks (Walks.self.item hm hfields hd hkind helement hxs hx)
    · obtain rfl := hinner.of_pure
      cases he

/-- What the fields of a record report is found on the walk from it. -/
theorem isTraced_record (name : String) (hattributes : ∀ d, IsTraced c (held attributes d)) :
    IsTraced c (.record name attributes) := by
  constructor
  · intro base errors e hall he
    cases hm : c.model? name with
    | none =>
        simp only [inside, hm] at hall
        obtain rfl := hall.of_pure
        cases he
    | some m =>
        cases hfields : c.describe m with
        | error _ =>
            simp only [inside, hm, Action.describe, hfields] at hall
            obtain ⟨_, hfault, -⟩ := hall.of_bind
            cases hfault.of_liftM
        | ok fields => exact isFoundIn_record hm hfields hattributes hall he
  · intro path errors e hall he
    simp only [inside] at hall
    obtain rfl := hall.of_pure
    cases he

theorem isTraced_row {v : Value} {xs : List Value} (hv : v.items? = some xs)
    (hxs : ∀ x ∈ xs, IsTraced c x) : IsTraced c v := by
  constructor
  · intro base errors e hall he
    have hnone : errors = [] := by
      rw [whole_of_not_record (by rintro name attributes rfl; cases hv)] at hall
      exact hall.of_pure
    subst hnone
    cases he
  · intro path errors e hall he
    rw [inside_items hv] at hall
    obtain ⟨⟨x, i⟩, hx, part, hpart, he⟩ := (putTogether_of_insideItems hall).exists_of_mem he
    have hx : xs[i]? = some x := by simpa [List.mk_mem_zipIdx_iff_getElem?] using hx
    exact ⟨xs, i, x, hv, hx, (hxs x (List.mem_of_getElem? hx)).whole hpart he⟩

theorem isTraced_held (hattributes : ∀ a ∈ attributes, IsTraced c a.2) (d : Descriptor) :
    IsTraced c (held attributes d) := by
  unfold held Value.attribute?
  cases hfound : attributes.lookup d.name with
  | none => exact isTraced_of_other rfl
  | some v =>
      obtain ⟨before, after, hall, -⟩ := List.lookup_eq_some_iff.mp hfound
      exact hattributes (d.name, v) (by simp [hall])

/-- Everything that is found inside a value is found on the walk. -/
theorem isTraced (v : Value) : IsTraced c v := by
  induction v using Value.madeOf_induction with
  | step v hinside =>
      cases v with
      | record name attributes =>
          exact isTraced_record name (isTraced_held fun a ha => hinside a.2 (Value.mem_madeOf_record ha))
      | list xs | tuple xs | set _ xs => exact isTraced_row rfl hinside
      | _ => exact isTraced_of_other rfl

/-- An error as it is reported from a record at a place. -/
def placed (place : String) (e : FieldError) : FieldError := { e with field := join place e.field }

/-- A record at a place reports what it reports by itself, at that place. -/
theorem alwaysGives_validate_of_whole (hnamed : IsNamed c) {place : String} {y : Value}
    (hwhole : MayGive ((inside c y).whole place) errors) :
    ∃ own, AlwaysGives (validate c y) own ∧ own.map (placed place) = errors := by
  by_cases hplace : place = ""
  · subst hplace
    refine ⟨errors, hwhole.always (sameResult_whole y ""), ?_⟩
    exact List.map_id'' (fun e => rfl) errors
  · rw [whole_behind hnamed hplace, behind, map_eq_pure_bind] at hwhole
    obtain ⟨own, hown, hwhole⟩ := hwhole.of_bind
    refine ⟨own, hown.always (sameResult_whole y ""), ?_⟩
    rw [hwhole.of_pure]
    exact List.map_congr_left fun e _ => by simp [placed, FieldError.under, join, hplace]

/-- Validation finds exactly what is on its walk. Every record that it walks to has its own errors among
those of the whole, in their order and each at the place of the record; and every error of the whole is one
that a field of a record on the walk finds in itself. -/
theorem validate_finds_walk (hnamed : IsNamed c) {x : Value} (hx : AlwaysGives (validate c x) errors) :
    (∀ place y, Walks c "" x place y →
      ∃ own, AlwaysGives (validate c y) own ∧ (own.map (placed place)).Sublist errors) ∧
    ∀ e ∈ errors, IsFoundIn c "" x e := by
  constructor
  · intro place y hwalk
    obtain ⟨placed, hplaced, hsub⟩ := hwalk.sublist hx.mayGive
    obtain ⟨own, hown, rfl⟩ := alwaysGives_validate_of_whole hnamed hplaced
    exact ⟨own, hown, hsub⟩
  · exact fun e he => (isTraced x).whole hx.mayGive he

theorem alwaysGives_validate {x : Value} (hx : ((validate c x).outcome Journal.empty).1 = .ok errors) :
    AlwaysGives (validate c x) errors :=
  MayGive.always ⟨Journal.empty, _, Prod.ext hx rfl⟩ (sameResult_whole x "")

/-- The second line of the invoice is on the walk, so what it reports is reported. -/
theorem validate_finds_walk_invoice :
    IsNamed invoiceCatalogue ∧
      AlwaysGives (validate invoiceCatalogue invoice)
        [⟨"buyer.name", "is required"⟩, ⟨"lines[1].name", "is required"⟩] ∧
      Walks invoiceCatalogue "" invoice "lines[1]" nameless ∧
      ∃ own, AlwaysGives (validate invoiceCatalogue nameless) own ∧
        (own.map (placed "lines[1]")).Sublist
          [⟨"buyer.name", "is required"⟩, ⟨"lines[1].name", "is required"⟩] := by
  have hnamed : IsNamed invoiceCatalogue := by
    unfold IsNamed
    decide
  have hinvoice : AlwaysGives (validate invoiceCatalogue invoice)
      [⟨"buyer.name", "is required"⟩, ⟨"lines[1].name", "is required"⟩] := alwaysGives_validate (by cbv)
  have hwalk : Walks invoiceCatalogue "" invoice "lines[1]" nameless := by
    obtain ⟨m, fields, d, hm, hfields, hd, hname, hwire, hkind, helement⟩ :
        ∃ m fields, ∃ d : Descriptor, invoiceCatalogue.model? "Invoice" = some m ∧
          invoiceCatalogue.describe m = .ok fields ∧ d ∈ fields ∧ d.name = "lines" ∧ d.wireName = "lines" ∧
            d.kind = .array ∧ d.elementKind = some .record :=
      ⟨_, _, _, rfl, rfl, List.mem_cons_of_mem _ List.mem_cons_self, rfl, rfl, rfl, rfl⟩
    have hplace : indexed (join "" d.wireName) 1 = "lines[1]" := by
      rw [hwire]
      decide
    rw [← hplace]
    have hlines : Value.items? (held [("buyer", nameless),
        ("lines", .list [.record "Party" [("name", .text "ink")], nameless])] d) =
          some [.record "Party" [("name", .text "ink")], nameless] := by
      rw [held, hname]
      rfl
    exact Walks.self.item hm hfields hd hkind helement hlines rfl
  exact ⟨hnamed, hinvoice, hwalk, (validate_finds_walk hnamed hinvoice).1 _ _ hwalk⟩

/-! ### Records off the walk -/

/-- A record inside a value: the value itself, or one inside an item of a row or inside what a dictionary
holds under a key. -/
inductive HoldsRecord : Value → Value → Prop where
  | self (name : String) (attributes : List (String × Value)) :
      HoldsRecord (.record name attributes) (.record name attributes)
  | item {v x y : Value} {xs : List Value} (hv : v.items? = some xs) (hx : x ∈ xs) (hy : HoldsRecord x y) :
      HoldsRecord v y
  | value {entries : List (Value × Value)} {key x y : Value} (hx : (key, x) ∈ entries) (hy : HoldsRecord x y) :
      HoldsRecord (.dict entries) y

/-- The records that a record contains through fields whose types lead to records. -/
inductive Contains (c : Catalogue) (x : Value) : Value → Prop where
  | self : Contains c x x
  | inside {name : String} {attributes : List (String × Value)} {m : Model} {fields : List Descriptor}
      {d : Descriptor} {y : Value} (hrecord : Contains c x (.record name attributes))
      (hm : c.model? name = some m) (hfields : c.describe m = .ok fields) (hd : d ∈ fields)
      (hleads : d.type.leadsTo?.isSome) (hy : HoldsRecord (held attributes d) y) : Contains c x y

/-- A register has parties by name and parties in rows of rows. -/
def registerCatalogue : Catalogue :=
  ⟨[plainModel "Party" [ruledField "name" .str "required"],
    plainModel "Register" [plainField "named" (.dict .str (.record "Party")),
      plainField "rows" (.list (.list (.record "Party")))]], []⟩

/-- A register of one party that has no name, by name and in a row. -/
def register : Value :=
  .record "Register" [("named", .dict [(.text "x", nameless)]), ("rows", .list [.list [nameless]])]

/-- Records in a dictionary, and in rows of rows, escape: a party without a name is contained in a register in
which nothing is found. -/
theorem validate_misses_contained :
    Contains registerCatalogue register nameless ∧
      AlwaysGives (validate registerCatalogue nameless) [⟨"name", "is required"⟩] ∧
      AlwaysGives (validate registerCatalogue register) [] ∧
      ¬ ∀ (c : Catalogue) (x y : Value) (own errors : List FieldError), Contains c x y →
        AlwaysGives (validate c y) own → own ≠ [] → AlwaysGives (validate c x) errors → errors ≠ [] := by
  have hcontains : Contains registerCatalogue register nameless :=
    Contains.self.inside rfl rfl List.mem_cons_self rfl
      (.value (List.mem_singleton_self (Value.text "x", nameless)) (.self _ _))
  have hown : AlwaysGives (validate registerCatalogue nameless) [⟨"name", "is required"⟩] :=
    alwaysGives_validate (by cbv)
  have hnone : AlwaysGives (validate registerCatalogue register) [] := alwaysGives_validate (by cbv)
  exact ⟨hcontains, hown, hnone, fun hall => hall _ _ _ _ _ hcontains hown (by simp) hnone rfl⟩

end Validation
end Intake
