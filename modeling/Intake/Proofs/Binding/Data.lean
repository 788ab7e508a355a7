import Intake.Binding.KnownKeys
import Intake.Markup.Document
import Intake.Proofs.Binding.Reading
import Intake.Proofs.Binding.Typing
import Intake.Proofs.Json.Document

/-!
What is read from a request is data: the texts of fields, and the elements of records, come to values as they stand
in documents. Where every model says what its fields are, elements are read and documents are looked at without
faults.
-/

namespace Intake

variable {α β : Type} {c : Catalogue}

/-- Every model says what its fields are. -/
def Catalogue.IsDescribed (c : Catalogue) : Prop := ∀ m ∈ c.models, ∃ fields, c.describe m = .ok fields

namespace Binding

/-- Entries of which every value is data. -/
def AreData (es : List (Value × Value)) : Prop := ∀ e ∈ es, e.2.IsData

theorem areData_nil : AreData [] := List.forall_mem_nil _

theorem areData_dictOf {es : List (Value × Value)} (hes : AreData es) : AreData (Value.dictOf es) :=
  fun e he => (Value.forall_mem_dictOf (p := fun _ => True) (fun e he => ⟨trivial, hes e he⟩) e he).2

theorem gives_describe_of_isDescribed {bad : Fault → Prop} (hc : c.IsDescribed) {name : String} {m : Model}
    (hm : c.model? name = some m) : Gives bad (fun _ => True) (Action.describe c m) := by
  obtain ⟨fields, hfields⟩ := hc m (List.mem_of_find?_eq_some hm)
  rw [Action.describe_eq_ok hfields]
  trivial

/-! ### Texts of fields -/

section Texts

variable {d : Descriptor} {offers : List Offer}

theorem gives_isData_readText (kind : Kind) (raw : String) (layout : Option String) :
    Gives (fun _ => True) (fun outcome => ∀ v, outcome = .ok v → v.IsData) (readText kind raw layout) := by
  unfold readText Kind.read
  cases kind with
  | integer =>
      cases Number.int? raw with
      | none => exact nofun
      | some i => rintro _ ⟨⟩; exact .int i
  | float =>
      cases Number.float? raw with
      | none => exact nofun
      | some x => rintro _ ⟨⟩; exact .float x
  | uuid =>
      cases Uuid.ofLenient? raw with
      | none => exact nofun
      | some u => rintro _ ⟨⟩; exact .uuid u
  | moment =>
      cases readMoment layout raw with
      | error flaw => trivial
      | ok outcome =>
          rintro v hv
          obtain ⟨m, -, rfl⟩ := exists_of_map_eq_ok hv
          exact .moment m
  | boolean => rintro _ ⟨⟩; exact .bool _
  | string | array | map | record | any => rintro _ ⟨⟩; exact .text raw

/-- What was read for a field is data. -/
def HasData (reading : Reading) : Prop := ∀ v, reading.value = some v → v.IsData

theorem hasData_nothing : HasData .nothing := by rintro _ ⟨⟩

theorem gives_isData_readItems (path : String) (raws : List String) :
    Gives (fun _ => True) (fun found => ∀ x ∈ found.1, x.IsData) (readItems d path raws) := by
  unfold readItems
  dsimp only
  split
  · exact List.forall_mem_nil _
  · have hall : ∀ raw ∈ raws, Gives (fun _ => True) (fun outcome => ∀ v, outcome = .ok v → v.IsData)
        (readText (d.elementKind.getD .string) raw (layoutOf d)) := fun raw _ => gives_isData_readText _ raw _
    refine (gives_mapM hall).bind fun outcomes houtcomes x hx => ?_
    obtain ⟨outcome, houtcome, hx⟩ := List.mem_filterMap.mp hx
    exact houtcomes outcome houtcome x (by cases outcome <;> cases hx; rfl)

theorem gives_hasData_readLeaf (base path : String) :
    Gives (fun _ => True) HasData (readLeaf d base path offers) := by
  have htexts : Gives (fun _ => True) (fun _ => True) (firstTexts d base offers) := by
    cases firstTexts d base offers <;> trivial
  unfold readLeaf
  refine htexts.bind fun raws _ => ?_
  cases raws with
  | nil => exact hasData_nothing
  | cons raw rest =>
      dsimp only
      split
      · refine (gives_isData_readItems path (raw :: rest)).bind fun found hfound => ?_
        rintro _ ⟨⟩
        exact .list hfound
      · split
        · exact hasData_nothing
        · refine (gives_isData_readText d.kind raw _).bind fun outcome houtcome => ?_
          cases outcome with
          | error why => rintro _ ⟨⟩
          | ok v => rintro _ ⟨⟩; exact houtcome v rfl

theorem gives_isData_readMember (path entry : String) (raws : List String) :
    Gives (fun _ => True) (fun found => ∀ e, found.1 = some e → e.2.IsData) (readMember c d path entry raws) := by
  unfold readMember
  refine (gives_isData_readText _ entry none).bind fun key _ => ?_
  cases key with
  | error why => rintro _ ⟨⟩
  | ok key =>
      cases raws with
      | nil => rintro _ ⟨⟩
      | cons raw rest =>
          dsimp only
          split
          · rintro _ ⟨⟩
          · refine (gives_isData_readText _ raw _).bind fun outcome houtcome => ?_
            cases outcome with
            | error why => rintro _ ⟨⟩
            | ok v => rintro _ ⟨⟩; exact houtcome v rfl

theorem gives_areData_readMap (name path : String) (o : Offer) :
    Gives (fun _ => True) (fun found => AreData found.1) (readMap c d name path o) := by
  unfold readMap
  refine (gives_filterMapM (fun found => ∀ e, found.1 = some e → e.2.IsData) (fun key => ?_) o.keys).bind
    fun members hmembers => ?_
  · split
    · rintro _ ⟨⟩
    · rename_i entry _
      have hread : Gives (fun _ => True) (fun _ => True) (o.read key) := by cases o.read key <;> trivial
      refine hread.bind fun raws _ => (gives_isData_readMember path entry raws).bind fun found hfound => ?_
      rintro _ ⟨⟩
      exact hfound
  · apply areData_dictOf
    intro e he
    obtain ⟨found, hfound, he⟩ := List.mem_filterMap.mp he
    exact hmembers found hfound e he

theorem gives_hasData_readMaps (base path : String) :
    Gives (fun _ => True) HasData (readMaps c d base path offers) := by
  induction offers with
  | nil => exact hasData_nothing
  | cons o rest ih =>
      rw [readMaps]
      refine (gives_areData_readMap _ path o).bind fun found hfound => ?_
      dsimp only
      split
      · refine ih.bind fun later hlater => ?_
        exact hlater
      · rintro _ ⟨⟩
        exact .dict hfound

/-- What is read for a field is data, if what is read for its record is. -/
theorem gives_hasData_readField {record : String → List Offer → String → String → Except Fault Decoded}
    (hrecord : ∀ model offers base path,
      Gives (fun _ => True) (fun found => AreData found.entries) (record model offers base path))
    (base path : String) : Gives (fun _ => True) HasData (readField c record offers base path d) := by
  unfold readField
  dsimp only
  split
  · exact hasData_nothing
  · split
    · exact hasData_nothing
    · refine (hrecord _ _ _ _).bind fun inner hinner => ?_
      rintro v hv
      dsimp only at hv
      split at hv
      · cases hv
      · obtain rfl := Option.some.inj hv
        exact .dict hinner
  · exact gives_hasData_readMaps base _
  · exact gives_hasData_readLeaf base _

theorem gives_areData_readFields {read : Descriptor → Except Fault Reading}
    (hread : ∀ d, Gives (fun _ => True) HasData (read d)) (fields : List Descriptor) :
    Gives (fun _ => True) (fun found => AreData found.entries) (readFields read fields) := by
  induction fields with
  | nil => exact areData_nil
  | cons d rest ih =>
      rw [readFields]
      split
      · exact ih
      · refine (hread d).bind fun reading hreading => ih.bind fun others hothers => ?_
        cases hvalue : reading.value with
        | none => exact hothers
        | some v => exact List.forall_mem_cons.mpr ⟨hreading v hvalue, hothers⟩

/-- What is read for a record is data. -/
theorem gives_areData_readRecord (depth : Nat) (model : String) (offers : List Offer) (base path : String) :
    Gives (fun _ => True) (fun found => AreData found.entries) (readRecord c depth model offers base path) := by
  induction depth generalizing model offers base path with
  | zero => trivial
  | succ depth ih =>
      rw [readRecord]
      split
      · exact areData_nil
      · rename_i m _
        have hdescribe : Gives (fun _ => True) (fun _ => True) (Action.describe c m) := by
          cases Action.describe c m <;> trivial
        refine hdescribe.bind fun fields _ => ?_
        refine (gives_areData_readFields (fun d => gives_hasData_readField ih base path) fields).bind
          fun found hfound => ?_
        exact areData_dictOf hfound

/-- What is decoded from texts is data. -/
theorem areData_of_decodeStrings {root : String} {offers : List Offer} {found : Decoded}
    (hread : decodeStrings c root offers = .ok found) : AreData found.entries := by
  have hgives := @gives_areData_readRecord c (Catalogue.depthBound c offers) root offers "" ""
  rwa [← decodeStrings, hread] at hgives

end Texts

/-! ### Types of documents -/

theorem gives_orElse {bad : Fault → Prop} {first second : Finding} (hfirst : Gives bad (fun _ => True) first)
    (hsecond : Gives bad (fun _ => True) second) : Gives bad (fun _ => True) (orElse first second) := by
  refine hfirst.bind fun found _ => ?_
  cases found with
  | none => exact hsecond
  | some reason => trivial

/-- A value that is looked at without faults, whatever it is looked at as. -/
def IsLookedAt (c : Catalogue) (v : Value) : Prop :=
  ∀ d kind path, Gives (fun _ => False) (fun _ => True) (check c v d kind path)

theorem gives_checkValue {bad : Fault → Prop} {v : Value} {inside : Check}
    (hinside : ∀ d kind path, Gives bad (fun _ => True) (inside d kind path)) (d : Descriptor) (kind : Kind)
    (path : String) : Gives bad (fun _ => True) (checkValue v inside d kind path) := by
  unfold checkValue
  split
  · trivial
  · split
    · trivial
    · exact hinside d kind path

theorem isLookedAt_of_leaf {v : Value} (hlist : ∀ xs, v ≠ .list xs) (hdict : ∀ es, v ≠ .dict es) :
    IsLookedAt c v := by
  have hnone : Gives (fun _ => False) (fun _ => True) (.ok none : Finding) := trivial
  intro d kind path
  rw [check_of_leaf hlist hdict]
  exact gives_checkValue (fun _ _ _ => hnone) d kind path

theorem gives_checkFields {es : List (Value × Value)} (hes : ∀ e ∈ es, IsLookedAt c e.2) (path : String)
    (fields : List Descriptor) :
    Gives (fun _ => False) (fun _ => True) (checkFields es (checkEntries c es) path fields) := by
  induction fields with
  | nil => trivial
  | cons d rest ih =>
      rw [checkFields, lookupCheck_checkEntries]
      cases hfound : Value.lookupText (keyOf d es) es with
      | none => exact ih
      | some v =>
          obtain ⟨e, he, -, rfl⟩ := Value.exists_mem_of_lookupText hfound
          exact gives_orElse (hes e he d d.kind _) ih

theorem gives_checkRecord (hc : c.IsDescribed) {es : List (Value × Value)} (hes : ∀ e ∈ es, IsLookedAt c e.2)
    (model path : String) :
    Gives (fun _ => False) (fun _ => True) (checkRecord c es (checkEntries c es) model path) := by
  unfold checkRecord
  split
  · trivial
  · rename_i m hm
    exact (gives_describe_of_isDescribed hc hm).bind fun fields _ => gives_checkFields hes path fields

theorem isLookedAt_list {xs : List Value} (hxs : ∀ x ∈ xs, IsLookedAt c x) : IsLookedAt c (.list xs) := by
  have hitems : ∀ d kind path index,
      Gives (fun _ => False) (fun _ => True) (checkItems c d kind path index xs) := by
    induction xs with
    | nil => intros; trivial
    | cons x rest ih =>
        obtain ⟨hx, hrest⟩ := List.forall_mem_cons.mp hxs
        intro d kind path index
        rw [checkItems]
        exact gives_orElse (hx d kind _) (ih hrest d kind path (index + 1))
  intro d kind path
  rw [check]
  refine gives_checkValue (fun d kind path => ?_) d kind path
  split
  · split
    · exact hitems d _ path 0
    · trivial
  · trivial

theorem isLookedAt_dict (hc : c.IsDescribed) {es : List (Value × Value)} (hes : ∀ e ∈ es, IsLookedAt c e.2) :
    IsLookedAt c (.dict es) := by
  have hmembers : ∀ d kind path, Gives (fun _ => False) (fun _ => True) (checkMembers c d kind path es) := by
    intro d kind path
    induction es with
    | nil => trivial
    | cons e rest ih =>
        obtain ⟨he, hrest⟩ := List.forall_mem_cons.mp hes
        rw [checkMembers]
        exact gives_orElse (he d kind _) (ih hrest)
  intro d kind path
  rw [check]
  refine gives_checkValue (fun d kind path => ?_) d kind path
  split
  · exact gives_checkRecord hc hes _ _
  · split
    · exact hmembers d _ path
    · trivial
  · trivial

/-- Every value can be looked at. -/
theorem isLookedAt (hc : c.IsDescribed) (v : Value) : IsLookedAt c v := by
  induction v using Value.madeOf_induction with
  | step v hinside =>
      cases v with
      | list xs => exact isLookedAt_list hinside
      | dict es => exact isLookedAt_dict hc fun e he => hinside e.2 (Value.mem_madeOf_dict he)
      | _ => exact isLookedAt_of_leaf (by simp) (by simp)

/-- Whether a document has a value of a wrong type can be told. -/
theorem exists_jsonTypeMismatch (hc : c.IsDescribed) (name : String) (es : List (Value × Value)) (path : String) :
    ∃ found, jsonTypeMismatch c name es path = .ok found := by
  obtain ⟨found, hfound, -⟩ := (gives_checkRecord hc (fun e _ => isLookedAt hc e.2) name path).exists_eq_ok
  exact ⟨found, hfound⟩

end Binding

/-! ### Elements of records -/

namespace Markup

open Binding (Gives AreData areData_nil areData_dictOf gives_mapM gives_filterMapM gives_describe_of_isDescribed)

/-- An element that is read as data without faults, whatever it is read for. -/
structure Part.IsRead (p : Part) : Prop where
  value : ∀ d, Gives (fun _ => False) Value.IsData (p.value d)
  entries : ∀ d, Gives (fun _ => False) AreData (p.entries d)

theorem gives_readPlace {parts : List Part} (hparts : ∀ p ∈ parts, p.IsRead) (attributes : List (String × String))
    (d : Descriptor) :
    Gives (fun _ => False) (fun found => ∀ v ∈ found, Value.IsData v) (readPlace attributes parts d) := by
  unfold readPlace
  split
  · rintro _ ⟨⟩
  · split
    · intro v hv
      obtain ⟨s, -, rfl⟩ := Option.map_eq_some_iff.mp hv
      exact .text s
    · split
      · rintro _ ⟨⟩
      · rename_i p rest hfound
        have hread : ∀ q ∈ p :: rest, q.IsRead := by
          rw [← hfound]
          exact fun q hq => hparts q (List.mem_filter.mp hq).1
        have hvalues : ∀ q ∈ p :: rest, Gives (fun _ => False) Value.IsData (q.value d) :=
          fun q hq => (hread q hq).value d
        split
        · refine (gives_mapM hvalues).bind fun xs hxs => ?_
          rintro _ ⟨⟩
          exact .list hxs
        · refine ((hread p List.mem_cons_self).entries d).bind fun es hes => ?_
          rintro _ ⟨⟩
          exact .dict (areData_dictOf hes)
        · refine (hvalues p List.mem_cons_self).bind fun v hv => ?_
          rintro _ ⟨⟩
          exact hv

theorem gives_readPlaces (hc : c.IsDescribed) {parts : List Part} (hparts : ∀ p ∈ parts, p.IsRead) (model : String)
    (attributes : List (String × String)) :
    Gives (fun _ => False) AreData (readPlaces c model attributes parts) := by
  unfold readPlaces
  split
  · exact areData_nil
  · rename_i m hm
    refine (gives_describe_of_isDescribed hc hm).bind fun fields _ => ?_
    refine (gives_filterMapM (fun e : Value × Value => e.2.IsData) (fun d => ?_) fields).bind fun found hfound => ?_
    · refine (gives_readPlace hparts attributes d).bind fun v hv e he => ?_
      obtain ⟨w, hw, rfl⟩ := Option.map_eq_some_iff.mp he
      exact hv w hw
    · exact areData_dictOf hfound

mutual

theorem isRead_part (hc : c.IsDescribed) (e : Element) : (part c e).IsRead := by
  cases e with
  | mk name attributes text children tail =>
      have hchildren := forall_isRead_partsOf hc children
      have hvalue : ∀ d, Gives (fun _ => False) Value.IsData
          ((part c (.mk name attributes text children tail)).value d) := by
        intro d
        simp only [part]
        split
        · rename_i model _
          obtain ⟨es, hes, hdata⟩ := (gives_readPlaces hc hchildren model attributes).exists_eq_ok
          rw [hes]
          exact .dict hdata
        · exact .text text
      refine ⟨hvalue, fun d => ?_⟩
      simp only [part]
      refine gives_mapM fun p hp => ?_
      have hp := hchildren p (List.mem_filter.mp hp).1
      exact (hp.value d).bind fun v hv => hv

theorem forall_isRead_partsOf (hc : c.IsDescribed) (es : List Element) : ∀ p ∈ partsOf c es, p.IsRead := by
  cases es with
  | nil => exact List.forall_mem_nil _
  | cons e rest =>
      have hfirst := isRead_part hc e
      have hlater := forall_isRead_partsOf hc rest
      exact List.forall_mem_cons.mpr ⟨hfirst, hlater⟩

end

/-- An element is read as data for every model. -/
theorem exists_entries (hc : c.IsDescribed) (model : String) (e : Element) :
    ∃ es, e.entries c model = .ok es ∧ AreData es :=
  (gives_readPlaces hc (forall_isRead_partsOf hc e.children) model e.attributes).exists_eq_ok

end Markup
end Intake
