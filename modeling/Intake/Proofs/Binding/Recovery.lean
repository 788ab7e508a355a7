import Intake.Binding.Recovery
import Intake.Proofs.Binding.Reading
import Intake.Proofs.Model.Instance
import Intake.Proofs.Shape.Refusal

/-!
Records from texts of which some are rejected. A record is built once more without the fields that are rejected,
and these have what a missing key stands for. This is kept up as long as every such field can fall back on
something: a default, or a zero value that the field takes. If one of them cannot, what was read for all
other fields is lost with it.
-/

namespace Intake.Binding

open Shape (Takes Settles fitRecord entriesFor)

variable {c : Catalogue} {m : Model} {name : String}

/-- Records inside the record that is built. -/
def innerRecord (c : Catalogue) : String → Value → Shape.Fitted := fitRecord c (Shape.maxDepth - 1)

/-- A field that takes what stands under its key. -/
def IsTaken (c : Catalogue) (entries : List (Value × Value)) (f : Field) : Prop :=
  ∃ w v, Value.lookupText f.wireName entries = some w ∧ Takes c (innerRecord c) f w v

/-- A record that keeps what was read: every field is set, to what it takes from under its key, or, if there is
nothing that it takes, to its default or to what comes of its zero value. -/
def Keeps (c : Catalogue) (m : Model) (entries : List (Value × Value)) (x : Value) : Prop :=
  ∃ value : Field → Value, x = .record m.name (m.fields.map fun f => (f.name, value f)) ∧
    ∀ f ∈ m.fields,
      (∃ w, Value.lookupText f.wireName entries = some w ∧ Takes c (innerRecord c) f w (value f)) ∨
        (¬IsTaken c entries f ∧ Settles c (innerRecord c) f (value f) none)

/-- Whether every field that takes nothing from under its key can fall back on something. -/
def CanFallBack (c : Catalogue) (m : Model) (entries : List (Value × Value)) : Prop :=
  ∀ f ∈ m.fields, ¬IsTaken c entries f → ∃ v, Settles c (innerRecord c) f v none

section build

variable {ds : List Descriptor} {found : Field → Option Value}

/-- The document without what is rejected holds what was found for the other fields. -/
theorem withoutRejected_entriesFor {rejections : List Rejection} {kept : Field → Option Value}
    (hkept : ∀ f ∈ m.fields, kept f =
      if (rejections.filterMap rejectedKey?).contains f.wireName then none else found f) :
    withoutRejected rejections (Value.textEntries (entriesFor m.fields found)) =
      Value.textEntries (entriesFor m.fields kept) := by
  unfold withoutRejected Value.textEntries entriesFor
  dsimp only
  generalize rejections.filterMap rejectedKey? = keys at hkept ⊢
  rw [List.map_filterMap, List.filter_filterMap, List.map_filterMap]
  apply List.filterMap_congr
  intro f hf
  rw [hkept f hf]
  cases found f with
  | none => simp
  | some w => by_cases hrejected : f.wireName ∈ keys <;> simp [Value.text?, Option.filter, hrejected]

/-- A field that gets a value from what was found for it. -/
def GetsValue (c : Catalogue) (found : Field → Option Value) (f : Field) : Prop :=
  ∃ v, Settles c (innerRecord c) f v (found f)

theorem build_of_getsValue (hm : c.model? name = some m) (hstrict : m.strictness = .strict)
    (hds : c.describe m = .ok ds) (hapart : m.fields.Pairwise Field.Apart)
    (hall : ∀ f ∈ m.fields, GetsValue c found f) :
    ∃ value : Field → Value,
      Shape.build c name (.dict (Value.textEntries (entriesFor m.fields found))) =
        .ok (.record m.name (m.fields.map fun f => (f.name, value f))) ∧
      ∀ f ∈ m.fields, Settles c (innerRecord c) f (value f) (found f) := by
  choose! value hvalue using hall
  obtain ⟨built, hbuilt, hrecord⟩ := Shape.fitRecord_of_settles hm hstrict hds hapart hvalue
  refine ⟨value, ?_, hvalue⟩
  rw [Shape.build, show Shape.maxDepth = Shape.maxDepth - 1 + 1 from rfl, hbuilt, ← hrecord]
  rfl

theorem build_of_not_getsValue (hm : c.model? name = some m) (hstrict : m.strictness = .strict)
    (hds : c.describe m = .ok ds) (hapart : m.fields.Pairwise Field.Apart)
    (hsome : ∃ f ∈ m.fields, ¬GetsValue c found f) :
    ∃ rejections, Shape.build c name (.dict (Value.textEntries (entriesFor m.fields found))) = .error rejections ∧
      ∀ f ∈ m.fields, f.wireName ∈ rejections.filterMap rejectedKey? ↔ ¬GetsValue c found f := by
  obtain ⟨rejections, hrefused, hwhy, hall⟩ := Shape.fitRecord_of_unsettled hm hstrict hds hapart hsome
  refine ⟨rejections, ?_, fun f hf => ?_⟩
  · rw [Shape.build, show Shape.maxDepth = Shape.maxDepth - 1 + 1 from rfl, hrefused]
    rfl
  constructor
  · intro hrejected
    obtain ⟨r, hr, hkey⟩ := List.mem_filterMap.mp hrejected
    obtain ⟨g, hg, hunsettled, rest, hpath⟩ := hwhy r hr
    have hsame : g.wireName = f.wireName := by simpa [rejectedKey?, hpath] using hkey
    rwa [List.inj_on_of_nodup_map (Shape.nodup_wireNames hapart) hg hf hsame] at hunsettled
  · intro hunsettled
    obtain ⟨r, hr, rest, hpath⟩ := hall f hf hunsettled
    exact List.mem_filterMap.mpr ⟨r, hr, by simp [rejectedKey?, hpath]⟩

/-- A field takes nothing from under its key when it gets no value, or when nothing is there. -/
theorem not_isTaken_iff {entries : List (Value × Value)} {f : Field}
    (hlookup : Value.lookupText f.wireName entries = found f) :
    ¬IsTaken c entries f ↔ ¬GetsValue c found f ∨ found f = none := by
  unfold IsTaken GetsValue
  rw [hlookup]
  cases hw : found f with
  | none => simp
  | some w => simp [Settles]

open Classical in
/-- What was found for the fields that get a value from it. -/
noncomputable def keptOf (c : Catalogue) (found : Field → Option Value) (f : Field) : Option Value :=
  if GetsValue c found f then found f else none

theorem keeps_of_settles {entries : List (Value × Value)} {value : Field → Value}
    (hlookup : ∀ f ∈ m.fields, Value.lookupText f.wireName entries = found f)
    (hvalue : ∀ f ∈ m.fields, Settles c (innerRecord c) f (value f) (keptOf c found f)) :
    Keeps c m entries (.record m.name (m.fields.map fun f => (f.name, value f))) := by
  refine ⟨value, rfl, fun f hf => ?_⟩
  have hsettles := hvalue f hf
  by_cases hgets : GetsValue c found f
  · rw [keptOf, if_pos hgets] at hsettles
    cases hw : found f with
    | none =>
        rw [hw] at hsettles
        exact .inr ⟨(not_isTaken_iff (hlookup f hf)).mpr (.inr hw), hsettles⟩
    | some w =>
        rw [hw] at hsettles
        exact .inl ⟨w, (hlookup f hf).trans hw, hsettles⟩
  · rw [keptOf, if_neg hgets] at hsettles
    exact .inr ⟨(not_isTaken_iff (hlookup f hf)).mpr (.inl hgets), hsettles⟩

/-- Every field gets a value from what is kept exactly when every field can fall back that has to. -/
theorem forall_getsValue_keptOf_iff {entries : List (Value × Value)}
    (hlookup : ∀ f ∈ m.fields, Value.lookupText f.wireName entries = found f) :
    (∀ f ∈ m.fields, GetsValue c (keptOf c found) f) ↔ CanFallBack c m entries := by
  refine forall₂_congr fun f hf => ?_
  rw [not_isTaken_iff (hlookup f hf)]
  unfold GetsValue keptOf
  by_cases hgets : GetsValue c found f
  · rw [if_pos hgets]
    constructor
    · rintro - (hnot | hnone)
      · exact absurd hgets hnot
      · rwa [GetsValue, hnone] at hgets
    · exact fun _ => hgets
  · rw [if_neg hgets]
    constructor
    · exact fun hback _ => hback
    · exact fun hback => hback (.inl hgets)

/-- What becomes of a document that holds something for some fields: the record keeps it, if the fields that have
to can fall back, and otherwise has nothing but defaults. -/
theorem buildValue_entriesFor (hm : c.model? name = some m) (hstrict : m.strictness = .strict)
    (hds : c.describe m = .ok ds) (hapart : m.fields.Pairwise Field.Apart) {entries : List (Value × Value)}
    (hentries : entries = Value.textEntries (entriesFor m.fields found)) :
    (CanFallBack c m entries → Keeps c m entries (buildValue c name entries).1) ∧
      (¬CanFallBack c m entries → (buildValue c name entries).1 = Shape.construct c name []) := by
  have hlookup : ∀ f ∈ m.fields, Value.lookupText f.wireName entries = found f := by
    intro f hf
    rw [hentries, Value.lookupText_textEntries, Shape.lookup_entriesFor hapart hf]
  rw [← forall_getsValue_keptOf_iff hlookup]
  by_cases hall : ∀ f ∈ m.fields, GetsValue c found f
  · have hkept : ∀ f ∈ m.fields, keptOf c found f = found f := fun f hf => if_pos (hall f hf)
    obtain ⟨value, hbuild, hvalue⟩ := build_of_getsValue hm hstrict hds hapart hall
    rw [buildValue, hentries, hbuild, ← hentries]
    refine ⟨fun _ => keeps_of_settles hlookup fun f hf => by rw [hkept f hf]; exact hvalue f hf, fun hnot => ?_⟩
    refine absurd (fun f hf => ?_) hnot
    rw [GetsValue, hkept f hf]
    exact hall f hf
  · push Not at hall
    obtain ⟨rejections, hbuild, hkeys⟩ := build_of_not_getsValue hm hstrict hds hapart hall
    have hkept : ∀ f ∈ m.fields, keptOf c found f =
        if (rejections.filterMap rejectedKey?).contains f.wireName then none else found f := by
      intro f hf
      by_cases hgets : GetsValue c found f
      · have hkey : f.wireName ∉ rejections.filterMap rejectedKey? := fun h => (hkeys f hf).mp h hgets
        simp [keptOf, hgets, hkey]
      · have hkey : f.wireName ∈ rejections.filterMap rejectedKey? := (hkeys f hf).mpr hgets
        rw [keptOf, if_neg hgets, if_pos (List.contains_iff_mem.mpr hkey)]
    rw [buildValue, hentries, hbuild, ← hentries]
    dsimp only
    rw [hentries, withoutRejected_entriesFor hkept, ← hentries]
    by_cases hback : ∀ f ∈ m.fields, GetsValue c (keptOf c found) f
    · obtain ⟨value, hrebuild, hvalue⟩ := build_of_getsValue hm hstrict hds hapart hback
      rw [hrebuild]
      exact ⟨fun _ => keeps_of_settles hlookup hvalue, fun hnot => absurd hback hnot⟩
    · have hlost := hback
      push Not at hlost
      obtain ⟨later, hrebuild, -⟩ := build_of_not_getsValue hm hstrict hds hapart hlost
      rw [hrebuild]
      exact ⟨fun h => absurd h hback, fun _ => rfl⟩

end build

/-- What is read from texts holds something for some fields. -/
theorem exists_entriesFor {depth : Nat} {offers : List Offer} {base path : String} {found : Decoded}
    (hm : c.model? name = some m) (hapart : m.fields.Pairwise Field.Apart)
    (hread : readRecord c (depth + 1) name offers base path = .ok found) :
    ∃ (ds : List Descriptor) (held : Field → Option Value), c.describe m = .ok ds ∧
      found.entries = Value.textEntries (entriesFor m.fields held) := by
  cases hds : c.describe m with
  | error e =>
      rw [readRecord] at hread
      simp only [hm, Action.describe, hds] at hread
      cases hread
  | ok ds =>
      obtain ⟨rfl, hdescribed⟩ := Catalogue.describe_eq_map hds
      have hwire : ∀ f ∈ m.fields, (c.descriptorOf f).wireName = f.wireName := fun f hf =>
        (Catalogue.names_of_describeField (hdescribed f hf)).2.1
      have hsame : (m.fields.map c.descriptorOf).map Descriptor.wireName = m.fields.map Field.wireName := by
        rw [List.map_map]
        exact List.map_congr_left hwire
      obtain ⟨reading, hentries, -⟩ :=
        exists_readings hm hds (by rw [hsame]; exact Shape.nodup_wireNames hapart) hread
      refine ⟨_, fun f => (reading (c.descriptorOf f)).value, rfl, ?_⟩
      rw [hentries, List.filterMap_map]
      congr 1
      exact List.filterMap_congr fun f hf => by rw [Function.comp_apply, hwire f hf]

/-- A record that is built from texts keeps what was read for every field exactly when every field that takes
nothing from under its key can fall back on something; if one cannot, all that was read is lost. -/
theorem buildValue_keeps_iff (hm : c.model? name = some m) (hstrict : m.strictness = .strict)
    (hapart : m.fields.Pairwise Field.Apart) {offers : List Offer} {found : Decoded}
    (hread : decodeStrings c name offers = .ok found) :
    (Keeps c m found.entries (buildValue c name found.entries).1 ↔ CanFallBack c m found.entries) ∧
      (¬CanFallBack c m found.entries → (buildValue c name found.entries).1 = Shape.construct c name []) := by
  have hdepth : ∃ depth, Catalogue.depthBound c offers = depth + 1 :=
    Nat.exists_eq_succ_of_ne_zero (Nat.mul_ne_zero (Nat.succ_ne_zero _) (Nat.succ_ne_zero _))
  obtain ⟨depth, hdepth⟩ := hdepth
  rw [decodeStrings, hdepth] at hread
  obtain ⟨ds, held, hds, hentries⟩ := exists_entriesFor hm hapart hread
  obtain ⟨hkeeps, hloses⟩ := buildValue_entriesFor hm hstrict hds hapart hentries
  refine ⟨⟨?_, hkeeps⟩, hloses⟩
  rintro ⟨value, -, hvalue⟩ f hf hnot
  rcases hvalue f hf with ⟨w, hw, htakes⟩ | ⟨-, hsettles⟩
  · exact absurd ⟨w, value f, hw, htakes⟩ hnot
  · exact ⟨value f, hsettles⟩

/-- An order of some copies of a title, of which at least a number have to be ordered. -/
def copiesField (least : Int) : Field := { plainField "copies" .int with constraints := ⟨some least, none, none⟩ }

def orderModel (least : Int) : Model := plainModel "Order" [copiesField least, plainField "title" .str]

def orderCatalogue (least : Int) : Catalogue := ⟨[orderModel least], []⟩

/-- What is read from a form with a number and a title. -/
def orderEntries (copies : Int) : List (Value × Value) :=
  Value.textEntries [("copies", .int copies), ("title", .text "x")]

/-- Where no copies at all may be ordered, an order of less than none keeps the title. -/
theorem buildValue_keeps_order :
    decodeStrings (orderCatalogue 0) "Order" [offering .form [("copies", "-1"), ("title", "x")]] =
      .ok ⟨orderEntries (-1), []⟩ ∧
    CanFallBack (orderCatalogue 0) (orderModel 0) (orderEntries (-1)) ∧
    Keeps (orderCatalogue 0) (orderModel 0) (orderEntries (-1))
      (buildValue (orderCatalogue 0) "Order" (orderEntries (-1))).1 := by
  have hread : decodeStrings (orderCatalogue 0) "Order" [offering .form [("copies", "-1"), ("title", "x")]] =
      .ok ⟨orderEntries (-1), []⟩ := readRecord_of_readFields rfl rfl (by decide) rfl
  have hback : CanFallBack (orderCatalogue 0) (orderModel 0) (orderEntries (-1)) := by
    intro f hf _
    simp only [orderModel, plainModel, List.mem_cons, List.not_mem_nil, or_false] at hf
    rcases hf with rfl | rfl
    · exact ⟨.int 0, _, rfl, rfl⟩
    · exact ⟨.text "", _, rfl, rfl⟩
  exact ⟨hread, hback, (buildValue_keeps_iff rfl rfl (by decide) hread).1.mpr hback⟩

theorem not_canFallBack_order : ¬CanFallBack (orderCatalogue 1) (orderModel 1) (orderEntries 0) := by
  intro hback
  obtain ⟨v, found, hfit, -⟩ := hback (copiesField 1) List.mem_cons_self (by
    rintro ⟨w, v, hw, found, hfit, -⟩
    rw [orderEntries, Value.lookupText_textEntries] at hw
    cases hw
    cases hfit)
  cases hfit

/-- Where a copy has to be ordered, an order of none is built without the title, too, although the title is taken:
the zero value of the number is rejected like the number itself. -/
theorem buildValue_keeps_fails_on_bound :
    decodeStrings (orderCatalogue 1) "Order" [offering .form [("copies", "0"), ("title", "x")]] =
      .ok ⟨orderEntries 0, []⟩ ∧
    IsTaken (orderCatalogue 1) (orderEntries 0) (plainField "title" .str) ∧
    (buildValue (orderCatalogue 1) "Order" (orderEntries 0)).1 = .record "Order" [] ∧
    ¬Keeps (orderCatalogue 1) (orderModel 1) (orderEntries 0)
      (buildValue (orderCatalogue 1) "Order" (orderEntries 0)).1 := by
  have hentries : orderEntries 0 = Value.textEntries (entriesFor (orderModel 1).fields
      fun f => if f.name = "copies" then some (.int 0) else some (.text "x")) := rfl
  have hbuild : (buildValue (orderCatalogue 1) "Order" (orderEntries 0)).1 = .record "Order" [] :=
    (buildValue_entriesFor rfl rfl rfl (by decide) hentries).2 not_canFallBack_order
  have htaken : IsTaken (orderCatalogue 1) (orderEntries 0) (plainField "title" .str) :=
    ⟨.text "x", .text "x", Value.lookupText_textEntries _ _, _, rfl, rfl⟩
  refine ⟨readRecord_of_readFields rfl rfl (by decide) rfl, htaken, hbuild, ?_⟩
  rw [hbuild]
  rintro ⟨value, hrecord, -⟩
  cases hrecord

end Intake.Binding
