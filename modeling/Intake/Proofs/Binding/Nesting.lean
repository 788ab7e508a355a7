import Intake.Proofs.Binding.Silence

/-!
A record inside another is read as if it stood alone. Under the key of the record, the parts of a request
offer what parts with that key taken off would offer to the record by itself, and the places of its errors
stand behind its own place. Texts, arrays, the brackets of maps and further records each look their keys up
in their own way; every one of them finds under the longer key what it would find under the shorter one.
-/

namespace Intake.Binding

open Validation (IsBehind)

variable {c : Catalogue} {root p q : String}

/-! ### Keys behind others -/

theorem keyUnder_of_isBehind {base inner : String} (h : IsBehind p base inner) (name : String) :
    keyUnder base name = p ++ "." ++ keyUnder inner name :=
  h name

/-- What is left of a key that begins with another one and a point. -/
def strippedKey? (outer key : String) : Option String :=
  (Text.afterStart? (outer ++ ".").toList key.toList).map String.ofList

theorem strippedKey?_eq_some_iff {outer key rest : String} :
    strippedKey? outer key = some rest ↔ key = outer ++ "." ++ rest := by
  constructor
  · intro hrest
    obtain ⟨left, hleft, rfl⟩ := Option.map_eq_some_iff.mp hrest
    apply String.toList_inj.mp
    rw [Text.afterStart?_eq_some_iff.mp hleft]
    simp
  · rintro rfl
    have hleft : Text.afterStart? (outer ++ ".").toList (outer ++ "." ++ rest).toList = some rest.toList :=
      Text.afterStart?_eq_some_iff.mpr (by simp)
    rw [strippedKey?, hleft, Option.map_some, String.ofList_toList]

/-- The brackets behind a longer name are those behind the name, in what is left of the key. -/
theorem bracketed?_behind (outer name key : String) :
    bracketed? (outer ++ "." ++ name) key = (strippedKey? outer key).bind (bracketed? name) := by
  apply Option.ext
  intro entry
  rw [bracketed?_eq_some_iff, Option.bind_eq_some_iff]
  constructor
  · rintro rfl
    exact ⟨name ++ "[" ++ entry ++ "]", strippedKey?_eq_some_iff.mpr (by simp [String.append_assoc]),
      bracketed?_eq_some_iff.mpr rfl⟩
  · rintro ⟨rest, hrest, hentry⟩
    rw [strippedKey?_eq_some_iff.mp hrest, bracketed?_eq_some_iff.mp hentry]
    simp [String.append_assoc]

/-! ### What is offered inside a record -/

/-- What a part of a request offers inside a record: what it offers behind the key of the record, under what is
left of the keys. -/
def Offer.inside (outer : String) (o : Offer) : Offer :=
  ⟨o.source, fun key => o.values (outer ++ "." ++ key), o.keys.filterMap (strippedKey? outer)⟩

@[simp] theorem Offer.inside_source (outer : String) (o : Offer) : (o.inside outer).source = o.source := rfl

/-- Keys of records can be asked for in every part that offers what is inside them. -/
theorem Offer.read_inside {o : Offer} (ho : o.source.isNested = true) (outer key : String) :
    (o.inside outer).read key = o.read (outer ++ "." ++ key) := by
  have hheader := not_header_of_isNested ho
  rw [read_of_not_header hheader, read_of_not_header (o := o.inside outer) hheader]
  rfl

theorem AreNested.filter {offers : List Offer} (h : AreNested offers) (chosen : Offer → Bool) :
    AreNested (offers.filter chosen) :=
  fun o ho => h o (List.mem_of_mem_filter ho)

/-- Which offers a field admits does not depend on their keys. -/
theorem admitted_inside (d : Descriptor) (outer : String) (offers : List Offer) :
    admitted d (offers.map (Offer.inside outer)) = (admitted d offers).map (Offer.inside outer) := by
  rw [admitted, List.filter_map]
  rfl

theorem nested_inside (outer : String) (offers : List Offer) :
    (offers.map (Offer.inside outer)).filter (fun o => o.source.isNested) =
      (offers.filter fun o => o.source.isNested).map (Offer.inside outer) := by
  rw [List.filter_map]
  rfl

/-! ### One field -/

/-- The same document, with errors that are found behind a way. -/
def Decoded.under (place : String) (found : Decoded) : Decoded :=
  ⟨found.entries, found.errors.map (FieldError.under place)⟩

/-- The same value, with errors that are found behind a way. -/
def Reading.under (place : String) (found : Reading) : Reading :=
  ⟨found.value, found.errors.map (FieldError.under place)⟩

/-- The same finding, with errors that are found behind a way. -/
def foundUnder {α : Type} (place : String) (found : α × List FieldError) : α × List FieldError :=
  (found.1, found.2.map (FieldError.under place))

section Field

variable {d : Descriptor} {offers : List Offer} {base inner : String}

theorem firstTexts_inside (hbase : IsBehind p base inner) (hnested : AreNested offers) :
    firstTexts d base offers = firstTexts d inner (offers.map (Offer.inside p)) := by
  induction offers with
  | nil => rfl
  | cons o rest ih =>
      obtain ⟨ho, hrest⟩ := List.forall_mem_cons.mp hnested
      rw [List.map_cons, firstTexts, firstTexts, keyUnder_of_isBehind hbase, Offer.inside_source,
        Offer.read_inside ho, ih hrest]

theorem readItems_under (path : String) (raws : List String) :
    readItems d (q ++ "." ++ path) raws = (readItems d path raws).map (foundUnder q) := by
  unfold readItems
  dsimp only
  split
  · rfl
  · refine bind_eq_map fun outcomes => ?_
    simp [foundUnder, FieldError.under, Except.map]

theorem readLeaf_inside (hbase : IsBehind p base inner) (hnested : AreNested offers) (path : String) :
    readLeaf d base (q ++ "." ++ path) offers =
      (readLeaf d inner path (offers.map (Offer.inside p))).map (Reading.under q) := by
  unfold readLeaf
  rw [firstTexts_inside hbase hnested]
  refine bind_eq_map fun raws => ?_
  cases raws with
  | nil => rfl
  | cons raw rest =>
      dsimp only
      split
      · exact bind_eq_map_of_forall (readItems_under path _) fun _ => rfl
      · split
        · rfl
        · refine bind_eq_map fun outcome => ?_
          cases outcome <;> rfl

theorem readMember_under (path entry : String) (raws : List String) :
    readMember c d (q ++ "." ++ path) entry raws = (readMember c d path entry raws).map (foundUnder q) := by
  unfold readMember
  refine bind_eq_map fun outcome => ?_
  cases outcome with
  | error why => rfl
  | ok key =>
      cases raws with
      | nil => rfl
      | cons raw rest =>
          dsimp only
          split
          · rfl
          · refine bind_eq_map fun outcome => ?_
            cases outcome <;> rfl

theorem readMap_inside {o : Offer} (ho : o.source.isNested = true) (name path : String) :
    readMap c d (p ++ "." ++ name) (q ++ "." ++ path) o =
      (readMap c d name path (o.inside p)).map (foundUnder q) := by
  unfold readMap
  refine bind_eq_map_of_forall (?_ : _ = Except.map (List.map (foundUnder q)) _) fun members => ?_
  · rw [show (o.inside p).keys = o.keys.filterMap (strippedKey? p) from rfl, filterMapM_filterMap]
    refine filterMapM_map_of_forall (fun key => ?_) o.keys
    rw [bracketed?_behind]
    cases hrest : strippedKey? p key with
    | none => rfl
    | some rest =>
        rw [Option.bind_some]
        dsimp only
        cases bracketed? name rest with
        | none => rfl
        | some entry =>
            dsimp only
            rw [Offer.read_inside ho, ← strippedKey?_eq_some_iff.mp hrest]
            refine bind_eq_map fun raws => ?_
            exact bind_eq_map_of_forall (readMember_under path entry raws) fun _ => rfl
  · simp [foundUnder, Except.map, List.filterMap_map, Function.comp_def, List.flatMap_map, List.map_flatMap]

theorem readMaps_inside (hbase : IsBehind p base inner) (hnested : AreNested offers) (path : String) :
    readMaps c d base (q ++ "." ++ path) offers =
      (readMaps c d inner path (offers.map (Offer.inside p))).map (Reading.under q) := by
  induction offers with
  | nil => rfl
  | cons o rest ih =>
      obtain ⟨ho, hrest⟩ := List.forall_mem_cons.mp hnested
      rw [List.map_cons, readMaps, readMaps, keyUnder_of_isBehind hbase, Offer.inside_source]
      refine bind_eq_map_of_forall (readMap_inside ho _ path) fun found => ?_
      dsimp only [foundUnder]
      split
      · refine bind_eq_map_of_forall (ih hrest) fun later => ?_
        simp [Reading.under, Except.map]
      · rfl

/-- A field is read inside a record as it is read alone, as far as that holds for records. -/
theorem readField_inside (hbase : IsBehind p base inner) (hnested : AreNested offers) {path innerPath : String}
    (hpath : IsBehind q path innerPath)
    {record record' : String → List Offer → String → String → Except Fault Decoded}
    (hrecord : ∀ model, d.kind = .record → d.model = some model → ∀ offers, AreNested offers →
      record model offers (keyUnder base d.formName) (Validation.join path d.wireName) =
        (record' model (offers.map (Offer.inside p)) (keyUnder inner d.formName)
          (Validation.join innerPath d.wireName)).map (Decoded.under q)) :
    readField c record offers base path d =
      (readField c record' (offers.map (Offer.inside p)) inner innerPath d).map (Reading.under q) := by
  have hadmitted : AreNested (admitted d offers) := hnested.filter _
  have hchosen : AreNested ((admitted d offers).filter fun o => o.source.isNested) := hadmitted.filter _
  unfold readField
  dsimp only
  rw [admitted_inside, nested_inside, List.isEmpty_map]
  split
  · rfl
  · rename_i model hkind hmodel
    split
    · rfl
    · exact bind_eq_map_of_forall (hrecord model hkind hmodel _ hchosen) fun _ => rfl
  · rw [hpath]
    exact readMaps_inside hbase hchosen _
  · rw [hpath]
    exact readLeaf_inside hbase hadmitted _

end Field

/-! ### Records -/

theorem readFields_under {read read' : Descriptor → Except Fault Reading} {fields : List Descriptor}
    (hread : ∀ d ∈ fields, read d = (read' d).map (Reading.under q)) :
    readFields read fields = (readFields read' fields).map (Decoded.under q) := by
  induction fields with
  | nil => rfl
  | cons d rest ih =>
      obtain ⟨hd, hrest⟩ := List.forall_mem_cons.mp hread
      rw [readFields, readFields]
      split
      · exact ih hrest
      · refine bind_eq_map_of_forall hd fun found => ?_
        refine bind_eq_map_of_forall (ih hrest) fun others => ?_
        simp [Decoded.under, Reading.under, Except.map]

/-- Every field of a model, and of the records inside its records, has a name. -/
def HasNames (c : Catalogue) (root : String) : Prop :=
  ∀ name m, Relation.ReflTransGen (Encloses c) root name → c.model? name = some m → ∀ f ∈ m.fields, f.name ≠ ""

theorem hasNames_of_models {c : Catalogue} {root : String} (hall : ∀ m ∈ c.models, ∀ f ∈ m.fields, f.name ≠ "") :
    HasNames c root :=
  fun _ m _ hm => hall m (List.mem_of_find?_eq_some hm)

theorem wireName_ne_empty {f : Field} (hname : f.name ≠ "") : f.wireName ≠ "" := by
  unfold Field.wireName
  split
  · split
    · exact hname
    · rename_i hkey
      simpa using hkey
  · exact hname

/-- A field with a name has one in documents and one in forms. -/
theorem names_ne_empty {f : Field} {d : Descriptor} (hd : c.describeField f = .ok d) (hname : f.name ≠ "") :
    d.wireName ≠ "" ∧ d.formName ≠ "" := by
  have hwire := wireName_ne_empty hname
  refine ⟨by rwa [(Catalogue.names_of_describeField hd).2.1], ?_⟩
  rw [Catalogue.describeField] at hd
  dsimp only at hd
  split at hd
  · cases hd
    dsimp only
    split
    · exact hwire
    · unfold givenOr
      split
      · split
        · exact hwire
        · rename_i hgiven
          simpa using hgiven
      · exact hwire
  · cases hd

/-- A record is read behind a key and a way, at any depth, as the record alone is read from what is inside. -/
theorem readRecord_inside (hnames : HasNames c root) (depth : Nat) {name : String}
    (hreach : Relation.ReflTransGen (Encloses c) root name) {offers : List Offer} (hnested : AreNested offers)
    {base inner path innerPath : String} (hbase : IsBehind p base inner) (hpath : IsBehind q path innerPath) :
    readRecord c depth name offers base path =
      (readRecord c depth name (offers.map (Offer.inside p)) inner innerPath).map (Decoded.under q) := by
  induction depth generalizing name offers base inner path innerPath with
  | zero => rfl
  | succ depth ih =>
      rw [readRecord, readRecord]
      cases hm : c.model? name with
      | none => rfl
      | some m =>
          dsimp only
          cases hdescribe : Action.describe c m with
          | error fault => rfl
          | ok fields =>
              have hfields := Action.of_describe_eq_ok hdescribe
              have hread : ∀ d ∈ fields, readField c (readRecord c depth) offers base path d =
                  (readField c (readRecord c depth) (offers.map (Offer.inside p)) inner innerPath d).map
                    (Reading.under q) := by
                intro d hd
                obtain ⟨f, hf, hdescribed⟩ := Catalogue.exists_field_of_mem_describe hfields hd
                obtain ⟨hwire, hform⟩ := names_ne_empty hdescribed (hnames name m hreach hm f hf)
                refine readField_inside hbase hnested hpath fun model hkind hmodel some hsome => ?_
                have hmodelReach := hreach.tail (encloses_of_describe hm hfields hd hkind hmodel)
                exact ih hmodelReach hsome (hbase.join hform) (hpath.join hwire)
              rw [ok_bind, ok_bind]
              exact bind_eq_map_of_forall (readFields_under hread) fun _ => rfl

/-- The records that are read from nested offers are read from nested offers. -/
theorem areNested_of_calls {offers : List Offer} (hnested : AreNested offers) {call : String × List Offer}
    (hreach : Relation.ReflTransGen (Calls c) (root, offers) call) :
    Relation.ReflTransGen (Encloses c) root call.1 ∧ AreNested call.2 := by
  induction hreach with
  | refl => exact ⟨.refl, hnested⟩
  | tail _ hcall ih => exact ⟨ih.1.tail hcall.encloses, fun o ho => ih.2 o (hcall.sublist.subset ho)⟩

/-- A model that is in no record of its own is read from nested offers, if its texts are. -/
theorem exists_decodeStrings_of_areNested (hunfolded : IsUnfolded c root)
    (hlegible : ∀ name, Relation.ReflTransGen (Encloses c) root name → IsLegible c name) {offers : List Offer}
    (hnested : AreNested offers) : ∃ found, decodeStrings c root offers = .ok found := by
  have hread : Gives (fun _ => False) (fun _ => True) (decodeStrings c root offers) := by
    refine gives_decodeStrings_of_calls (hunfolded.not_recurs offers) fun call hcall => ?_
    obtain ⟨hname, hoffers⟩ := areNested_of_calls hnested hcall
    exact (hlegible call.1 hname).isReadBy_of_areNested hoffers _
  obtain ⟨found, hfound, -⟩ := hread.exists_eq_ok
  exact ⟨found, hfound⟩

/-- A record is read behind a key and a way as it is read alone from what the offers hold behind the key, with the
keys stripped: the document is the same, and the errors are the same in the same order, each behind the way. It is
so at every depth, also where reading fails; the depth that reading a record alone is given is enough, and reading
fails only by what is declared. -/
theorem readRecord_eq_decodeStrings_inside (hunfolded : IsUnfolded c root) (hnames : HasNames c root)
    {offers : List Offer} (hnested : AreNested offers) (hp : p ≠ "") (hq : q ≠ "") :
    (∀ depth, readRecord c depth root offers p q =
      (readRecord c depth root (offers.map (Offer.inside p)) "" "").map (Decoded.under q)) ∧
    Gives Fault.IsDeclared (fun found => ∀ depth, Catalogue.depthBound c offers ≤ depth →
        readRecord c depth root offers p q = .ok (found.under q))
      (decodeStrings c root (offers.map (Offer.inside p))) ∧
    ((∀ name, Relation.ReflTransGen (Encloses c) root name → IsLegible c name) →
      ∃ found, decodeStrings c root (offers.map (Offer.inside p)) = .ok found) := by
  have hsame : ∀ depth, readRecord c depth root offers p q =
      (readRecord c depth root (offers.map (Offer.inside p)) "" "").map (Decoded.under q) := fun depth =>
    readRecord_inside hnames depth .refl hnested (Validation.isBehind_top hp) (Validation.isBehind_top hq)
  refine ⟨hsame, ?_, fun hlegible => ?_⟩
  · have hends := gives_decodeStrings hunfolded (offers.map (Offer.inside p))
    cases hread : decodeStrings c root (offers.map (Offer.inside p)) with
    | error fault =>
        rw [hread] at hends
        exact hends
    | ok found =>
        intro depth hdepth
        have hbound : Catalogue.depthBound c (offers.map (Offer.inside p)) ≤ depth := by
          rwa [Catalogue.depthBound, List.length_map]
        rw [hsame, readRecord_of_le hread hbound]
        rfl
  · refine exists_decodeStrings_of_areNested hunfolded hlegible fun o ho => ?_
    obtain ⟨outer, houter, rfl⟩ := List.mem_map.mp ho
    exact hnested outer houter

/-- A shelf has a place in a row, tags, and counts of what lies on it. -/
def shelfCatalogue : Catalogue :=
  ⟨[plainModel "Shelf" [plainField "counts" (.dict .str .int), plainField "tags" (.list .str),
      plainField "place" (.record "Place")],
    plainModel "Place" [plainField "row" .int]], []⟩

/-- What a query and a form offer for a shelf in the stock, and for one that is in none. -/
def shelfOffers : List Offer :=
  [offering .query [("stock.counts[nut]", "3"), ("counts[nail]", "9"), ("stock.counts[bolt]", "many")],
    offering .form [("stock.place.row", "two"), ("stock.tags", "spare"), ("tags", "new")]]

theorem isUnfolded_shelf : IsUnfolded shelfCatalogue "Shelf" :=
  isUnfolded_of_rank (fun name => if name = "Shelf" then 1 else 0) (by decide)

theorem hasNames_shelf : HasNames shelfCatalogue "Shelf" := hasNames_of_models (by decide)

/-- What is read of the shelf in the stock: neither a number of bolts nor a row, nothing of nails, and one tag. -/
def shelfRead : Decoded :=
  ⟨[(.text "counts", .dict [(.text "nut", .int 3)]), (.text "tags", .list [.text "spare"])],
    [⟨"counts", "invalid map value for key 'bolt': invalid integer"⟩, ⟨"place.row", "invalid integer"⟩]⟩

/-- The shelf in the stock is read as it is read alone. -/
theorem readRecord_eq_decodeStrings_inside_shelf :
    decodeStrings shelfCatalogue "Shelf" (shelfOffers.map (Offer.inside "stock")) = .ok shelfRead ∧
    readRecord shelfCatalogue 9 "Shelf" shelfOffers "stock" "order.stock" =
      .ok ⟨shelfRead.entries, [⟨"order.stock.counts", "invalid map value for key 'bolt': invalid integer"⟩,
        ⟨"order.stock.place.row", "invalid integer"⟩]⟩ := by
  have hread : decodeStrings shelfCatalogue "Shelf" (shelfOffers.map (Offer.inside "stock")) = .ok shelfRead := by
    with_unfolding_all rfl
  have hnested : AreNested shelfOffers := by decide
  have hinside := (readRecord_eq_decodeStrings_inside (p := "stock") (q := "order.stock") isUnfolded_shelf
    hasNames_shelf hnested (by decide) (by decide)).2.1
  rw [hread] at hinside
  exact ⟨hread, hinside 9 (by decide)⟩

end Intake.Binding
