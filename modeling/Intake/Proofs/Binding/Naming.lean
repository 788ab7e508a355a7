import Intake.Proofs.Binding.Isolation
import Intake.Proofs.Binding.Nesting

/-!
The keys under which leaves are looked up. The records around a leaf share one key for all parts of a request, made
of their names in forms, and only the name of the leaf itself is that of the part. So a leaf is looked up under the
names of its part at every level in forms; in a query it is, as long as the records around it are named there as in
forms.
-/

namespace Intake.Binding

variable {c : Catalogue} {root name : String} {way : List Descriptor} {leaf d : Descriptor} {offers : List Offer}

/-! ### Keys -/

/-- The keys of leaves, by the records on the way to them and by the part of the request. -/
abbrev Keying := List Descriptor → Descriptor → Source → String

/-- Names behind each other. -/
def dotted (names : List String) : String := names.foldl keyUnder ""

/-- The names of the part of the request itself, at every level. -/
def ownKey : Keying := fun way leaf source => dotted ((way ++ [leaf]).map fun d => d.nameIn source)

/-- The names in forms of the records, and the name of the part for the leaf. -/
def sharedKey : Keying := fun way leaf source => dotted (way.map Descriptor.formName ++ [leaf.nameIn source])

theorem dotted_concat (names : List String) (name : String) :
    dotted (names ++ [name]) = keyUnder (dotted names) name := by
  rw [dotted, List.foldl_append]
  rfl

theorem sharedKey_eq (way : List Descriptor) (leaf : Descriptor) (source : Source) :
    sharedKey way leaf source = keyUnder (baseOf "" way) (leaf.nameIn source) := by
  rw [sharedKey, dotted_concat, dotted, List.foldl_map]
  rfl

theorem foldl_keyUnder {base : String} (hbase : base ≠ "") (names : List String) :
    (names.foldl keyUnder base).toList = ['.'].intercalate (base.toList :: names.map String.toList) := by
  induction names generalizing base with
  | nil => simp
  | cons n rest ih =>
      have hempty : base.isEmpty = false := by simpa using hbase
      have hkey : keyUnder base n = base ++ "." ++ n := by rw [keyUnder, hempty]; rfl
      rw [List.foldl_cons, ih (keyUnder_ne_empty (.inl hbase)), hkey]
      cases rest <;> simp [List.intercalate_cons_cons]

/-- Names that are not empty are joined by points. -/
theorem dotted_eq_intercalate {names : List String} (hnames : ∀ n ∈ names, n ≠ "") :
    dotted names = ".".intercalate names := by
  apply String.toList_inj.mp
  rw [String.toList_intercalate]
  cases names with
  | nil => rfl
  | cons n rest => exact foldl_keyUnder (hnames n List.mem_cons_self) rest

/-- One name is behind two others under the same key only if these are the same. -/
theorem keyUnder_left_inj {base base' : String} (name : String) :
    keyUnder base name = keyUnder base' name ↔ base = base' := by
  refine ⟨fun hsame => ?_, fun h => by rw [h]⟩
  have hchars := congrArg String.toList hsame
  have hlength := congrArg List.length hchars
  unfold keyUnder at hchars hlength
  split at hchars <;> split at hchars
  · rename_i h h'
    rw [String.isEmpty_iff.mp h, String.isEmpty_iff.mp h']
  · rename_i h h'
    simp [h, h'] at hlength
    omega
  · rename_i h h'
    simp [h, h'] at hlength
    omega
  · apply String.toList_inj.mp
    simpa using hchars

/-- The keys of a leaf are the same exactly if the records around it come to the same key. -/
theorem sharedKey_eq_ownKey_iff (way : List Descriptor) (leaf : Descriptor) (source : Source) :
    sharedKey way leaf source = ownKey way leaf source ↔
      dotted (way.map Descriptor.formName) = dotted (way.map fun d => d.nameIn source) := by
  rw [sharedKey, ownKey, List.map_append, List.map_singleton, dotted_concat, dotted_concat, keyUnder_left_inj]

/-! ### Reading under given keys -/

/-- The texts of the first offer that has any, by the key for each part of a request. -/
def firstTextsAt (key : Source → String) : List Offer → Except Fault (List String)
  | [] => .ok []
  | o :: rest => do
    let raws ← o.read (key o.source)
    if raws.isEmpty then firstTextsAt key rest else return raws

/-- Reads a map from the first offer that has entries, by the key for each part of a request. -/
def readMapsAt (c : Catalogue) (d : Descriptor) (key : Source → String) (path : String) :
    List Offer → Except Fault Reading
  | [] => .ok .nothing
  | o :: rest => do
    let (entries, errors) ← readMap c d (key o.source) path o
    if entries.isEmpty then
      let later ← readMapsAt c d key path rest
      return { later with errors := errors ++ later.errors }
    else return ⟨some (.dict entries), errors⟩

/-- What the texts of an array or a single value are read as. -/
def ofTexts (d : Descriptor) (path : String) : List String → Except Fault Reading
  | [] => .ok .nothing
  | raw :: more => do
    if d.kind == .array then
      let (items, errors) ← readItems d path (raw :: more)
      return ⟨some (.list items), errors⟩
    else if raw.isEmpty then return .nothing
    else match ← readText d.kind raw (layoutOf d) with
      | .ok value => return ⟨some value, []⟩
      | .error why => return ⟨none, [⟨path, why.message⟩]⟩

/-- What is read for a leaf from offers that it admits, by the key for each part of a request. -/
def leafReadingAt (c : Catalogue) (leaf : Descriptor) (key : Source → String) (path : String) (offers : List Offer) :
    Except Fault Reading :=
  if leaf.kind = .map then readMapsAt c leaf key path offers else firstTextsAt key offers >>= ofTexts leaf path

/-- Reads one field of the record at the end of a way, where records are read by their models. -/
def readFieldAt (c : Catalogue) (key : Keying)
    (record : List Descriptor → String → List Offer → String → Except Fault Decoded) (way : List Descriptor)
    (offers : List Offer) (path : String) (d : Descriptor) : Except Fault Reading := do
  let path := Validation.join path d.wireName
  match d.kind, d.model with
  | .record, none => return .nothing
  | .record, some model =>
    if (offersInside d offers).isEmpty then return .nothing
    let inner ← record (way ++ [d]) model (offersInside d offers) path
    return ⟨if inner.entries.isEmpty then none else some (.dict inner.entries), inner.errors⟩
  | _, _ => leafReadingAt c d (key way d) path (offersFor [] d offers)

/-- Reads the record at the end of a way. -/
def readRecordAt (c : Catalogue) (key : Keying) :
    (depth : Nat) → List Descriptor → String → List Offer → String → Except Fault Decoded
  | 0, _, _, _, _ => .error .tooDeep
  | depth + 1, way, model, offers, path =>
    match c.model? model with
    | none => .ok ⟨[], []⟩
    | some m => do
      let fields ← Action.describe c m
      let found ← readFields (readFieldAt c key (readRecordAt c key depth) way offers path) fields
      return { found with entries := Value.dictOf found.entries }

/-- Reads a record of a model from what is offered, every leaf under its key. -/
def decodeBy (c : Catalogue) (key : Keying) (model : String) (offers : List Offer) : Except Fault Decoded :=
  readRecordAt c key (Catalogue.depthBound c offers) [] model offers ""

/-- A record in a field is read behind the field; a field that is none is read as a leaf. -/
theorem readFieldAt_record {key : Keying}
    {record : List Descriptor → String → List Offer → String → Except Fault Decoded} {model : String}
    (hkind : d.kind = .record) (hmodel : d.model = some model) (way : List Descriptor) (path : String) :
    readFieldAt c key record way offers path d =
      if (offersInside d offers).isEmpty then .ok .nothing
      else do
        let inner ← record (way ++ [d]) model (offersInside d offers) (Validation.join path d.wireName)
        return ⟨if inner.entries.isEmpty then none else some (.dict inner.entries), inner.errors⟩ := by
  unfold readFieldAt
  simp only [hkind, hmodel]
  rfl

theorem readFieldAt_nothing {key : Keying}
    {record : List Descriptor → String → List Offer → String → Except Fault Decoded} (hkind : d.kind = .record)
    (hmodel : d.model = none) (way : List Descriptor) (path : String) :
    readFieldAt c key record way offers path d = .ok .nothing := by
  unfold readFieldAt
  simp only [hkind, hmodel]
  rfl

theorem readFieldAt_leaf {key : Keying}
    {record : List Descriptor → String → List Offer → String → Except Fault Decoded} (hkind : d.kind ≠ .record)
    (way : List Descriptor) (path : String) :
    readFieldAt c key record way offers path d =
      leafReadingAt c d (key way d) (Validation.join path d.wireName) (offersFor [] d offers) := by
  unfold readFieldAt
  dsimp only
  split
  · exact absurd ‹_› hkind
  · exact absurd ‹_› hkind
  · rfl

theorem readFields_congr {read read' : Descriptor → Except Fault Reading} {fields : List Descriptor}
    (h : ∀ d ∈ fields, d.formSkip = false → read d = read' d) : readFields read fields = readFields read' fields := by
  induction fields with
  | nil => rfl
  | cons d rest ih =>
      have hrest := ih fun e he => h e (List.mem_cons_of_mem d he)
      rw [readFields, readFields, hrest]
      split
      · rfl
      · rename_i hshown
        rw [h d List.mem_cons_self (Bool.eq_false_iff.mpr hshown)]

/-! ### Texts and maps are read under the shared key -/

theorem firstTexts_eq (d : Descriptor) (base : String) (offers : List Offer) :
    firstTexts d base offers = firstTextsAt (fun source => keyUnder base (d.nameIn source)) offers := by
  induction offers with
  | nil => rfl
  | cons o rest ih => rw [firstTexts, firstTextsAt, ih]

theorem readMaps_eq (d : Descriptor) (base path : String) (offers : List Offer) :
    readMaps c d base path offers = readMapsAt c d (fun source => keyUnder base (d.nameIn source)) path offers := by
  induction offers with
  | nil => rfl
  | cons o rest ih => rw [readMaps, readMapsAt, ih]

theorem readLeaf_eq (d : Descriptor) (base path : String) (offers : List Offer) :
    readLeaf d base path offers = firstTexts d base offers >>= ofTexts d path := by
  unfold readLeaf
  congr 1
  funext raws
  cases raws <;> rfl

theorem leafReading_eq (way : List Descriptor) (leaf : Descriptor) (path : String) (offers : List Offer) :
    leafReading c leaf (baseOf "" way) path offers = leafReadingAt c leaf (sharedKey way leaf) path offers := by
  have hkey : sharedKey way leaf = fun source => keyUnder (baseOf "" way) (leaf.nameIn source) :=
    funext (sharedKey_eq way leaf)
  rw [leafReading, leafReadingAt, readLeaf_eq, readMaps_eq, firstTexts_eq, hkey]

/-- A field is read under the shared key, as far as that holds for records. -/
theorem readField_eq {record : String → List Offer → String → String → Except Fault Decoded}
    {record' : List Descriptor → String → List Offer → String → Except Fault Decoded} (hshown : d.formSkip = false)
    (hrecord : ∀ model offers path, record model offers (baseOf "" (way ++ [d])) path =
      record' (way ++ [d]) model offers path) (path : String) :
    readField c record offers (baseOf "" way) path d = readFieldAt c sharedKey record' way offers path d := by
  by_cases hkind : d.kind = .record
  · cases hmodel : d.model with
    | none =>
        rw [readFieldAt_nothing hkind hmodel]
        unfold readField
        simp only [hkind, hmodel]
        rfl
    | some model =>
        have hbase : keyUnder (baseOf "" way) d.formName = baseOf "" (way ++ [d]) := by
          rw [baseOf, baseOf, List.foldl_append]
          rfl
        rw [readFieldAt_record hkind hmodel, ← hrecord]
        unfold readField
        simp only [hkind, hmodel, hbase]
        rfl
  · rw [readField_leaf record hkind hshown, leafReading_eq, readFieldAt_leaf hkind]

theorem readRecord_eq (depth : Nat) (way : List Descriptor) (name : String) (offers : List Offer) (path : String) :
    readRecord c depth name offers (baseOf "" way) path = readRecordAt c sharedKey depth way name offers path := by
  induction depth generalizing way name offers path with
  | zero => rfl
  | succ depth ih =>
      rw [readRecord, readRecordAt]
      cases c.model? name with
      | none => rfl
      | some m =>
          dsimp only
          congr 1
          funext fields
          have hread (d : Descriptor) (hshown : d.formSkip = false) :
              readField c (readRecord c depth) offers (baseOf "" way) path d =
                readFieldAt c sharedKey (readRecordAt c sharedKey depth) way offers path d :=
            readField_eq hshown (fun model offers path => ih _ model offers path) path
          rw [readFields_congr fun d _ => hread d]

/-! ### Keys that are the same where leaves are looked up -/

theorem firstTextsAt_congr {key key' : Source → String} (h : ∀ o ∈ offers, key o.source = key' o.source) :
    firstTextsAt key offers = firstTextsAt key' offers := by
  induction offers with
  | nil => rfl
  | cons o rest ih =>
      obtain ⟨ho, hrest⟩ := List.forall_mem_cons.mp h
      rw [firstTextsAt, firstTextsAt, ho, ih hrest]

theorem readMapsAt_congr {key key' : Source → String} (path : String) (h : ∀ o ∈ offers, key o.source = key' o.source) :
    readMapsAt c d key path offers = readMapsAt c d key' path offers := by
  induction offers with
  | nil => rfl
  | cons o rest ih =>
      obtain ⟨ho, hrest⟩ := List.forall_mem_cons.mp h
      rw [readMapsAt, readMapsAt, ho, ih hrest]

theorem leafReadingAt_congr {key key' : Source → String} (path : String)
    (h : ∀ o ∈ offers, key o.source = key' o.source) :
    leafReadingAt c leaf key path offers = leafReadingAt c leaf key' path offers := by
  rw [leafReadingAt, leafReadingAt, readMapsAt_congr path h, firstTextsAt_congr h]

/-- What is offered inside a field and admitted by a leaf there is admitted by the leaf on the way through the
field. -/
theorem admits_cons {o : Offer} (hshown : d.formSkip = false) (ho : o ∈ offersInside d offers)
    (hadmits : admits way leaf o.source = true) : o ∈ offers ∧ admits (d :: way) leaf o.source = true := by
  have hinside : o ∈ offersFor way leaf (offersInside d offers) := List.mem_filter.mpr ⟨ho, hadmits⟩
  rw [offersFor_inside hshown] at hinside
  exact List.mem_filter.mp hinside

/-- Where two keys are the same for every leaf and every part of the request that it may be read from, what is read
is the same. -/
theorem readRecordAt_congr {key key' : Keying} (depth : Nat)
    (h : ∀ more leaf, LeadsTo c name more leaf → ∀ o ∈ offers, admits more leaf o.source = true →
      key (way ++ more) leaf o.source = key' (way ++ more) leaf o.source) (path : String) :
    readRecordAt c key depth way name offers path = readRecordAt c key' depth way name offers path := by
  induction depth generalizing way name offers path with
  | zero => rfl
  | succ depth ih =>
      rw [readRecordAt, readRecordAt]
      cases hm : c.model? name with
      | none => rfl
      | some m =>
          dsimp only
          cases hdescribe : Action.describe c m with
          | error fault =>
              have hfault (read : List Descriptor → Except Fault Decoded) :
                  (.error fault >>= read) = .error fault := rfl
              rw [hfault, hfault]
          | ok fields =>
              have hfields := Action.of_describe_eq_ok hdescribe
              rw [ok_bind, ok_bind]
              congr 1
              refine readFields_congr fun d hd hshown => ?_
              by_cases hkind : d.kind = .record
              · cases hmodel : d.model with
                | none => rw [readFieldAt_nothing hkind hmodel, readFieldAt_nothing hkind hmodel]
                | some model =>
                    rw [readFieldAt_record hkind hmodel, readFieldAt_record hkind hmodel, ih]
                    intro more leaf hmore o ho hadmits
                    obtain ⟨hmem, hall⟩ := admits_cons hshown ho hadmits
                    have hsame := h (d :: more) leaf (.inside hm hfields hd hkind hmodel hmore) o hmem hall
                    rwa [List.append_assoc]
              · rw [readFieldAt_leaf hkind, readFieldAt_leaf hkind]
                refine leafReadingAt_congr _ fun o ho => ?_
                obtain ⟨hmem, hall⟩ := List.mem_filter.mp ho
                have hsame := h [] d (.leaf hm hfields hd hkind) o hmem hall
                rwa [List.append_nil] at hsame

/-! ### Names that are there -/

theorem givenOr_ne_empty {given : Option String} {fallback : String} (h : fallback ≠ "") :
    givenOr given fallback ≠ "" := by
  unfold givenOr
  split
  · split
    · exact h
    · rename_i hgiven
      simpa using hgiven
  · exact h

/-- A field with a name has one in every part of a request. -/
theorem nameIn_ne_empty {f : Field} (hd : c.describeField f = .ok d) (hname : f.name ≠ "") (source : Source) :
    d.nameIn source ≠ "" := by
  have hform := (names_ne_empty hd hname).2
  rw [Catalogue.describeField] at hd
  dsimp only at hd
  split at hd
  · cases hd
    cases source <;> first | exact hform | exact givenOr_ne_empty hform
  · cases hd

/-- Every field on a way has a name in every part of a request. -/
theorem LeadsTo.named (hnames : HasNames c root) (hway : LeadsTo c name way leaf)
    (hreach : Relation.ReflTransGen (Encloses c) root name) (source : Source) :
    ∀ d ∈ way ++ [leaf], d.nameIn source ≠ "" := by
  have hfield {name : String} {m : Model} {fields : List Descriptor} {d : Descriptor}
      (hreach : Relation.ReflTransGen (Encloses c) root name) (hm : c.model? name = some m)
      (hfields : c.describe m = .ok fields) (hd : d ∈ fields) : d.nameIn source ≠ "" := by
    obtain ⟨f, hf, hdescribed⟩ := Catalogue.exists_field_of_mem_describe hfields hd
    exact nameIn_ne_empty hdescribed (hnames _ m hreach hm f hf) source
  induction hway with
  | leaf hm hfields hd hkind => exact List.forall_mem_singleton.mpr (hfield hreach hm hfields hd)
  | inside hm hfields hd hkind hmodel hrest ih =>
      have hnext := hreach.tail (encloses_of_describe hm hfields hd hkind hmodel)
      exact List.forall_mem_cons.mpr ⟨hfield hreach hm hfields hd, ih hnext⟩

/-- Only a query can offer what is inside a record under names that are not those in forms. -/
theorem sharedKey_eq_ownKey_of_admits {source : Source} (hadmits : admits way leaf source = true)
    (hquery : source = .query →
      dotted (way.map Descriptor.formName) = dotted (way.map Descriptor.queryName)) :
    sharedKey way leaf source = ownKey way leaf source := by
  rw [sharedKey_eq_ownKey_iff]
  cases source with
  | query => exact hquery rfl
  | form | auto | body => rfl
  | header | cookie | path =>
      have hempty : way = [] := by
        have houter := (Bool.and_eq_true_iff.mp hadmits).2
        simpa [Source.isNested] using (Bool.and_eq_true_iff.mp houter).1
      rw [hempty]
      rfl

/-- Every leaf is looked up under the names in forms of the records around it and its own name in the part of the
request, whatever is offered. These are the names of the part at every level exactly if the names in forms of the
records come to the same key as their names in the part; so reading is reading under the names of the part, except
for leaves that a query may bring and that are inside records with other names there. Names that are not empty are
joined by points. -/
theorem decodeStrings_shares_keys (c : Catalogue) (root : String) :
    (∀ offers, decodeStrings c root offers = decodeBy c sharedKey root offers) ∧
      (∀ way leaf source, sharedKey way leaf source = ownKey way leaf source ↔
        dotted (way.map Descriptor.formName) = dotted (way.map fun d => d.nameIn source)) ∧
      (∀ offers : List Offer,
        (∀ o ∈ offers, o.source = .query → ∀ way leaf, LeadsTo c root way leaf → admits way leaf .query = true →
          dotted (way.map Descriptor.formName) = dotted (way.map Descriptor.queryName)) →
        decodeStrings c root offers = decodeBy c ownKey root offers) ∧
      (HasNames c root → ∀ way leaf, LeadsTo c root way leaf → ∀ source,
        ownKey way leaf source = ".".intercalate ((way ++ [leaf]).map fun d => d.nameIn source) ∧
          sharedKey way leaf source = ".".intercalate (way.map Descriptor.formName ++ [leaf.nameIn source])) := by
  have hshared (offers : List Offer) : decodeStrings c root offers = decodeBy c sharedKey root offers :=
    readRecord_eq _ [] root offers ""
  refine ⟨hshared, sharedKey_eq_ownKey_iff, fun offers hsame => ?_, fun hnames way leaf hway source => ⟨?_, ?_⟩⟩
  · rw [hshared, decodeBy, decodeBy]
    refine readRecordAt_congr _ (fun way leaf hway o ho hadmits => ?_) ""
    refine sharedKey_eq_ownKey_of_admits hadmits fun hquery => ?_
    rw [hquery] at hadmits
    exact hsame o ho hquery way leaf hway hadmits
  · refine dotted_eq_intercalate fun n hn => ?_
    obtain ⟨d, hd, rfl⟩ := List.mem_map.mp hn
    exact hway.named hnames .refl source d hd
  · refine dotted_eq_intercalate fun n hn => ?_
    rcases List.mem_append.mp hn with hrecord | hleaf
    · obtain ⟨d, hd, rfl⟩ := List.mem_map.mp hrecord
      exact hway.named hnames .refl .form d (List.mem_append_left _ hd)
    · obtain rfl := List.mem_singleton.mp hleaf
      exact hway.named hnames .refl source leaf (List.mem_append_right _ (List.mem_singleton_self leaf))

/-- The address that an order is sent to, which the query calls by another name. -/
def shipField : Field :=
  { plainField "ship" (.record "Address") with annotations := { Annotations.none with query := some "to" } }

/-- The street of an address. -/
def streetField : Field := plainField "street" .str

/-- Orders are sent to addresses. -/
def shippingCatalogue : Catalogue :=
  ⟨[plainModel "Order" [shipField], plainModel "Address" [streetField]], []⟩

theorem hasNames_shipping : HasNames shippingCatalogue "Order" := hasNames_of_models (by decide)

theorem leadsTo_street : LeadsTo shippingCatalogue "Order" [shippingCatalogue.descriptorOf shipField]
    (shippingCatalogue.descriptorOf streetField) :=
  .inside rfl rfl List.mem_cons_self rfl rfl (.leaf rfl rfl List.mem_cons_self (by decide))

/-- What a form brings for an order is read under the names of forms, whatever the query calls the address. -/
theorem decodeStrings_shares_keys_street :
    decodeStrings shippingCatalogue "Order" [offering .form [("ship.street", "Elm")]] =
        decodeBy shippingCatalogue ownKey "Order" [offering .form [("ship.street", "Elm")]] ∧
      ownKey [shippingCatalogue.descriptorOf shipField] (shippingCatalogue.descriptorOf streetField) .form =
        ".".intercalate ["ship", "street"] := by
  obtain ⟨-, -, hread, hkeys⟩ := decodeStrings_shares_keys shippingCatalogue "Order"
  refine ⟨hread _ fun o ho hquery => ?_, (hkeys hasNames_shipping _ _ leadsTo_street .form).1⟩
  obtain rfl := List.mem_singleton.mp ho
  cases hquery

/-- The street that a query brings under its own names is lost, and brought under the name of the record in forms it
is read. -/
theorem decodeStrings_misses_own_key :
    LeadsTo shippingCatalogue "Order" [shippingCatalogue.descriptorOf shipField]
        (shippingCatalogue.descriptorOf streetField) ∧
      ownKey [shippingCatalogue.descriptorOf shipField] (shippingCatalogue.descriptorOf streetField) .query =
        "to.street" ∧
      sharedKey [shippingCatalogue.descriptorOf shipField] (shippingCatalogue.descriptorOf streetField) .query =
        "ship.street" ∧
      decodeBy shippingCatalogue ownKey "Order" [offering .query [("to.street", "Elm")]] =
        .ok ⟨[(.text "ship", .dict [(.text "street", .text "Elm")])], []⟩ ∧
      decodeStrings shippingCatalogue "Order" [offering .query [("to.street", "Elm")]] = .ok ⟨[], []⟩ ∧
      decodeStrings shippingCatalogue "Order" [offering .query [("ship.street", "Elm")]] =
        .ok ⟨[(.text "ship", .dict [(.text "street", .text "Elm")])], []⟩ :=
  ⟨leadsTo_street, by decide +kernel, by decide +kernel, by cbv, by cbv, by cbv⟩

end Intake.Binding
