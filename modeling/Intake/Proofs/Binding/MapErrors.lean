import Intake.Proofs.Binding.OneSource

/-!
Which errors are told about the entries of maps. Every error of reading texts comes from one field and, where
the field is a map, from one key in one part of the request. A map is read from part after part until one gives
it an entry, and a form offers the keys of the query once more: an entry that cannot be read is told twice
exactly where both are read.
-/

namespace Intake

namespace Request

theorem nodup_foldl_names {xs names : List String} (hnames : names.Nodup) :
    (xs.foldl (fun names n => if names.contains n then names else names ++ [n]) names).Nodup := by
  induction xs generalizing names with
  | nil => exact hnames
  | cons x rest ih =>
      rw [List.foldl_cons]
      refine ih ?_
      split
      · exact hnames
      · rename_i hnew
        exact hnames.append (List.nodup_singleton x) (by simpa using hnew)

/-- Every name is listed once. -/
theorem nodup_namesOf (pairs : List (String × String)) : (namesOf pairs).Nodup :=
  nodup_foldl_names List.nodup_nil

end Request

namespace Binding

variable {c : Catalogue} {root : String}

/-! ### Errors and what they are about -/

/-- An error with the names of the fields that lead to the one it is about, and the key in the request if it is
about an entry of a map. -/
structure Told where
  way : List String
  key : Option String
  error : FieldError

/-- What is told about a field inside a record, as it is told about the record. -/
def Told.inside (name : String) (t : Told) : Told := ⟨name :: t.way, t.key, t.error⟩

/-- The error of one key of a part of a request, as far as a map is read from it: of the text in the brackets, or
of the first text that is offered under it. -/
def complaint? (c : Catalogue) (d : Descriptor) (name path : String) (o : Offer) (key : String) :
    Option FieldError :=
  match bracketed? name key with
  | none => none
  | some entry =>
    match readMember c d path entry (o.values key) with
    | .ok (_, e :: _) => some e
    | _ => none

/-- What is told about the keys of one part of a request. -/
def toldByMap (c : Catalogue) (d : Descriptor) (name path : String) (o : Offer) : List (String × FieldError) :=
  o.keys.filterMap fun key => (complaint? c d name path o key).map (key, ·)

/-- Whether a part of a request gives a map no entry. -/
def givesNothing (c : Catalogue) (d : Descriptor) (name path : String) (o : Offer) : Bool :=
  match readMap c d name path o with
  | .ok (entries, _) => entries.isEmpty
  | .error _ => false

/-- What is told about the keys of the parts that a map is read from, up to the first one that gives it an entry. -/
def toldByMaps (c : Catalogue) (d : Descriptor) (base path : String) : List Offer → List (String × FieldError)
  | [] => []
  | o :: rest =>
    toldByMap c d (keyUnder base (d.nameIn o.source)) path o ++
      if givesNothing c d (keyUnder base (d.nameIn o.source)) path o then toldByMaps c d base path rest else []

/-- What is told about a field, where it is known for records. -/
def toldByField (c : Catalogue) (record : String → List Offer → String → String → List Told) (offers : List Offer)
    (base path : String) (d : Descriptor) : List Told :=
  let path := Validation.join path d.wireName
  match d.kind, d.model with
  | .record, none => []
  | .record, some model =>
    if (offersInside d offers).isEmpty then []
    else (record model (offersInside d offers) (keyUnder base d.formName) path).map (Told.inside d.name)
  | .map, _ => (toldByMaps c d base path (offersInside d offers)).map fun told => ⟨[d.name], some told.1, told.2⟩
  | _, _ =>
    match readLeaf d base path (admitted d offers) with
    | .ok reading => reading.errors.map fun e => ⟨[d.name], none, e⟩
    | .error _ => []

/-- What is told about a record: what is told about its fields, one after the other. -/
def toldByRecord (c : Catalogue) : (depth : Nat) → String → List Offer → String → String → List Told
  | 0, _, _, _, _ => []
  | depth + 1, model, offers, base, path =>
    match c.model? model with
    | none => []
    | some m =>
      match c.describe m with
      | .error _ => []
      | .ok fields => fields.flatMap fun d =>
          if d.formSkip then [] else toldByField c (toldByRecord c depth) offers base path d

/-- What is told about the outermost record. -/
def toldByStrings (c : Catalogue) (model : String) (offers : List Offer) : List Told :=
  toldByRecord c (Catalogue.depthBound c offers) model offers "" ""

/-! ### The errors of a reading are those that are told -/

section Reading

variable {d : Descriptor} {name base path : String} {offers : List Offer} {o : Offer}

/-- An entry of a map has one error, or none. -/
theorem readMember_errors {entry : String} {raws : List String} {found : Option (Value × Value) × List FieldError}
    (hread : readMember c d path entry raws = .ok found) : found.2 = found.2.head?.toList := by
  have hone : Gives (fun _ => True) (fun found : Option (Value × Value) × List FieldError =>
      found.2 = found.2.head?.toList) (readMember c d path entry raws) := by
    unfold readMember
    dsimp only
    refine (gives_any _).bind fun outcome _ => ?_
    cases outcome with
    | error why => exact rfl
    | ok key =>
        cases raws with
        | nil => exact rfl
        | cons raw rest =>
            dsimp only
            split
            · exact rfl
            · refine (gives_any _).bind fun outcome _ => ?_
              cases outcome <;> exact rfl
  rw [hread] at hone
  exact hone

/-- The errors of a map that is read from one part of a request are those that are told about its keys. -/
theorem errors_of_readMap (ho : o.source.isNested = true) {found : List (Value × Value) × List FieldError}
    (hread : readMap c d name path o = .ok found) :
    found.2 = (toldByMap c d name path o).map Prod.snd := by
  unfold readMap at hread
  obtain ⟨members, hmembers, hread⟩ := exists_of_bind_eq_ok hread
  cases hread
  have herrors := flatMap_of_filterMapM (g := complaint? c d name path o) (fun key found hfound => ?_) hmembers
  · rw [toldByMap, List.map_filterMap]
    refine herrors.trans (List.filterMap_congr fun key _ => ?_)
    cases complaint? c d name path o key <;> rfl
  · unfold complaint?
    cases hentry : bracketed? name key with
    | none =>
        rw [hentry] at hfound
        cases hfound
        rfl
    | some entry =>
        rw [hentry] at hfound
        dsimp only at hfound ⊢
        rw [read_of_not_header (not_header_of_isNested ho), ok_bind] at hfound
        obtain ⟨member, hmember, hfound⟩ := exists_of_bind_eq_ok hfound
        cases hfound
        have hone := readMember_errors hmember
        obtain ⟨added, errors⟩ := member
        rw [hmember]
        cases errors with
        | nil => rfl
        | cons e rest => simpa using hone

theorem errors_of_readMaps (hnested : AreNested offers) {reading : Reading}
    (hread : readMaps c d base path offers = .ok reading) :
    reading.errors = (toldByMaps c d base path offers).map Prod.snd := by
  induction offers generalizing reading with
  | nil =>
      cases hread
      rfl
  | cons o rest ih =>
      obtain ⟨ho, hrest⟩ := List.forall_mem_cons.mp hnested
      rw [readMaps] at hread
      obtain ⟨⟨entries, errors⟩, hmap, hread⟩ := exists_of_bind_eq_ok hread
      have herrors := errors_of_readMap ho hmap
      rw [toldByMaps, givesNothing, hmap, List.map_append, ← herrors]
      dsimp only at hread ⊢
      by_cases hempty : entries.isEmpty
      · rw [if_pos hempty] at hread ⊢
        obtain ⟨later, hlater, hread⟩ := exists_of_bind_eq_ok hread
        cases hread
        rw [ih hrest hlater]
      · rw [if_neg hempty] at hread ⊢
        cases hread
        simp

/-- The errors of a field are those that are told about it, as far as that holds for records. -/
theorem errors_of_readField {record : String → List Offer → String → String → Except Fault Decoded}
    {told : String → List Offer → String → String → List Told}
    (hrecord : ∀ model inner, record model (offersInside d offers) (keyUnder base d.formName)
        (Validation.join path d.wireName) = .ok inner →
      inner.errors = (told model (offersInside d offers) (keyUnder base d.formName)
        (Validation.join path d.wireName)).map Told.error) {reading : Reading}
    (hread : readField c record offers base path d = .ok reading) :
    reading.errors = (toldByField c told offers base path d).map Told.error := by
  unfold readField at hread
  unfold toldByField
  cases hkind : d.kind with
  | record =>
      cases hmodel : d.model with
      | none =>
          simp only [hkind, hmodel] at hread
          cases hread
          rfl
      | some model =>
          simp only [hkind, hmodel] at hread
          change (if (offersInside d offers).isEmpty then _ else _) = _ at hread
          dsimp only
          split at hread
          · rename_i hempty
            cases hread
            rw [if_pos hempty]
            rfl
          · rename_i hsome
            obtain ⟨inner, hinner, hread⟩ := exists_of_bind_eq_ok hread
            cases hread
            rw [if_neg hsome, List.map_map]
            exact hrecord model inner hinner
  | map =>
      simp only [hkind] at hread
      dsimp only
      rw [List.map_map]
      exact errors_of_readMaps (fun o ho => (List.mem_filter.mp ho).2) hread
  | _ =>
      simp only [hkind] at hread
      dsimp only
      rw [hread, List.map_map]
      simp [Function.comp_def]

theorem errors_of_readFields {read : Descriptor → Except Fault Reading} {told : Descriptor → List Told}
    {fields : List Descriptor}
    (htold : ∀ d ∈ fields, ∀ reading, read d = .ok reading → reading.errors = (told d).map Told.error)
    {found : Decoded} (hread : readFields read fields = .ok found) :
    found.errors = (fields.flatMap fun d => if d.formSkip then [] else told d).map Told.error := by
  obtain ⟨-, herrors, hshown⟩ := eq_of_readFields hread
  rw [herrors, List.map_flatMap]
  refine List.flatMap_congr fun d hd => ?_
  cases hskip : d.formSkip with
  | true => simp [readingOf, hskip, Reading.nothing]
  | false => exact htold d hd _ (hshown d hd hskip)

/-- The errors of a record are those that are told about it. -/
theorem errors_of_readRecord {depth : Nat} {found : Decoded}
    (hread : readRecord c depth name offers base path = .ok found) :
    found.errors = (toldByRecord c depth name offers base path).map Told.error := by
  induction depth generalizing name offers base path found with
  | zero => cases hread
  | succ depth ih =>
      rw [readRecord] at hread
      rw [toldByRecord]
      cases hm : c.model? name with
      | none =>
          rw [hm] at hread
          cases hread
          rfl
      | some m =>
          rw [hm] at hread
          obtain ⟨fields, hfields, hread⟩ := exists_of_bind_eq_ok hread
          obtain ⟨inner, hinner, hread⟩ := exists_of_bind_eq_ok hread
          cases hread
          simp only [Action.of_describe_eq_ok hfields]
          exact errors_of_readFields (fun d _ reading hd => errors_of_readField (fun _ _ => ih) hd) hinner

end Reading

/-! ### What is told about one map -/

section Leaf

/-- The fields of a model, and of the records inside its records, have names of their own. -/
def HasOwnNames (c : Catalogue) (root : String) : Prop :=
  ∀ name m, Relation.ReflTransGen (Encloses c) root name → c.model? name = some m → (m.fields.map Field.name).Nodup

/-- The names of the fields that lead to a leaf, and its own. -/
def namesTo (way : List Descriptor) (leaf : Descriptor) : List String := (way ++ [leaf]).map Descriptor.name

variable {way : List Descriptor} {d leaf : Descriptor} {name base path : String} {offers : List Offer}

/-- What is told about a field is told under its name. -/
theorem exists_way_of_mem_toldByField {told : String → List Offer → String → String → List Told} {t : Told}
    (ht : t ∈ toldByField c told offers base path d) : ∃ rest, t.way = d.name :: rest := by
  unfold toldByField at ht
  dsimp only at ht
  split at ht
  · cases ht
  · split at ht
    · cases ht
    · obtain ⟨inner, -, rfl⟩ := List.mem_map.mp ht
      exact ⟨inner.way, rfl⟩
  · obtain ⟨inner, -, rfl⟩ := List.mem_map.mp ht
    exact ⟨[], rfl⟩
  · split at ht
    · obtain ⟨e, -, rfl⟩ := List.mem_map.mp ht
      exact ⟨[], rfl⟩
    · cases ht

/-- What is told under the name of one field of a record is told about that field. -/
theorem filter_toldByFields {told : Descriptor → List Told} {fields : List Descriptor}
    (hnodup : (fields.map Descriptor.name).Nodup)
    (hway : ∀ d ∈ fields, ∀ t ∈ told d, ∃ rest, t.way = d.name :: rest) (hd : d ∈ fields) (rest : List String) :
    (fields.flatMap told).filter (fun t => t.way == d.name :: rest) =
      (told d).filter fun t => t.way == d.name :: rest := by
  obtain ⟨before, after, hwhole, hothers⟩ : ∃ before after, fields.flatMap told = before ++ told d ++ after ∧
      ∀ t ∈ before ++ after, ∃ other ∈ fields, other ≠ d ∧ t ∈ told other :=
    exists_flatMap_eq (List.Nodup.of_map _ hnodup) hd
  have helsewhere : ∀ t ∈ before ++ after, ¬(t.way == d.name :: rest) = true := by
    intro t ht hsame
    obtain ⟨other, hother, hne, htold⟩ := hothers t ht
    obtain ⟨rest', hrest'⟩ := hway other hother t htold
    rw [hrest'] at hsame
    exact hne (List.inj_on_of_nodup_map hnodup hother hd (List.cons.inj (eq_of_beq hsame)).1)
  have hbefore : before.filter (fun t => t.way == d.name :: rest) = [] :=
    List.filter_eq_nil_iff.mpr fun t ht => helsewhere t (List.mem_append_left after ht)
  have hafter : after.filter (fun t => t.way == d.name :: rest) = [] :=
    List.filter_eq_nil_iff.mpr fun t ht => helsewhere t (List.mem_append_right before ht)
  rw [hwhole, List.filter_append, List.filter_append, hbefore, hafter, List.nil_append, List.append_nil]

/-- A map of the outermost record may be read from the nested offers that it admits. -/
theorem offersInside_of_map (hshown : leaf.formSkip = false) (hmap : leaf.kind = .map) (offers : List Offer) :
    offersInside leaf offers = offersFor [] leaf offers := by
  unfold offersInside admitted offersFor
  rw [List.filter_filter]
  exact List.filter_congr fun o _ => by simp [admits, hshown, hmap, Bool.and_comm]

theorem HasOwnNames.of_describe (hnames : HasOwnNames c root) (hreach : Relation.ReflTransGen (Encloses c) root name)
    {m : Model} {fields : List Descriptor} (hm : c.model? name = some m) (hfields : c.describe m = .ok fields) :
    (fields.map Descriptor.name).Nodup := by
  have hnodup := hnames name m hreach hm
  obtain ⟨rfl, hdescribed⟩ := Catalogue.describe_eq_map hfields
  have hsame : m.fields.map (Descriptor.name ∘ c.descriptorOf) = m.fields.map Field.name :=
    List.map_congr_left fun f hf => (Catalogue.names_of_describeField (hdescribed f hf)).1
  rwa [List.map_map, hsame]

/-- What is told under the name of a field of a record that was read, and what was read for the field. -/
theorem exists_toldByField (hnames : HasOwnNames c root) (hreach : Relation.ReflTransGen (Encloses c) root name)
    {m : Model} {fields : List Descriptor} (hm : c.model? name = some m) (hfields : c.describe m = .ok fields)
    (hd : d ∈ fields) {depth : Nat} {found : Decoded}
    (hread : readRecord c depth name offers base path = .ok found) (rest : List String) :
    ∃ depth', (toldByRecord c depth name offers base path).filter (fun t => t.way == d.name :: rest) =
        (if d.formSkip then [] else toldByField c (toldByRecord c depth') offers base path d).filter
          (fun t => t.way == d.name :: rest) ∧
      (d.formSkip = false → ∃ reading, readField c (readRecord c depth') offers base path d = .ok reading) := by
  cases depth with
  | zero => cases hread
  | succ depth =>
      rw [readRecord] at hread
      simp only [hm, Action.describe_eq_ok hfields, ok_bind] at hread
      obtain ⟨inner, hinner, -⟩ := exists_of_bind_eq_ok hread
      refine ⟨depth, ?_, fun hshown => ⟨_, (eq_of_readFields hinner).2.2 d hd hshown⟩⟩
      rw [toldByRecord]
      simp only [hm, hfields]
      refine filter_toldByFields (hnames.of_describe hreach hm hfields) (fun other _ t ht => ?_) hd rest
      split at ht
      · cases ht
      · exact exists_way_of_mem_toldByField ht

/-- What is told about a map at the end of a way is told about the keys of the offers that the map admits. -/
theorem filter_toldByRecord (hnames : HasOwnNames c root) (hway : LeadsTo c name way leaf) (hmap : leaf.kind = .map)
    (hreach : Relation.ReflTransGen (Encloses c) root name) {depth : Nat} {found : Decoded}
    (hread : readRecord c depth name offers base path = .ok found) :
    (toldByRecord c depth name offers base path).filter (fun t => t.way == namesTo way leaf) =
      (toldByMaps c leaf (baseOf base way) (placeOf path way leaf) (offersFor way leaf offers)).map
        fun told => ⟨namesTo way leaf, some told.1, told.2⟩ := by
  induction hway generalizing depth offers base path found with
  | @leaf name m fields leaf hm hfields hd hkind =>
      obtain ⟨depth', htold, -⟩ := exists_toldByField hnames hreach hm hfields hd hread []
      refine htold.trans ?_
      cases hskip : leaf.formSkip with
      | true =>
          rw [offersFor_of_skipped (by simp) hskip]
          rfl
      | false =>
          unfold toldByField
          simp only [hmap, offersInside_of_map hskip hmap]
          refine List.filter_eq_self.mpr fun t ht => ?_
          obtain ⟨told, -, rfl⟩ := List.mem_map.mp ht
          exact beq_self_eq_true _
  | @inside name next m fields way d leaf hm hfields hd hkind hmodel hrest ih =>
      have hnext := hreach.tail (encloses_of_describe hm hfields hd hkind hmodel)
      obtain ⟨depth', htold, hshown⟩ := exists_toldByField hnames hreach hm hfields hd hread (namesTo way leaf)
      refine htold.trans ?_
      cases hskip : d.formSkip with
      | true =>
          rw [offersFor_of_skipped (by simp) hskip]
          rfl
      | false =>
          obtain ⟨reading, hreading⟩ := hshown hskip
          rw [← offersFor_inside hskip]
          unfold toldByField
          simp only [hkind, hmodel]
          by_cases hnone : offersInside d offers = []
          · simp [hnone, offersFor, toldByMaps]
          · rcases readField_record hkind hmodel hreading with ⟨hnone', -⟩ | ⟨inner, hinner, -⟩
            · exact absurd hnone' hnone
            · have hinside := congrArg (List.map (Told.inside d.name)) (ih hmap hnext hinner)
              have hunder : ((fun t : Told => t.way == d.name :: namesTo way leaf) ∘ Told.inside d.name) =
                  fun t => t.way == namesTo way leaf := by
                funext t
                simp [Told.inside]
              rw [List.map_map] at hinside
              rw [if_neg Bool.false_ne_true, if_neg (by simpa using hnone), List.filter_map, hunder]
              exact hinside

/-! ### How often -/

/-- How often something is told about one key of the request, for the map at the end of a way. -/
def timesTold (way : List Descriptor) (leaf : Descriptor) (key : String) (told : List Told) : Nat :=
  told.countP fun t => t.way == namesTo way leaf && t.key == some key

theorem timesTold_toldByRecord (hnames : HasOwnNames c root) (hway : LeadsTo c name way leaf)
    (hmap : leaf.kind = .map) (hreach : Relation.ReflTransGen (Encloses c) root name) {depth : Nat} {found : Decoded}
    (hread : readRecord c depth name offers base path = .ok found) (key : String) :
    timesTold way leaf key (toldByRecord c depth name offers base path) =
      (toldByMaps c leaf (baseOf base way) (placeOf path way leaf) (offersFor way leaf offers)).countP
        fun told => told.1 == key := by
  have hfilter := filter_toldByRecord hnames hway hmap hreach hread
  have hsplit : timesTold way leaf key (toldByRecord c depth name offers base path) =
      ((toldByRecord c depth name offers base path).filter fun t => t.way == namesTo way leaf).countP
        fun t => t.key == some key := by
    rw [List.countP_filter]
    exact List.countP_congr fun t _ => by rw [Bool.and_comm]
  rw [hsplit, hfilter, List.countP_map]
  exact List.countP_congr fun told _ => by simp

/-- Of keys that are all different, each is found once, if anything comes of it. -/
theorem countP_filterMap_of_nodup {α : Type} {f : String → Option α} {keys : List String} (hkeys : keys.Nodup)
    (key : String) : (keys.filterMap fun k => (f k).map (k, ·)).countP (fun found => found.1 == key) =
      if key ∈ keys ∧ (f key).isSome then 1 else 0 := by
  induction keys with
  | nil => simp
  | cons first rest ih =>
      obtain ⟨hfirst, hrest⟩ := List.nodup_cons.mp hkeys
      by_cases hsame : first = key
      · subst hsame
        have hnone := ih hrest
        rw [if_neg fun h => hfirst h.1] at hnone
        cases hf : f first <;> simp [hf, hnone]
      · have hother := ih hrest
        cases hf : f first <;> simp [hf, hsame, hother, Ne.symm hsame]

/-- One part of a request is told off for a key once, if it has the key, and the key or its text cannot be read. -/
theorem countP_toldByMap {o : Offer} (hkeys : o.keys.Nodup) (d : Descriptor) (name path key : String) :
    (toldByMap c d name path o).countP (fun told => told.1 == key) =
      if key ∈ o.keys ∧ (complaint? c d name path o key).isSome then 1 else 0 :=
  countP_filterMap_of_nodup hkeys key

end Leaf

/-! ### Told by two parts of a request -/

section Twice

variable {m : Model} {r : Request} {way : List Descriptor} {leaf : Descriptor} {o : Offer} {key : String}

/-- What a part of a request is read for a map at the end of a way: the name of the map in it, behind the key of the
record around the map. -/
def nameFor (way : List Descriptor) (leaf : Descriptor) (o : Offer) : String :=
  keyUnder (baseOf "" way) (leaf.nameIn o.source)

/-- Whether a map gets an entry from a part of a request. -/
def isGiven (c : Catalogue) (way : List Descriptor) (leaf : Descriptor) (o : Offer) : Bool :=
  admits way leaf o.source && !givesNothing c leaf (nameFor way leaf o) (placeOf "" way leaf) o

/-- Whether a part of a request that a map may be read from has a key of it that cannot be read, itself or the first
text under it. -/
def isUnread (c : Catalogue) (way : List Descriptor) (leaf : Descriptor) (o : Offer) (key : String) : Bool :=
  admits way leaf o.source && o.keys.contains key &&
    (complaint? c leaf (nameFor way leaf o) (placeOf "" way leaf) o key).isSome

/-- How often something is told about a key for a map that is read from offers. -/
def timesUnread (c : Catalogue) (way : List Descriptor) (leaf : Descriptor) (key : String) (offers : List Offer) : Nat :=
  (toldByMaps c leaf (baseOf "" way) (placeOf "" way leaf) (offersFor way leaf offers)).countP fun told => told.1 == key

/-- A part of a request is told off once, and the next one is not looked at if this one gives the map an entry. -/
theorem timesUnread_cons (hkeys : admits way leaf o.source = true → o.keys.Nodup) (rest : List Offer) :
    timesUnread c way leaf key (o :: rest) =
      (isUnread c way leaf o key).toNat + if isGiven c way leaf o then 0 else timesUnread c way leaf key rest := by
  unfold timesUnread isUnread isGiven
  rw [offersFor_cons]
  cases hadmits : admits way leaf o.source with
  | false => simp
  | true =>
      rw [if_pos rfl, toldByMaps, List.countP_append, countP_toldByMap (hkeys hadmits)]
      change _ + List.countP _ (if givesNothing c leaf (nameFor way leaf o) (placeOf "" way leaf) o then _ else _) = _
      congr 1
      · simp [nameFor, Bool.toNat, Bool.cond_eq_ite]
      · cases givesNothing c leaf (nameFor way leaf o) (placeOf "" way leaf) o <;> simp

/-- An entry of a map is told twice: the body is a form, the query has a key of the map that cannot be read and gives
the map no entry, and the key cannot be read in the form either, which offers the keys of the query once more. -/
def IsRetold (c : Catalogue) (r : Request) (way : List Descriptor) (leaf : Descriptor) (key : String) : Prop :=
  ∃ form, saysForm r = true ∧ r.form = .ok form ∧ isUnread c way leaf (.ofQuery r) key = true ∧
    isGiven c way leaf (.ofQuery r) = false ∧ isUnread c way leaf (.ofForm r form) key = true

/-- Of the parts of a request, the query and the form can tell something about an entry of a map, each once. -/
theorem timesUnread_offersOf {offers : List Offer} (hmap : leaf.kind = .map) (hoffers : offersOf r = .ok offers)
    (key : String) :
    timesUnread c way leaf key offers ≤ 2 ∧ (timesUnread c way leaf key offers ≤ 1 ↔ ¬ IsRetold c r way leaf key) := by
  have hflat : ∀ (o : Offer) (rest : List Offer), o.source.isNested = false →
      timesUnread c way leaf key (o :: rest) = timesUnread c way leaf key rest := by
    intro o rest hsource
    have hadmits : admits way leaf o.source = false := by simp [admits, hsource, hmap]
    simp [timesUnread, offersFor_cons, hadmits]
  have hquery : ∀ rest, timesUnread c way leaf key (.ofQuery r :: rest) =
      (isUnread c way leaf (.ofQuery r) key).toNat +
        if isGiven c way leaf (.ofQuery r) then 0 else timesUnread c way leaf key rest :=
    timesUnread_cons fun _ => Request.nodup_namesOf _
  have hnil : timesUnread c way leaf key [] = 0 := rfl
  cases htype : saysForm r with
  | false =>
      rw [offersOf_of_not_saysForm htype] at hoffers
      obtain rfl := Except.ok.inj hoffers
      have hnot : ¬ IsRetold c r way leaf key := by
        rintro ⟨form, hform, -⟩
        simp [htype] at hform
      rw [hflat _ _ rfl, hquery, hflat _ _ rfl, hflat _ _ rfl, hnil]
      have hone := Bool.toNat_le (isUnread c way leaf (.ofQuery r) key)
      simp only [hnot, not_false_iff, iff_true]
      split <;> omega
  | true =>
      rw [offersOf_of_saysForm htype] at hoffers
      obtain ⟨form, hform, rfl⟩ := exists_of_map_eq_ok hoffers
      rw [hflat _ _ rfl, hquery, hflat _ _ rfl, hflat _ _ rfl, timesUnread_cons fun _ => Request.nodup_namesOf _, hnil]
      have hretold : IsRetold c r way leaf key ↔ isUnread c way leaf (.ofQuery r) key = true ∧
          isGiven c way leaf (.ofQuery r) = false ∧ isUnread c way leaf (.ofForm r form) key = true := by
        constructor
        · rintro ⟨form', -, hform', htwice⟩
          obtain rfl := Except.ok.inj (hform.symm.trans hform')
          exact htwice
        · exact fun htwice => ⟨form, htype, hform, htwice⟩
      rw [hretold]
      cases isUnread c way leaf (.ofQuery r) key <;> cases isGiven c way leaf (.ofQuery r) <;>
        cases isUnread c way leaf (.ofForm r form) key <;> simp

/-- A record that is made from what was read has the errors of reading first. -/
theorem exists_errors_of_bindDecoded {validate : Bool} {found : Decoded} {bound : Bound} {j later : Journal}
    (hbound : (bindDecoded c m validate found).outcome j = (.ok bound, later)) :
    ∃ others, bound.errors = found.errors ++ others := by
  unfold bindDecoded at hbound
  obtain ⟨errors, middle, -, hbound⟩ := Action.of_outcome_bind hbound
  cases hbound
  exact ⟨_, List.append_assoc _ _ _⟩

/-- So has a record to which what the body says was added. -/
theorem exists_errors_of_completed {validate : Bool} {errors : List FieldError} {entries : List (Value × Value)}
    {bound : Bound} {j later : Journal}
    (hdone : (bindDecoded c m validate ⟨entries, errors⟩ >>= fun bound => pure (.ok bound) : Action Outcome).outcome j =
      (.ok (.ok bound), later)) : ∃ others, bound.errors = errors ++ others := by
  obtain ⟨bound', j', hdecoded, hdone⟩ := Action.of_outcome_bind hdone
  cases hdone
  exact exists_errors_of_bindDecoded hdecoded

/-- The errors of a record that is bound begin with those of reading texts. -/
theorem exists_errors_of_bindAll {validate : Bool} {bound : Bound} {j later : Journal}
    (hbound : (bindAll c m r validate).outcome j = (.ok (.ok bound), later)) :
    ∃ offers found others, offersOf r = .ok offers ∧ decodeStrings c m.name offers = .ok found ∧
      bound.errors = found.errors ++ others := by
  unfold bindAll at hbound
  split at hbound
  · cases hbound
  · rename_i offers hoffers
    rw [pure_bind] at hbound
    obtain ⟨found, j₁, hfound, hbound⟩ := Action.of_outcome_bind hbound
    obtain ⟨described, j₂, -, hbound⟩ := Action.of_outcome_bind hbound
    have hread : decodeStrings c m.name offers = .ok found := (Prod.mk.inj hfound).1
    simp only [pure_bind] at hbound
    have herrors : ∃ others, bound.errors = found.errors ++ others := by
      split at hbound
      · exact exists_errors_of_completed hbound
      · obtain ⟨body, j₃, -, hbound⟩ := Action.of_outcome_bind hbound
        split at hbound
        · cases hbound
        · split at hbound
          · obtain ⟨added, j₄, -, hbound⟩ := Action.of_outcome_bind hbound
            split at hbound
            · cases hbound
            · exact exists_errors_of_completed hbound
          · exact exists_errors_of_completed hbound
    obtain ⟨others, herrors⟩ := herrors
    exact ⟨offers, found, others, hoffers, hread, herrors⟩

/-- The errors of a record that is bound from all parts of a request begin with those that are told about its texts,
each about one field and, in a map, about one key of the request. About a key of a map, in whatever records the map
is, nothing is told more than twice, and nothing more than once unless the key is one that both the query and the
form are told off for. -/
theorem bindAll_tells_once_iff (hnames : HasOwnNames c m.name) {validate : Bool} {bound : Bound} {j later : Journal}
    (hbound : (bindAll c m r validate).outcome j = (.ok (.ok bound), later)) :
    ∃ offers others, offersOf r = .ok offers ∧
      bound.errors = (toldByStrings c m.name offers).map Told.error ++ others ∧
      ∀ way leaf, LeadsTo c m.name way leaf → leaf.kind = .map → ∀ key,
        timesTold way leaf key (toldByStrings c m.name offers) ≤ 2 ∧
          (timesTold way leaf key (toldByStrings c m.name offers) ≤ 1 ↔ ¬ IsRetold c r way leaf key) := by
  obtain ⟨offers, found, others, hoffers, hfound, herrors⟩ := exists_errors_of_bindAll hbound
  refine ⟨offers, others, hoffers, ?_, fun way leaf hway hmap key => ?_⟩
  · rw [herrors, errors_of_readRecord hfound]
    rfl
  · rw [toldByStrings, timesTold_toldByRecord hnames hway hmap .refl hfound]
    exact timesUnread_offersOf hmap hoffers key

end Twice

/-! ### Tallies -/

/-- How often things were counted. -/
def countsField : Field := plainField "counts" (.dict .str .int)

/-- A tally has counts. -/
def tallyModel : Model := plainModel "Tally" [countsField]

def tallyCatalogue : Catalogue := ⟨[tallyModel], []⟩

theorem hasOwnNames_tally : HasOwnNames tallyCatalogue "Tally" := by
  intro name m _ hm
  have hall : ∀ m ∈ tallyCatalogue.models, (m.fields.map Field.name).Nodup := by decide
  exact hall m (List.mem_of_find?_eq_some hm)

theorem leadsTo_counts : LeadsTo tallyCatalogue "Tally" [] (tallyCatalogue.descriptorOf countsField) :=
  .leaf rfl rfl List.mem_cons_self (by decide)

/-- A query with a count that is a number and one that is none. -/
def counting : Request := asking "counts[a]=1&counts[b]=many"

/-- What is told about the count that is none. -/
def countError : FieldError := ⟨"counts", "invalid map value for key 'b': invalid integer"⟩

theorem outcome_bindAll_counting : (bindAll tallyCatalogue tallyModel counting true).outcome Journal.empty =
    (.ok (.ok ⟨.record "Tally" [("counts", .dict [(.text "a", .int 1)])], [countError]⟩), Journal.empty) := by
  have hpairs : counting.queryPairs = [("counts[a]", "1"), ("counts[b]", "many")] := by decide +kernel
  have hread : decodeStrings tallyCatalogue tallyModel.name
      [.ofPath counting, .ofQuery counting, .ofHeaders counting, .ofCookies counting] =
        .ok ⟨[(.text "counts", .dict [(.text "a", .int 1)])], [countError]⟩ := by
    unfold Offer.ofQuery
    rw [hpairs]
    with_unfolding_all rfl
  have hoffers := offersOf_of_not_saysForm (saysForm_asking "counts[a]=1&counts[b]=many")
  refine (outcome_bindAll rfl rfl hoffers _).trans ?_
  change (bindFrom tallyCatalogue tallyModel
    [.ofPath counting, .ofQuery counting, .ofHeaders counting, .ofCookies counting]).outcome _ = _
  unfold bindFrom bindStrings
  rw [hread]
  cbv

/-- The count that is no number is told once. -/
theorem bindAll_tells_once_iff_tally :
    ∃ offers, offersOf counting = .ok offers ∧ timesTold [] (tallyCatalogue.descriptorOf countsField) "counts[b]"
      (toldByStrings tallyCatalogue "Tally" offers) ≤ 1 := by
  obtain ⟨offers, others, hoffers, -, htimes⟩ :=
    bindAll_tells_once_iff (m := tallyModel) hasOwnNames_tally outcome_bindAll_counting
  refine ⟨offers, hoffers, (htimes [] _ leadsTo_counts rfl "counts[b]").2.mpr ?_⟩
  rintro ⟨form, hform, -⟩
  rw [show saysForm counting = false from saysForm_asking _] at hform
  cases hform

/-- The count that is no number, in the query of a form that is empty. -/
def countingInForm : Request :=
  ⟨"POST", "/", "counts[b]=many", [("content-type", "application/x-www-form-urlencoded")], [], []⟩

theorem form_countingInForm : countingInForm.form = .ok [] := by
  have hheader : Request.HeaderValue.ofText countingInForm.contentType = ⟨"application/x-www-form-urlencoded", []⟩ := by
    decide +kernel
  unfold Request.form
  simp only [hheader, show Request.formType? ⟨"application/x-www-form-urlencoded", []⟩ = some .pairs from rfl]
  rfl

/-- It is told twice: the form offers the keys of the query once more. -/
theorem bindAll_tells_twice_in_form :
    (bindAll tallyCatalogue tallyModel countingInForm true).outcome Journal.empty =
      (.ok (.ok ⟨.record "Tally" [("counts", .dict [])], [countError, countError]⟩), Journal.empty) ∧
    ∃ offers, offersOf countingInForm = .ok offers ∧
      timesTold [] (tallyCatalogue.descriptorOf countsField) "counts[b]"
        (toldByStrings tallyCatalogue "Tally" offers) = 2 := by
  have hpairs : countingInForm.queryPairs = [("counts[b]", "many")] := by decide +kernel
  have hoffers := offersOf_of_saysForm (r := countingInForm) (by decide +kernel)
  rw [form_countingInForm] at hoffers
  have hread : decodeStrings tallyCatalogue tallyModel.name [.ofPath countingInForm, .ofQuery countingInForm,
      .ofHeaders countingInForm, .ofCookies countingInForm, .ofForm countingInForm []] =
        .ok ⟨[], [countError, countError]⟩ := by
    unfold Offer.ofQuery Offer.ofForm
    rw [hpairs]
    with_unfolding_all rfl
  refine ⟨(outcome_bindAll rfl (by decide +kernel) hoffers _).trans ?_, _, hoffers, ?_⟩
  · unfold bindFrom bindStrings
    rw [hread]
    cbv
  · unfold Offer.ofQuery Offer.ofForm
    rw [hpairs]
    decide +kernel

end Binding
end Intake
