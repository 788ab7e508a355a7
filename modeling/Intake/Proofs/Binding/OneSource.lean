import Intake.Binding.Bind
import Intake.Proofs.Binding.Silence

/-!
Requests that offer something in one part only. Binding each field from the first part that has it is then binding from
that part, with the same record, the same errors and the same notes; but a field that may be read from the headers and
has a name that no header has makes it fail, if no part before the headers has a text for it.
-/

namespace Intake.Binding

variable {c : Catalogue} {m : Model} {r : Request} {offers : List Offer} {bad : Fault → Prop}

/-- The part of a request that a way to bind it reads, if that is one. -/
def Way.source? : Way → Option Source
  | .query => some .query
  | .path => some .path
  | .header => some .header
  | .cookie => some .cookie
  | .form => some .form
  | .all | .json | .xml => none

/-- Whether a request says that its body is a form, as far as binding each field from its own part looks. -/
def saysForm (r : Request) : Bool := formTypes.any fun type => r.contentType.startsWith type

/-- Binding from offers, as what binding a request leads to. -/
def bindFrom (c : Catalogue) (m : Model) (offers : List Offer) : Action Outcome := do
  return .ok (← bindStrings c m offers)

theorem offersOf_of_saysForm (htype : saysForm r = true) : offersOf r =
    r.form.map fun form => [.ofPath r, .ofQuery r, .ofHeaders r, .ofCookies r, .ofForm r form] := by
  unfold offersOf
  change (if saysForm r = true then _ else _) = _
  rw [if_pos htype]
  cases r.form <;> rfl

theorem offersOf_of_not_saysForm (htype : saysForm r = false) :
    offersOf r = .ok [.ofPath r, .ofQuery r, .ofHeaders r, .ofCookies r] := by
  unfold offersOf
  change (if saysForm r = true then _ else _) = _
  rw [htype]
  rfl

/-- A way that reads one part of a request binds from what that part offers, which is one of all offers. -/
theorem exists_offer {way : Way} {source : Source} (hway : way.source? = some source)
    (hform : saysForm r = true ↔ source = .form) (hoffers : offersOf r = .ok offers) :
    ∃ o, offers.filter (fun p => p.source == source) = [o] ∧ ∀ options, bind c m r options way = bindFrom c m [o] := by
  cases htype : saysForm r with
  | true =>
      obtain rfl := hform.mp htype
      rw [offersOf_of_saysForm htype] at hoffers
      obtain ⟨form, hread, rfl⟩ := exists_of_map_eq_ok hoffers
      refine ⟨.ofForm r form, rfl, fun options => ?_⟩
      cases way with
      | form =>
          simp only [bind, bindForm, hread]
          rfl
      | _ => cases hway
  | false =>
      rw [offersOf_of_not_saysForm htype] at hoffers
      obtain rfl := Except.ok.inj hoffers
      cases way with
      | form =>
          rw [hform.mpr (Option.some.inj hway).symm] at htype
          cases htype
      | all | json | xml => cases hway
      | query | path | header | cookie =>
          obtain rfl := Option.some.inj hway
          exact ⟨_, rfl, fun _ => rfl⟩

/-- What is read for a record has been described, and read field by field. -/
theorem exists_readFields_of_decodeStrings {root : String} (hm : c.model? root = some m) {found : Decoded}
    (h : decodeStrings c root offers = .ok found) : ∃ depth fields inner, Action.describe c m = .ok fields ∧
      readFields (readField c (readRecord c depth) offers "" "") fields = .ok inner := by
  have hdepth : ∃ depth, Catalogue.depthBound c offers = depth + 1 :=
    Nat.exists_eq_add_one.mpr (Nat.mul_pos (Nat.succ_pos _) (Nat.succ_pos _))
  obtain ⟨depth, hdepth⟩ := hdepth
  rw [decodeStrings, hdepth, readRecord] at h
  simp only [hm] at h
  obtain ⟨fields, hfields, h⟩ := exists_of_bind_eq_ok h
  obtain ⟨inner, hinner, -⟩ := exists_of_bind_eq_ok h
  exact ⟨depth, fields, inner, hfields, hinner⟩

/-- Where the body is not said to be a document, binding each field from the first part that has it is binding from all
offers. -/
theorem outcome_bindAll (hm : c.model? m.name = some m)
    (hjson : Text.occursIn "json".toList r.contentType.toList = false) (hoffers : offersOf r = .ok offers)
    (j : Journal) : (bindAll c m r true).outcome j = (bindFrom c m offers).outcome j := by
  have hbody : bodyDocument r = .ok (.ok none) := by
    unfold bodyDocument
    rw [hjson]
    rfl
  unfold bindAll bindFrom bindStrings
  rw [hoffers]
  simp only [pure_bind, bind_assoc]
  cases hfound : decodeStrings c m.name offers with
  | error fault => rfl
  | ok found =>
      obtain ⟨depth, fields, inner, hfields, -⟩ := exists_readFields_of_decodeStrings hm hfound
      rw [hfields, hbody]
      rw [Action.outcome_bind, Action.outcome_liftM]
      dsimp only
      rw [Action.outcome_bind, Action.outcome_liftM]
      dsimp only
      split <;> rfl

/-- What comes of offers comes of other offers from which the same is read. -/
theorem outcome_bindFrom_congr {offers' : List Offer}
    (h : decodeStrings c m.name offers = decodeStrings c m.name offers') (j : Journal) :
    (bindFrom c m offers).outcome j = (bindFrom c m offers').outcome j := by
  unfold bindFrom bindStrings
  rw [h]

theorem outcome_bindFrom_of_fault {fault : Fault} (h : decodeStrings c m.name offers = .error fault) (j : Journal) :
    (bindFrom c m offers).outcome j = (.error fault, j) := by
  unfold bindFrom bindStrings
  rw [h]
  rfl

/-- Binding from offers tells no failure: it gives a record, or it is a fault. -/
theorem outcome_bindFrom_ne_failure (failure : Failure) (j later : Journal) :
    (bindFrom c m offers).outcome j ≠ (.ok (.error failure), later) := by
  intro hfailed
  obtain ⟨bound, middle, -, hdone⟩ := Action.of_outcome_bind hfailed
  cases hdone

/-- A form that cannot be read is told, and nothing is bound. -/
theorem outcome_bindAll_of_invalidForm {fault : Request.MultipartFault} (hfault : offersOf r = .error fault)
    (j : Journal) : ((bindAll c m r true).outcome j).1 = .ok (.error (.invalidForm fault.message "bind")) := by
  unfold bindAll
  rw [hfault]
  rfl

theorem outcome_bind_of_invalidForm {way : Way} {source : Source} (hway : way.source? = some source)
    (hform : saysForm r = true ↔ source = .form) {fault : Request.MultipartFault} (hfault : offersOf r = .error fault)
    {options : Options} (j : Journal) :
    ((bind c m r options way).outcome j).1 = .ok (.error (.invalidForm fault.message "bind.form")) := by
  cases htype : saysForm r with
  | false =>
      rw [offersOf_of_not_saysForm htype] at hfault
      cases hfault
  | true =>
      obtain rfl := hform.mp htype
      rw [offersOf_of_saysForm htype] at hfault
      cases hread : r.form with
      | ok form =>
          rw [hread] at hfault
          cases hfault
      | error fault' =>
          rw [hread] at hfault
          obtain rfl : fault' = fault := Except.error.inj hfault
          cases way with
          | form =>
              simp only [bind, bindForm, hread]
              rfl
          | _ => cases hway

/-! ### Names that no header has -/

/-- Reading a leaf of the outermost record comes to ask the headers for a name that no header has. -/
def AsksInVain (leaf : Descriptor) (offers : List Offer) : Prop :=
  ∃ o, Asks leaf "" offers o ∧ o.source = .header ∧ Offer.notInHeader? leaf.headerName ≠ none

/-- An offer can be asked, unless it is the headers that are asked in vain. -/
theorem read_of_not_asksInVain {leaf : Descriptor} {o : Offer} (hasks : Asks leaf "" offers o)
    (hvain : ¬ AsksInVain leaf offers) :
    o.read (keyUnder "" (leaf.nameIn o.source)) = .ok (o.values (keyUnder "" (leaf.nameIn o.source))) := by
  by_cases hheader : o.source = .header
  · have hname : Offer.notInHeader? (keyUnder "" (leaf.nameIn o.source)) = none := by
      rw [hheader]
      exact Classical.not_not.mp fun hname => hvain ⟨o, hasks, hheader, hname⟩
    rw [Offer.read, hname, ite_self]
  · exact read_of_not_header hheader _

/-- Where an offer that is asked cannot be asked, nothing is found. -/
theorem exists_fault_of_firstTexts {d : Descriptor} {base : String} {before : List Offer} (after : List Offer)
    {o : Offer} {fault : Fault} (hread : o.read (keyUnder base (d.nameIn o.source)) = .error fault)
    (hbefore : ∀ p ∈ before, p.values (keyUnder base (d.nameIn p.source)) = []) :
    ∃ fault, firstTexts d base (before ++ o :: after) = .error fault := by
  induction before with
  | nil => exact ⟨fault, by rw [List.nil_append, firstTexts, hread]; rfl⟩
  | cons p rest ih =>
      have hvalues := gives_read p (keyUnder base (d.nameIn p.source))
      rw [List.cons_append, firstTexts]
      cases hraws : p.read (keyUnder base (d.nameIn p.source)) with
      | error other => exact ⟨other, rfl⟩
      | ok raws =>
          rw [hraws] at hvalues
          rw [ok_bind, show raws = [] from (show raws = _ from hvalues).trans (hbefore p List.mem_cons_self)]
          exact ih fun q hq => hbefore q (List.mem_cons_of_mem p hq)

/-- A record is not read if the headers are asked in vain for one of its leaves. -/
theorem exists_fault_of_asksInVain {root : String} {leaf : Descriptor} (hleaf : LeadsTo c root [] leaf)
    (hvain : AsksInVain leaf offers) : ∃ fault, decodeStrings c root offers = .error fault := by
  obtain ⟨o, hasks, hheader, hname⟩ := hvain
  have hadmits : admits [] leaf o.source = true := (List.mem_filter.mp hasks.mem_offersFor).2
  obtain ⟨⟨hshown, -⟩, hmap⟩ : (leaf.formSkip = false ∧ (leaf.source = .auto ∨ leaf.source = .header)) ∧
      leaf.kind ≠ .map := by
    rw [hheader] at hadmits
    simpa [admits, Source.isNested] using hadmits
  obtain ⟨problem, hproblem⟩ := Option.ne_none_iff_exists'.mp hname
  have hasked : o.read (keyUnder "" (leaf.nameIn o.source)) = .error (.unencodable problem) := by
    rw [Offer.read, hheader, show keyUnder "" (leaf.nameIn .header) = leaf.headerName from rfl, hproblem]
    rfl
  obtain ⟨before, after, hwhole, hbefore⟩ := hasks
  obtain ⟨fault, htexts⟩ := exists_fault_of_firstTexts after hasked hbefore
  rw [← hwhole] at htexts
  cases hread : decodeStrings c root offers with
  | error fault => exact ⟨fault, rfl⟩
  | ok found =>
      cases hleaf with
      | @leaf _ m fields _ hm hfields hd hkind =>
          obtain ⟨depth, fields', inner, hfields', hinner⟩ := exists_readFields_of_decodeStrings hm hread
          obtain rfl : fields' = fields := Except.ok.inj (hfields'.symm.trans (Action.describe_eq_ok hfields))
          have hfield := (eq_of_readFields hinner).2.2 leaf hd hshown
          rw [readField_leaf _ hkind hshown, leafReading, if_neg hmap, readLeaf, htexts] at hfield
          cases hfield

/-! ### Requests that offer something in one part -/

/-- A request that offers something to a model in one part only: its body is said to be a form exactly if that is the
part, and not to be a document; the offers of the other parts say nothing. -/
structure OffersOnly (c : Catalogue) (root : String) (r : Request) (source : Source) : Prop where
  form : saysForm r = true ↔ source = .form
  document : Text.occursIn "json".toList r.contentType.toList = false
  others : ∀ offers, offersOf r = .ok offers → ∀ o ∈ offers, o.source ≠ source → IsSilent c root "" o

/-- The models of a record and of all records in it can be described. -/
def IsDescribable (c : Catalogue) (root : String) : Prop :=
  ∀ name m, Relation.ReflTransGen (Encloses c) root name → c.model? name = some m → ∃ fields, c.describe m = .ok fields

/-- What is read from all offers is read from those of the one part that offers something, or reading fails by what is
declared; it does not fail if all models can be described and the headers are not asked in vain. -/
theorem decodeStrings_of_offersOnly {source : Source} {root : String} (hunfolded : IsUnfolded c root)
    (honly : OffersOnly c root r source) (hoffers : offersOf r = .ok offers) :
    ComesTo Fault.IsDeclared (decodeStrings c root offers)
      (decodeStrings c root (offers.filter fun o => o.source == source)) ∧
    (IsDescribable c root → (source = .header ∨ ∀ leaf, LeadsTo c root [] leaf → ¬ AsksInVain leaf offers) →
      decodeStrings c root offers = decodeStrings c root (offers.filter fun o => o.source == source)) := by
  have hsilent : ∀ o ∈ offers, (o.source == source) = false → IsSilent c root "" o := fun o ho hother =>
    honly.others offers hoffers o ho (by simpa using hother)
  constructor
  · have hcomes := decodeStrings_filter trivial hunfolded (fun _ _ _ _ => gives_any _) hsilent
      fun _ _ _ _ _ => gives_any _
    exact hcomes.mono fun _ h => h.1
  · intro hdescribable hnames
    have hdescribed : ∀ name m, Relation.ReflTransGen (Encloses c) root name → c.model? name = some m →
        Gives (· = .tooDeep) (fun _ => True) (Action.describe c m) := by
      intro name m hreach hm
      obtain ⟨fields, hfields⟩ := hdescribable name m hreach hm
      rw [Action.describe_eq_ok hfields]
      trivial
    have hasked : ∀ leaf o, LeadsTo c root [] leaf → Asks leaf "" offers o → (o.source == source) = false →
        Gives (· = .tooDeep) (fun _ => True) (o.read (keyUnder "" (leaf.nameIn o.source))) := by
      intro leaf o hleaf hasks hother
      have hread : o.read (keyUnder "" (leaf.nameIn o.source)) =
          .ok (o.values (keyUnder "" (leaf.nameIn o.source))) := by
        rcases hnames with rfl | hnames
        · exact read_of_not_header (by simpa using hother) _
        · exact read_of_not_asksInVain hasks (hnames leaf hleaf)
      rw [hread]
      trivial
    have hcomes : ComesTo (fun fault => fault.IsDeclared ∧ fault = .tooDeep) (decodeStrings c root offers)
        (decodeStrings c root (offers.filter fun o => o.source == source)) :=
      decodeStrings_filter rfl hunfolded hdescribed hsilent hasked
    -- No declaration brings it about that a record is too deep.
    rcases hcomes with hsame | ⟨fault, -, hdeclared, rfl⟩
    · exact hsame
    · exact hdeclared.elim

/-- For a request that offers something in one part only, binding each field from the first part that has it comes to
what binding from that part comes to, in models that are in no record of their own and can be described, if the headers
are not asked for a name that no header has before a text is found. If they are, it fails by a fault, and it can do so
if some model cannot be described. No failure is told but of a form that cannot be read, by both with one message. -/
theorem bind_all_of_offersOnly {way : Way} {source : Source} (hway : way.source? = some source)
    (hm : c.model? m.name = some m) (hunfolded : IsUnfolded c m.name) (honly : OffersOnly c m.name r source)
    (strict : Except Fault Bool) (j : Journal) :
    (∀ fault, offersOf r = .error fault →
      ((bind c m r ⟨true, strict⟩ .all).outcome j).1 = .ok (.error (.invalidForm fault.message "bind")) ∧
      ((bind c m r ⟨true, strict⟩ way).outcome j).1 = .ok (.error (.invalidForm fault.message "bind.form"))) ∧
    (∀ offers, offersOf r = .ok offers →
      (∀ failure later, (bind c m r ⟨true, strict⟩ .all).outcome j ≠ (.ok (.error failure), later)) ∧
      ((bind c m r ⟨true, strict⟩ .all).outcome j = (bind c m r ⟨true, strict⟩ way).outcome j ∨
        ∃ fault, fault.IsDeclared ∧ (bind c m r ⟨true, strict⟩ .all).outcome j = (.error fault, j)) ∧
      (IsDescribable c m.name → (source = .header ∨ ∀ leaf, LeadsTo c m.name [] leaf → ¬ AsksInVain leaf offers) →
        (bind c m r ⟨true, strict⟩ .all).outcome j = (bind c m r ⟨true, strict⟩ way).outcome j) ∧
      (∀ leaf, LeadsTo c m.name [] leaf → AsksInVain leaf offers →
        ∃ fault, fault.IsDeclared ∧ (bind c m r ⟨true, strict⟩ .all).outcome j = (.error fault, j))) := by
  constructor
  · intro fault hfault
    exact ⟨outcome_bindAll_of_invalidForm hfault j, outcome_bind_of_invalidForm hway honly.form hfault j⟩
  · intro offers hoffers
    obtain ⟨o, hkept, hone⟩ := exists_offer (c := c) (m := m) hway honly.form hoffers
    have hall := outcome_bindAll hm honly.document hoffers j
    have hends := gives_decodeStrings hunfolded offers
    obtain ⟨hcomes, hsame⟩ := decodeStrings_of_offersOnly hunfolded honly hoffers
    rw [hkept] at hcomes hsame
    rw [hone, show bind c m r ⟨true, strict⟩ .all = bindAll c m r true from rfl, hall]
    refine ⟨fun failure later => outcome_bindFrom_ne_failure failure j later, ?_,
      fun hdescribable hnames => outcome_bindFrom_congr (hsame hdescribable hnames) j, fun leaf hleaf hvain => ?_⟩
    · rcases hcomes with hsame | ⟨fault, hfault, hdeclared⟩
      · exact .inl (outcome_bindFrom_congr hsame j)
      · exact .inr ⟨fault, hdeclared, outcome_bindFrom_of_fault hfault j⟩
    · obtain ⟨fault, hfault⟩ := exists_fault_of_asksInVain hleaf hvain
      rw [hfault] at hends
      exact ⟨fault, hends, outcome_bindFrom_of_fault hfault j⟩

/-- A request that asks for something in its query. -/
def asking (query : String) : Request := ⟨"GET", "/", query, [], [], []⟩

theorem saysForm_asking (query : String) : saysForm (asking query) = false := rfl

/-- A request without anything but a query offers something in its query only. -/
theorem offersOnly_asking (c : Catalogue) (root query : String) : OffersOnly c root (asking query) .query where
  form := by simp [saysForm_asking]
  document := rfl
  others := by
    intro offers hoffers o ho hother
    obtain rfl := Except.ok.inj ((offersOf_of_not_saysForm (saysForm_asking query)).symm.trans hoffers)
    simp only [List.mem_cons, List.not_mem_nil, or_false] at ho
    rcases ho with rfl | rfl | rfl | rfl
    · exact isSilent_of_empty (fun _ => rfl) rfl
    · exact absurd rfl hother
    · exact isSilent_of_empty (fun _ => rfl) rfl
    · exact isSilent_of_empty (fun _ => rfl) rfl

def parcelModel : Model := plainModel "Parcel" [plainField "label" .str, plainField "to" (.record "Address")]

theorem isDescribable_parcel : IsDescribable parcelCatalogue "Parcel" := by
  intro name m _ hm
  obtain ⟨fields, hfields, -⟩ := isLegible_parcel name m hm
  exact ⟨fields, hfields⟩

theorem headerName_parcel {leaf : Descriptor} (hleaf : LeadsTo parcelCatalogue "Parcel" [] leaf) :
    leaf.headerName = "label" := by
  cases hleaf with
  | @leaf _ m fields _ hm hfields hd hkind =>
      obtain rfl := Option.some.inj hm
      obtain rfl := Except.ok.inj hfields
      rcases List.mem_pair.mp hd with rfl | rfl
      · rfl
      · exact absurd rfl hkind

/-- The label of a parcel is read from the query, and no header is asked in vain. -/
theorem bind_all_of_offersOnly_parcel :
    OffersOnly parcelCatalogue "Parcel" (asking "label=books") .query ∧ IsUnfolded parcelCatalogue "Parcel" ∧
      (bind parcelCatalogue parcelModel (asking "label=books") ⟨true, .ok false⟩ .all).outcome Journal.empty =
        (bind parcelCatalogue parcelModel (asking "label=books") ⟨true, .ok false⟩ .query).outcome Journal.empty := by
  have honly := offersOnly_asking parcelCatalogue "Parcel" "label=books"
  have hnames : ∀ leaf offers, LeadsTo parcelCatalogue "Parcel" [] leaf → ¬ AsksInVain leaf offers := by
    rintro leaf offers hleaf ⟨o, -, -, hname⟩
    rw [headerName_parcel hleaf] at hname
    exact hname (by cbv)
  have hway : Way.query.source? = some .query := rfl
  obtain ⟨-, hread⟩ :=
    bind_all_of_offersOnly (m := parcelModel) hway rfl isUnfolded_parcel honly (.ok false) Journal.empty
  obtain ⟨-, -, hsame, -⟩ := hread _ (offersOf_of_not_saysForm (saysForm_asking _))
  exact ⟨honly, isUnfolded_parcel, hsame isDescribable_parcel (.inr fun leaf => hnames leaf _)⟩

/-- A person has a name, under a key in letters that no header has. -/
def personModel : Model := plainModel "Person" [plainField "名" .str]

def personCatalogue : Catalogue := ⟨[personModel], []⟩

theorem notInHeader_person : Offer.notInHeader? "名" = some ⟨'名', 0, 1⟩ := by decide +kernel

/-- A label, posted in a form that is said to be one with a capital letter. -/
def proclaiming : Request :=
  ⟨"POST", "/", "", [("content-type", "Application/x-www-form-urlencoded")], "label=books".toUTF8.toList, []⟩

theorem form_proclaiming : proclaiming.form = .ok [("label", .text "books")] := by
  have hheader : Request.HeaderValue.ofText proclaiming.contentType = ⟨"application/x-www-form-urlencoded", []⟩ := by
    decide +kernel
  have hpairs : Request.pairsOf (Text.latin1 proclaiming.body) = [("label", "books")] := by decide +kernel
  unfold Request.form
  simp only [hheader, show Request.formType? ⟨"application/x-www-form-urlencoded", []⟩ = some .pairs from rfl, hpairs]
  rfl

theorem saysForm_proclaiming : saysForm proclaiming = false := by decide +kernel

/-- Where nothing is offered to a person, a header is asked for that there cannot be. -/
theorem asksInVain_person : AsksInVain (personCatalogue.descriptorOf (plainField "名" .str))
    [.ofPath (asking ""), .ofQuery (asking ""), .ofHeaders (asking ""), .ofCookies (asking "")] := by
  refine ⟨.ofHeaders (asking ""), ⟨[.ofPath (asking ""), .ofQuery (asking "")], [.ofCookies (asking "")], rfl, ?_⟩,
    rfl, ?_⟩
  · exact List.forall_mem_cons.mpr ⟨rfl, List.forall_mem_singleton.mpr (by cbv)⟩
  · exact Option.ne_none_iff_exists'.mpr ⟨_, notInHeader_person⟩

theorem leadsTo_person :
    LeadsTo personCatalogue "Person" [] (personCatalogue.descriptorOf (plainField "名" .str)) :=
  .leaf rfl rfl List.mem_cons_self (by decide)

/-- Binding each field from the first part that has it is not binding from the part that offers something. Where
nothing is offered for a name that no header has, the query gives a record without a text for it, but the headers are
asked for it in vain; and a form that is said to be one with a capital letter is read as a form, but is no part in which
fields are looked for. -/
theorem bind_all_differs_from_one_source :
    ((bind personCatalogue personModel (asking "") ⟨true, .ok false⟩ .query).outcome Journal.empty =
        (.ok (.ok ⟨.record "Person" [("名", .text "")], []⟩), Journal.empty) ∧
      ∃ fault, (bind personCatalogue personModel (asking "") ⟨true, .ok false⟩ .all).outcome Journal.empty =
        (.error fault, Journal.empty)) ∧
    (bind parcelCatalogue parcelModel proclaiming ⟨true, .ok false⟩ .form).outcome Journal.empty =
        (.ok (.ok ⟨.record "Parcel" [("label", .text "books"), ("to", .record "Address" [("street", .text "")])], []⟩),
          Journal.empty) ∧
      (bind parcelCatalogue parcelModel proclaiming ⟨true, .ok false⟩ .all).outcome Journal.empty =
        (.ok (.ok ⟨.record "Parcel" [("label", .text ""), ("to", .record "Address" [("street", .text "")])], []⟩),
          Journal.empty) := by
  refine ⟨⟨by cbv, ?_⟩, ?_, ?_⟩
  · obtain ⟨fault, hfault⟩ := exists_fault_of_asksInVain leadsTo_person asksInVain_person
    have hoffers := offersOf_of_not_saysForm (saysForm_asking "")
    have hall := outcome_bindAll (c := personCatalogue) (m := personModel) rfl rfl hoffers Journal.empty
    exact ⟨fault, hall.trans (outcome_bindFrom_of_fault hfault _)⟩
  · unfold bind bindForm
    rw [form_proclaiming]
    cbv
  · have hoffers := offersOf_of_not_saysForm saysForm_proclaiming
    refine (outcome_bindAll rfl (by decide +kernel) hoffers _).trans ?_
    cbv

end Intake.Binding
