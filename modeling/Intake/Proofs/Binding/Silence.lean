import Intake.Proofs.Binding.Isolation

/-!
Offers that say nothing. A part of a request that has no text under any key that a model looks for, and no key in
brackets behind the name of a map, can be left out: the same is read without it, unless asking it is a fault, or
something is not read at all that would have to be described. How deep a record may be read makes no difference, if it
is enough.
-/

namespace Intake.Binding

variable {α β : Type} {c : Catalogue} {bad : Fault → Prop}

/-- An operation comes to what another one comes to, or it fails by a fault of a kind. -/
def ComesTo (bad : Fault → Prop) (x y : Except Fault α) : Prop := x = y ∨ ∃ fault, x = .error fault ∧ bad fault

section ComesTo

variable {x y z : Except Fault α}

theorem ComesTo.refl (x : Except Fault α) : ComesTo bad x x := .inl rfl

theorem ComesTo.fault {fault : Fault} (h : bad fault) (y : Except Fault α) : ComesTo bad (.error fault) y :=
  .inr ⟨fault, rfl, h⟩

theorem ComesTo.mono {bad' : Fault → Prop} (hxy : ComesTo bad x y) (hbad : ∀ fault, bad fault → bad' fault) :
    ComesTo bad' x y :=
  hxy.imp_right fun ⟨fault, hfault, h⟩ => ⟨fault, hfault, hbad fault h⟩

theorem ComesTo.trans (hxy : ComesTo bad x y) (hyz : ComesTo bad y z) : ComesTo bad x z := by
  rcases hxy with rfl | hfault
  · exact hyz
  · exact .inr hfault

theorem ComesTo.bind {f g : α → Except Fault β} (hxy : ComesTo bad x y) (hfg : ∀ v, ComesTo bad (f v) (g v)) :
    ComesTo bad (x >>= f) (y >>= g) := by
  rcases hxy with rfl | ⟨fault, rfl, hbad⟩
  · cases x with
    | error fault => exact .inl rfl
    | ok v => exact hfg v
  · exact .fault hbad _

theorem ComesTo.bind_same {f : α → Except Fault β} (hxy : ComesTo bad x y) : ComesTo bad (x >>= f) (y >>= f) :=
  hxy.bind fun _ => .refl _

end ComesTo

/-- Every operation gives something, or a fault of any kind. -/
theorem gives_any (x : Except Fault α) : Gives (fun _ => True) (fun _ => True) x := by
  cases x <;> trivial

/-! ### Records, field by field -/

section records

variable {read read' : Descriptor → Except Fault Reading} {record record' : String → List Offer → String → String →
  Except Fault Decoded} {d : Descriptor} {offers offers' : List Offer} {name base path : String}

theorem comesTo_readFields {fields : List Descriptor}
    (hread : ∀ d ∈ fields, d.formSkip = false → ComesTo bad (read d) (read' d)) :
    ComesTo bad (readFields read fields) (readFields read' fields) := by
  induction fields with
  | nil => exact .refl _
  | cons d rest ih =>
      have hrest := ih fun e he => hread e (List.mem_cons_of_mem d he)
      rw [readFields, readFields]
      split
      · exact hrest
      · rename_i hskip
        refine (hread d List.mem_cons_self (by simpa using hskip)).bind fun found => ?_
        exact hrest.bind_same

/-- Two readings of a record of one model come to the same if those of its fields do. -/
theorem comesTo_readRecord {depth depth' : Nat}
    (hread : ∀ m fields, c.model? name = some m → c.describe m = .ok fields → ∀ d ∈ fields, d.formSkip = false →
      ComesTo bad (readField c (readRecord c depth) offers base path d)
        (readField c (readRecord c depth') offers' base path d)) :
    ComesTo bad (readRecord c (depth + 1) name offers base path)
      (readRecord c (depth' + 1) name offers' base path) := by
  rw [readRecord, readRecord]
  cases hm : c.model? name with
  | none => exact .refl _
  | some m =>
      dsimp only
      cases hdescribe : Action.describe c m with
      | error fault => exact .refl _
      | ok fields =>
          have hfields := hread m fields hm (Action.of_describe_eq_ok hdescribe)
          exact (comesTo_readFields hfields).bind_same

/-- What is read of the record in a field: nothing, if no offer is left that could have it. -/
def readInside (record : String → List Offer → String → String → Except Fault Decoded) (d : Descriptor)
    (model : String) (offers : List Offer) (base path : String) : Except Fault Decoded :=
  if (offersInside d offers).isEmpty then .ok ⟨[], []⟩
  else record model (offersInside d offers) (keyUnder base d.formName) (Validation.join path d.wireName)

/-- A field that is a record is read as what its record comes to, and one without a record is not read. -/
theorem readField_of_record (hkind : d.kind = .record) :
    readField c record offers base path d =
      match d.model with
      | none => .ok .nothing
      | some model => readInside record d model offers base path >>= fun inner =>
          .ok ⟨if inner.entries.isEmpty then none else some (.dict inner.entries), inner.errors⟩ := by
  unfold readField readInside offersInside
  simp only [hkind]
  cases d.model with
  | none => rfl
  | some model =>
      dsimp only
      split
      · rfl
      · rfl

/-- A field comes to the same if the record in it does, or the texts that are found for it. -/
theorem comesTo_readField (hshown : d.formSkip = false)
    (hinside : ∀ model, d.kind = .record → d.model = some model →
      ComesTo bad (readInside record d model offers base path) (readInside record' d model offers' base path))
    (hleaf : d.kind ≠ .record → ComesTo bad
      (leafReading c d base (Validation.join path d.wireName) (offersFor [] d offers))
      (leafReading c d base (Validation.join path d.wireName) (offersFor [] d offers'))) :
    ComesTo bad (readField c record offers base path d) (readField c record' offers' base path d) := by
  by_cases hkind : d.kind = .record
  · rw [readField_of_record hkind, readField_of_record hkind]
    cases hmodel : d.model with
    | none => exact .refl _
    | some model => exact (hinside model hkind hmodel).bind_same
  · rw [readField_leaf record hkind hshown, readField_leaf record' hkind hshown]
    exact hleaf hkind

end records

/-! ### Depth -/

/-- A record that is read more deeply comes to the same, unless it was read too deep. -/
theorem comesTo_readRecord_succ (depth : Nat) (name : String) (offers : List Offer) (base path : String) :
    ComesTo (· = .tooDeep) (readRecord c depth name offers base path)
      (readRecord c (depth + 1) name offers base path) := by
  induction depth generalizing name offers base path with
  | zero => exact .inr ⟨_, rfl, rfl⟩
  | succ depth ih =>
      refine comesTo_readRecord fun m fields _ _ d _ hshown => ?_
      refine comesTo_readField hshown (fun model _ _ => ?_) fun _ => .refl _
      unfold readInside
      split
      · exact .refl _
      · exact ih _ _ _ _

theorem comesTo_readRecord_of_le {depth depth' : Nat} (hle : depth ≤ depth') (name : String) (offers : List Offer)
    (base path : String) :
    ComesTo (· = .tooDeep) (readRecord c depth name offers base path) (readRecord c depth' name offers base path) := by
  induction hle with
  | refl => exact .refl _
  | step _ ih => exact ih.trans (comesTo_readRecord_succ _ _ _ _ _)

/-- A record that was read is read the same at any greater depth. -/
theorem readRecord_of_le {depth depth' : Nat} {name base path : String} {offers : List Offer} {found : Decoded}
    (hread : readRecord c depth name offers base path = .ok found) (hle : depth ≤ depth') :
    readRecord c depth' name offers base path = .ok found := by
  rcases comesTo_readRecord_of_le hle name offers base path with hsame | ⟨fault, hfault, -⟩
  · rw [← hsame, hread]
  · rw [hread] at hfault
    cases hfault

/-! ### Leaving offers out -/

/-- An offer that says nothing to a record of a model, under the key of the record: it has no text under the key of
any leaf that may be read from it, and no key in brackets behind that of a map. -/
structure IsSilent (c : Catalogue) (name base : String) (o : Offer) : Prop where
  texts : ∀ way leaf, LeadsTo c name way leaf → leaf.kind ≠ .map → admits way leaf o.source = true →
    o.values (keyUnder (baseOf base way) (leaf.nameIn o.source)) = []
  brackets : ∀ way leaf, LeadsTo c name way leaf → leaf.kind = .map → admits way leaf o.source = true →
    ∀ key ∈ o.keys, bracketed? (keyUnder (baseOf base way) (leaf.nameIn o.source)) key = none

/-- An offer without texts and keys says nothing. -/
theorem isSilent_of_empty {name base : String} {o : Offer} (hvalues : ∀ key, o.values key = []) (hkeys : o.keys = []) :
    IsSilent c name base o :=
  ⟨fun _ _ _ _ _ => hvalues _, fun _ _ _ _ _ key hkey => by rw [hkeys] at hkey; cases hkey⟩

/-- The offers that the record in a field is read from. -/
theorem mem_offersInside {d : Descriptor} {o : Offer} {offers : List Offer} :
    o ∈ offersInside d offers ↔ o ∈ offers ∧ (d.source = .auto ∨ d.source = o.source) ∧ o.source.isNested = true := by
  simp [offersInside, admitted, and_comm]

theorem IsSilent.inside {name base model : String} {o : Offer} {m : Model} {fields : List Descriptor} {d : Descriptor}
    {offers : List Offer} (h : IsSilent c name base o) (hm : c.model? name = some m)
    (hfields : c.describe m = .ok fields) (hd : d ∈ fields) (hkind : d.kind = .record) (hmodel : d.model = some model)
    (hshown : d.formSkip = false) (ho : o ∈ offersInside d offers) :
    IsSilent c model (keyUnder base d.formName) o := by
  obtain ⟨-, hsource, hnested⟩ := mem_offersInside.mp ho
  have hadmits : ∀ way leaf, admits way leaf o.source = true → admits (d :: way) leaf o.source = true := by
    intro way leaf hway
    unfold admits at hway ⊢
    rw [List.cons_append, List.all_cons, hnested, Bool.true_or, Bool.and_true]
    rw [hnested, Bool.true_or, Bool.and_true] at hway
    rw [hway, hshown]
    simpa using hsource
  constructor
  · intro way leaf hway hmap hleaf
    exact h.texts (d :: way) leaf (.inside hm hfields hd hkind hmodel hway) hmap (hadmits way leaf hleaf)
  · intro way leaf hway hmap hleaf
    exact h.brackets (d :: way) leaf (.inside hm hfields hd hkind hmodel hway) hmap (hadmits way leaf hleaf)

section leaves

variable {d : Descriptor} {base path : String} {offers : List Offer} {keep : Offer → Bool}

/-- The texts that are found for a field are found without offers that have none, unless one of those cannot be asked
that is asked. -/
theorem comesTo_firstTexts
    (hsilent : ∀ o ∈ offers, keep o = false → o.values (keyUnder base (d.nameIn o.source)) = [])
    (hread : ∀ before o after, offers = before ++ o :: after → keep o = false →
      (∀ p ∈ before, p.values (keyUnder base (d.nameIn p.source)) = []) →
        Gives bad (fun _ => True) (o.read (keyUnder base (d.nameIn o.source)))) :
    ComesTo bad (firstTexts d base offers) (firstTexts d base (offers.filter keep)) := by
  induction offers with
  | nil => exact .refl _
  | cons o rest ih =>
      have hvalues := gives_read o (keyUnder base (d.nameIn o.source))
      have hrest := ih (fun p hp => hsilent p (List.mem_cons_of_mem o hp))
      have hlater (hnone : o.values (keyUnder base (d.nameIn o.source)) = []) :
          ∀ before p after, rest = before ++ p :: after → keep p = false →
            (∀ q ∈ before, q.values (keyUnder base (d.nameIn q.source)) = []) →
              Gives bad (fun _ => True) (p.read (keyUnder base (d.nameIn p.source))) := by
        intro before p after hwhole hp hbefore
        exact hread (o :: before) p after (by rw [hwhole, List.cons_append]) hp
          (List.forall_mem_cons.mpr ⟨hnone, hbefore⟩)
      cases hkeep : keep o with
      | true =>
          rw [List.filter_cons_of_pos hkeep, firstTexts, firstTexts]
          cases hraws : o.read (keyUnder base (d.nameIn o.source)) with
          | error fault => exact .refl _
          | ok raws =>
              rw [hraws] at hvalues
              rw [ok_bind, ok_bind]
              split
              · rename_i hempty
                exact hrest (hlater (by rw [← show raws = _ from hvalues]; exact List.isEmpty_iff.mp hempty))
              · exact .refl _
      | false =>
          have hnone := hsilent o List.mem_cons_self hkeep
          have hgives := hread [] o rest rfl hkeep (fun p hp => absurd hp List.not_mem_nil)
          rw [List.filter_cons_of_neg (by simp [hkeep]), firstTexts]
          cases hraws : o.read (keyUnder base (d.nameIn o.source)) with
          | error fault =>
              rw [hraws] at hgives
              exact .fault hgives _
          | ok raws =>
              rw [hraws] at hvalues
              rw [ok_bind, show raws = [] from (show raws = _ from hvalues).trans hnone]
              exact hrest (hlater hnone)

/-- The entries of a map are found without offers that have no key in brackets behind its name. -/
theorem readMaps_filter (hsilent : ∀ o ∈ offers, keep o = false → ∀ key ∈ o.keys,
      bracketed? (keyUnder base (d.nameIn o.source)) key = none) :
    readMaps c d base path offers = readMaps c d base path (offers.filter keep) := by
  induction offers with
  | nil => rfl
  | cons o rest ih =>
      have hrest := ih fun p hp => hsilent p (List.mem_cons_of_mem o hp)
      cases hkeep : keep o with
      | true =>
          rw [List.filter_cons_of_pos hkeep, readMaps, readMaps, hrest]
      | false =>
          have hnone : readMap c d (keyUnder base (d.nameIn o.source)) path o = .ok ([], []) := by
            rw [readMap, filterMapM_of_forall (g := fun _ => none)]
            · rw [List.filterMap_none]
              rfl
            · intro key hkey
              rw [hsilent o List.mem_cons_self hkeep key hkey]
              rfl
          rw [List.filter_cons_of_neg (by simp [hkeep]), readMaps, hnone, ok_bind, hrest]
          cases readMaps c d base path (rest.filter keep) <;> rfl

end leaves

/-- Reading a leaf of a record comes to ask an offer: it may be read from the offer, and no offer before it that it may
be read from has a text for it. -/
def Asks (leaf : Descriptor) (base : String) (offers : List Offer) (o : Offer) : Prop :=
  ∃ before after, offersFor [] leaf offers = before ++ o :: after ∧
    ∀ p ∈ before, p.values (keyUnder base (leaf.nameIn p.source)) = []

theorem Asks.mem_offersFor {leaf : Descriptor} {base : String} {offers : List Offer} {o : Offer}
    (h : Asks leaf base offers o) : o ∈ offersFor [] leaf offers := by
  obtain ⟨before, after, hwhole, -⟩ := h
  rw [hwhole]
  exact List.mem_append_right _ List.mem_cons_self

/-- Every part of a request but the headers can be asked for every name. -/
theorem read_of_not_header {o : Offer} (ho : o.source ≠ .header) (key : String) : o.read key = .ok (o.values key) := by
  rw [Offer.read, if_neg (by simpa using ho)]

theorem not_header_of_isNested {source : Source} (h : source.isNested = true) : source ≠ .header := by
  rintro rfl
  cases h

/-- Fields of which nothing is read leave a record empty. -/
theorem readFields_of_nothing {read : Descriptor → Except Fault Reading}
    (hread : ∀ d : Descriptor, d.formSkip = false → read d = .ok .nothing) (fields : List Descriptor) :
    readFields read fields = .ok ⟨[], []⟩ := by
  induction fields with
  | nil => rfl
  | cons d rest ih =>
      rw [readFields]
      split
      · exact ih
      · rename_i hskip
        rw [hread d (by simpa using hskip), ih]
        rfl

/-- Of a record that is read from no offer nothing is read. -/
theorem comesTo_nothing {name : String} (hdeep : bad .tooDeep)
    (hdescribed : ∀ m, c.model? name = some m → Gives bad (fun _ => True) (Action.describe c m)) (depth : Nat)
    (base path : String) : ComesTo bad (readRecord c depth name [] base path) (.ok ⟨[], []⟩) := by
  cases depth with
  | zero => exact .fault hdeep _
  | succ depth =>
      have hfield : ∀ d : Descriptor, d.formSkip = false →
          readField c (readRecord c depth) [] base path d = .ok .nothing := by
        intro d hshown
        by_cases hkind : d.kind = .record
        · rw [readField_of_record hkind]
          cases d.model <;> rfl
        · rw [readField_leaf _ hkind hshown]
          exact leafReading_nil d _ _
      rw [readRecord]
      cases hm : c.model? name with
      | none => exact .refl _
      | some m =>
          have hgives := hdescribed m hm
          dsimp only
          cases hdescribe : Action.describe c m with
          | error fault =>
              rw [hdescribe] at hgives
              exact .fault hgives _
          | ok fields =>
              rw [ok_bind, readFields_of_nothing hfield fields]
              exact .refl _

section filter

variable {keep : Offer → Bool} {name base : String} {offers : List Offer}

theorem offersInside_filter (d : Descriptor) :
    offersInside d (offers.filter keep) = (offersInside d offers).filter keep := by
  simp only [offersInside, admitted, List.filter_filter]
  exact List.filter_congr fun o _ => by simp [Bool.and_comm, Bool.and_assoc]

theorem offersFor_filter (d : Descriptor) :
    offersFor [] d (offers.filter keep) = (offersFor [] d offers).filter keep := by
  simp only [offersFor, List.filter_filter]
  exact List.filter_congr fun o _ => Bool.and_comm _ _

/-- A leaf of a record is read without offers that say nothing. -/
theorem comesTo_leafReading_filter {leaf : Descriptor} (hleaf : LeadsTo c name [] leaf)
    (hsilent : ∀ o ∈ offers, keep o = false → IsSilent c name base o)
    (hasks : ∀ o, Asks leaf base offers o → keep o = false →
      Gives bad (fun _ => True) (o.read (keyUnder base (leaf.nameIn o.source)))) (path : String) :
    ComesTo bad (leafReading c leaf base path (offersFor [] leaf offers))
      (leafReading c leaf base path (offersFor [] leaf (offers.filter keep))) := by
  have hadmits : ∀ o ∈ offersFor [] leaf offers, o ∈ offers ∧ admits [] leaf o.source = true := fun o ho =>
    List.mem_filter.mp ho
  unfold leafReading
  rw [offersFor_filter]
  split
  · rename_i hmap
    rw [← readMaps_filter fun o ho hkeep key hkey => ?_]
    · exact .refl _
    · exact (hsilent o (hadmits o ho).1 hkeep).brackets [] leaf hleaf hmap (hadmits o ho).2 key hkey
  · rename_i hmap
    unfold readLeaf
    refine (comesTo_firstTexts (fun o ho hkeep => ?_) fun before o after hwhole hkeep hbefore => ?_).bind_same
    · exact (hsilent o (hadmits o ho).1 hkeep).texts [] leaf hleaf hmap (hadmits o ho).2
    · exact hasks o ⟨before, after, hwhole, hbefore⟩ hkeep

/-- A record is read without offers that say nothing. -/
theorem comesTo_readRecord_filter (hdeep : bad .tooDeep) (depth : Nat)
    (hdescribed : ∀ inner m, Relation.ReflTransGen (Encloses c) name inner → c.model? inner = some m →
      Gives bad (fun _ => True) (Action.describe c m))
    (hsilent : ∀ o ∈ offers, keep o = false → IsSilent c name base o)
    (hasks : ∀ leaf o, LeadsTo c name [] leaf → Asks leaf base offers o → keep o = false →
      Gives bad (fun _ => True) (o.read (keyUnder base (leaf.nameIn o.source)))) (path : String) :
    ComesTo bad (readRecord c depth name offers base path)
      (readRecord c depth name (offers.filter keep) base path) := by
  induction depth generalizing name base offers path with
  | zero => exact .refl _
  | succ depth ih =>
      refine comesTo_readRecord fun m fields hm hfields d hd hshown => ?_
      refine comesTo_readField hshown (fun model hkind hmodel => ?_) fun hkind => ?_
      · -- The record in a field is read from offers that can be asked for every name.
        have hencloses := encloses_of_describe hm hfields hd hkind hmodel
        have hinner : ComesTo bad
            (readRecord c depth model (offersInside d offers) (keyUnder base d.formName)
              (Validation.join path d.wireName))
            (readRecord c depth model ((offersInside d offers).filter keep) (keyUnder base d.formName)
              (Validation.join path d.wireName)) := by
          refine ih (fun inner m hreach => hdescribed inner m (.head hencloses hreach)) (fun o ho hkeep => ?_)
            (fun leaf o _ hasks _ => ?_) _
          · exact (hsilent o (mem_offersInside.mp ho).1 hkeep).inside hm hfields hd hkind hmodel hshown ho
          · have hnested := (mem_offersInside.mp (List.mem_filter.mp hasks.mem_offersFor).1).2.2
            rw [read_of_not_header (not_header_of_isNested hnested)]
            trivial
        unfold readInside
        rw [offersInside_filter]
        by_cases hnone : offersInside d offers = []
        · rw [hnone]
          exact .refl _
        · rw [if_neg (by simpa using hnone)]
          split
          · rename_i hempty
            rw [List.isEmpty_iff.mp hempty] at hinner
            refine hinner.trans (comesTo_nothing hdeep (fun m hm => hdescribed model m (.single hencloses) hm) _ _ _)
          · exact hinner
      · have hleaf : LeadsTo c name [] d := .leaf hm hfields hd hkind
        exact comesTo_leafReading_filter hleaf hsilent (fun o => hasks d o hleaf) _

end filter

/-- What is read from offers is read without those that say nothing, unless reading fails by what is declared: because
an offer cannot be asked that says nothing, or because a record cannot be described that is not read without them. -/
theorem decodeStrings_filter {keep : Offer → Bool} {root : String} {offers : List Offer} (hdeep : bad .tooDeep)
    (hunfolded : IsUnfolded c root)
    (hdescribed : ∀ inner m, Relation.ReflTransGen (Encloses c) root inner → c.model? inner = some m →
      Gives bad (fun _ => True) (Action.describe c m))
    (hsilent : ∀ o ∈ offers, keep o = false → IsSilent c root "" o)
    (hasks : ∀ leaf o, LeadsTo c root [] leaf → Asks leaf "" offers o → keep o = false →
      Gives bad (fun _ => True) (o.read (keyUnder "" (leaf.nameIn o.source)))) :
    ComesTo (fun fault => fault.IsDeclared ∧ bad fault) (decodeStrings c root offers)
      (decodeStrings c root (offers.filter keep)) := by
  have hbound : Catalogue.depthBound c (offers.filter keep) ≤ Catalogue.depthBound c offers :=
    Nat.mul_le_mul_left _ (Nat.succ_le_succ (List.length_filter_le _ _))
  have hends := gives_decodeStrings hunfolded offers
  have hends' := gives_decodeStrings hunfolded (offers.filter keep)
  have hdropped := comesTo_readRecord_filter hdeep (Catalogue.depthBound c offers) hdescribed hsilent hasks ""
  have hdeeper : decodeStrings c root (offers.filter keep) =
      readRecord c (Catalogue.depthBound c offers) root (offers.filter keep) "" "" := by
    rcases comesTo_readRecord_of_le hbound root (offers.filter keep) "" "" with hsame | ⟨fault, hfault, rfl⟩
    · exact hsame
    · rw [decodeStrings, hfault] at hends'
      exact hends'.elim
  rw [hdeeper]
  rcases hdropped with hsame | ⟨fault, hfault, hbad⟩
  · exact .inl hsame
  · rw [decodeStrings, hfault] at hends
    exact .inr ⟨fault, hfault, hends, hbad⟩

end Intake.Binding
