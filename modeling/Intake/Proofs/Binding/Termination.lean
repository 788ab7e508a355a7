import Intake.Proofs.Binding.Reading
import Intake.Proofs.Model.Instance
import Mathlib.Data.List.ProdSigma

/-!
Where reading a record comes to an end. A record is read whether anything is offered for it or not, so the
keys of a request do not bound the recursion: it ends exactly where no record is read, from the same offers,
inside the reading of itself. A depth is enough that has room for every model with every number of offers.
-/

namespace Intake.Binding

variable {c : Catalogue} {root : String}

/-! ### Relations that lead back -/

section Recurs

variable {α β : Type} {r : α → α → Prop} {a : α}

/-- Steps from a start lead to something that they lead back to. -/
def Recurs (r : α → α → Prop) (start : α) : Prop := ∃ x, Relation.ReflTransGen r start x ∧ Relation.TransGen r x x

/-- Where steps lead to something that comes back, one of them does so. -/
theorem Recurs.next (h : Recurs r a) : ∃ b, r a b ∧ Recurs r b := by
  obtain ⟨x, hreach, hback⟩ := h
  rcases Relation.ReflTransGen.cases_head hreach with rfl | ⟨b, hstep, hrest⟩
  · obtain ⟨b, hstep, hrest⟩ := Relation.TransGen.head'_iff.mp hback
    exact ⟨b, hstep, a, hrest, hback⟩
  · exact ⟨b, hstep, x, hrest, hback⟩

theorem Recurs.head {b : α} (hstep : r a b) (h : Recurs r b) : Recurs r a := by
  obtain ⟨x, hreach, hback⟩ := h
  exact ⟨x, .head hstep hreach, hback⟩

theorem Recurs.map {s : β → β → Prop} (f : α → β) (hf : ∀ x y, r x y → s (f x) (f y)) (h : Recurs r a) :
    Recurs s (f a) := by
  obtain ⟨x, hreach, hback⟩ := h
  exact ⟨f x, hreach.lift f hf, hback.lift f hf⟩

/-- Where every step leads to something of a lower rank, nothing is led back to. -/
theorem not_recurs_of_rank (rank : α → Nat) (hrank : ∀ x y, r x y → rank y < rank x) : ¬ Recurs r a := by
  rintro ⟨x, -, hback⟩
  have hlower : ∀ {x y}, Relation.TransGen r x y → rank y < rank x := by
    intro x y h
    induction h with
    | single h => exact hrank _ _ h
    | tail _ h ih => exact (hrank _ _ h).trans ih
  exact absurd (hlower hback) (Nat.lt_irrefl _)

end Recurs

/-! ### Records that are read inside others -/

/-- Reading a record of one model from offers leads to reading a record of another from some of them. -/
def Calls (c : Catalogue) (outer inner : String × List Offer) : Prop :=
  ∃ m fields d, c.model? outer.1 = some m ∧ c.describe m = .ok fields ∧ d ∈ fields ∧ d.formSkip = false ∧
    d.kind = .record ∧ d.model = some inner.1 ∧ inner.2 = offersInside d outer.2 ∧ inner.2 ≠ []

theorem Calls.encloses {outer inner : String × List Offer} (h : Calls c outer inner) :
    Encloses c outer.1 inner.1 := by
  obtain ⟨m, fields, d, hm, hfields, hd, -, hkind, hmodel, -, -⟩ := h
  exact encloses_of_describe hm hfields hd hkind hmodel

theorem Calls.sublist {outer inner : String × List Offer} (h : Calls c outer inner) :
    inner.2.Sublist outer.2 := by
  obtain ⟨m, fields, d, -, -, -, -, -, -, hoffers, -⟩ := h
  rw [hoffers]
  exact List.filter_sublist.trans List.filter_sublist

theorem sublist_of_calls {outer inner : String × List Offer} (h : Relation.TransGen (Calls c) outer inner) :
    inner.2.Sublist outer.2 := by
  induction h with
  | single h => exact h.sublist
  | tail _ h ih => exact h.sublist.trans ih

/-- A record that is read has a model, and a model has fields that are read without faults other than those of a
kind. -/
def IsReadBy (bad : Fault → Prop) (c : Catalogue) (call : String × List Offer) : Prop :=
  ∀ m, c.model? call.1 = some m →
    Gives bad (fun fields => c.describe m = .ok fields ∧ ∀ d ∈ fields, d.formSkip = false → ReadsBy bad d call.2)
      (Action.describe c m)

theorem isReadBy_declared (c : Catalogue) (call : String × List Offer) : IsReadBy Fault.IsDeclared c call :=
  fun m _ => (gives_describe m).mono (fun _ h => h) fun _ hfields => ⟨hfields, fun d _ _ => readsBy_declared d call.2⟩

/-- What tells the records apart that are read on one way: the model, and how many offers are left. -/
def levelOf (call : String × List Offer) : String × Nat := (call.1, call.2.length)

/-- The levels that there are room for. -/
def levels (c : Catalogue) (offers : List Offer) : List (String × Nat) :=
  c.models.map Model.name ×ˢ List.range (offers.length + 1)

theorem length_levels (c : Catalogue) (offers : List Offer) :
    (levels c offers).length = c.models.length * (offers.length + 1) := by
  rw [levels, List.length_product, List.length_map, List.length_range]

/-- Calls that have led to a call, each on a level of its own. -/
structure IsWay (c : Catalogue) (offers : List Offer) (visited : List (String × List Offer))
    (call : String × List Offer) : Prop where
  leads : ∀ outer ∈ visited, Relation.TransGen (Calls c) outer call
  within : visited.map levelOf ⊆ levels c offers
  nodup : (visited.map levelOf).Nodup
  short : call.2.length ≤ offers.length

theorem isWay_nil (offers : List Offer) : IsWay c offers [] (root, offers) :=
  ⟨by simp, by simp, by simp, le_rfl⟩

section IsWay

variable {offers : List Offer} {visited : List (String × List Offer)} {call inner : String × List Offer}

/-- A way is no longer than there are levels. -/
theorem IsWay.length_le (hway : IsWay c offers visited call) : visited.length ≤ (levels c offers).length := by
  have hlength := (hway.nodup.subperm hway.within).length_le
  rwa [List.length_map] at hlength

/-- On a way that does not lead back, no level comes twice. -/
theorem IsWay.levelOf_notMem (hway : IsWay c offers visited call) (hends : ¬ Recurs (Calls c) call) :
    levelOf call ∉ visited.map levelOf := by
  intro hlevel
  obtain ⟨outer, houter, hsame⟩ := List.mem_map.mp hlevel
  obtain ⟨hname, hlength⟩ := Prod.mk.inj hsame
  have hoffers : call.2 = outer.2 := (sublist_of_calls (hway.leads outer houter)).eq_of_length hlength.symm
  obtain rfl : outer = call := Prod.ext hname hoffers.symm
  exact hends ⟨outer, .refl, hway.leads outer houter⟩

/-- The next call goes the way on. -/
theorem IsWay.next (hway : IsWay c offers visited call) (hends : ¬ Recurs (Calls c) call)
    (hcall : Calls c call inner) : IsWay c offers (call :: visited) inner := by
  have hlevel : levelOf call ∈ levels c offers := by
    obtain ⟨m, _, _, hm, -⟩ := hcall
    refine List.mem_product.mpr ⟨List.mem_map.mpr ⟨m, List.mem_of_find?_eq_some hm, ?_⟩, ?_⟩
    · exact Catalogue.name_of_model? hm
    · exact List.mem_range.mpr (Nat.lt_succ_of_le hway.short)
  constructor
  · intro outer houter
    rcases List.mem_cons.mp houter with rfl | hbefore
    · exact .single hcall
    · exact (hway.leads outer hbefore).tail hcall
  · exact List.cons_subset.mpr ⟨hlevel, hway.within⟩
  · exact List.nodup_cons.mpr ⟨hway.levelOf_notMem hends, hway.nodup⟩
  · exact hcall.sublist.length_le.trans hway.short

end IsWay

/-- Reading a record that does not lead back comes to an end while there is room for another level. -/
theorem gives_readRecord {bad : Fault → Prop} {offers : List Offer} {call : String × List Offer}
    (hends : ¬ Recurs (Calls c) call)
    (hreads : ∀ inner, Relation.ReflTransGen (Calls c) call inner → IsReadBy bad c inner)
    {visited : List (String × List Offer)} (hway : IsWay c offers visited call) {depth : Nat}
    (hdepth : (levels c offers).length < visited.length + depth) (base path : String) :
    Gives bad (fun _ => True) (readRecord c depth call.1 call.2 base path) := by
  induction depth generalizing visited call base path with
  | zero => exact absurd hway.length_le (Nat.not_le.mpr hdepth)
  | succ depth ih =>
      rw [readRecord]
      cases hm : c.model? call.1 with
      | none => trivial
      | some m =>
          refine (hreads call .refl m hm).bind fun fields hdescribed => ?_
          obtain ⟨hfields, hall⟩ := hdescribed
          have hread : ∀ d ∈ fields, d.formSkip = false → Gives bad (fun found => ∀ e ∈ found.errors, True)
              (readField c (readRecord c depth) call.2 base path d) := by
            intro d hd hshown
            refine gives_readField (hall d hd hshown) (fun _ => trivial)
              (fun model hkind hmodel hnested base => ?_) base
            have hcall : Calls c call (model, offersInside d call.2) :=
              ⟨m, fields, d, hm, hfields, hd, hshown, hkind, hmodel, rfl, hnested⟩
            have hlast : ¬ Recurs (Calls c) (model, offersInside d call.2) := fun hloop => hends (.head hcall hloop)
            have hroom : (levels c offers).length < (call :: visited).length + depth := by
              rw [List.length_cons]
              omega
            have hinner := ih hlast (fun inner hinner => hreads inner (.head hcall hinner)) (hway.next hends hcall)
              hroom base (Validation.join path d.wireName)
            exact hinner.mono (fun _ h => h) fun _ _ _ _ => trivial
          exact (gives_readFields hread).bind fun _ _ => trivial

/-- Reading from offers comes to an end, if it does not lead back. -/
theorem gives_decodeStrings_of_calls {bad : Fault → Prop} {offers : List Offer}
    (hends : ¬ Recurs (Calls c) (root, offers))
    (hreads : ∀ call, Relation.ReflTransGen (Calls c) (root, offers) call → IsReadBy bad c call) :
    Gives bad (fun _ => True) (decodeStrings c root offers) := by
  have hdepth : (levels c offers).length <
      ([] : List (String × List Offer)).length + Catalogue.depthBound c offers := by
    rw [length_levels, List.length_nil, Nat.zero_add, Catalogue.depthBound]
    exact Nat.mul_lt_mul_of_pos_right (Nat.lt_succ_self _) (Nat.succ_pos _)
  exact gives_readRecord hends hreads (isWay_nil offers) hdepth "" ""

/-- What is read for a field that is a record, and what its record is read from. -/
theorem readField_record {record : String → List Offer → String → String → Except Fault Decoded} {d : Descriptor}
    {model : String} (hkind : d.kind = .record) (hmodel : d.model = some model) {offers : List Offer}
    {base path : String} {reading : Reading} (hread : readField c record offers base path d = .ok reading) :
    (offersInside d offers = [] ∧ reading = .nothing) ∨
      ∃ inner, record model (offersInside d offers) (keyUnder base d.formName)
          (Validation.join path d.wireName) = .ok inner ∧
        reading = ⟨if inner.entries.isEmpty then none else some (.dict inner.entries), inner.errors⟩ := by
  unfold readField at hread
  simp only [hkind, hmodel] at hread
  change (if (offersInside d offers).isEmpty then _ else _) = _ at hread
  by_cases hnested : offersInside d offers = []
  · simp only [hnested, List.isEmpty_nil, ↓reduceIte] at hread
    cases hread
    exact .inl ⟨hnested, rfl⟩
  · rw [if_neg (by simpa using hnested)] at hread
    change (record model (offersInside d offers) _ _ >>= _) = _ at hread
    cases hinner : record model (offersInside d offers) (keyUnder base d.formName)
        (Validation.join path d.wireName) with
    | error fault =>
        rw [hinner] at hread
        cases hread
    | ok inner =>
        rw [hinner] at hread
        cases hread
        exact .inr ⟨inner, rfl, rfl⟩

/-- A record that was read was read with the records inside it. -/
theorem exists_of_calls {call inner : String × List Offer} (hcall : Calls c call inner) {depth : Nat}
    {base path : String} {found : Decoded} (hread : readRecord c (depth + 1) call.1 call.2 base path = .ok found) :
    ∃ base path found, readRecord c depth inner.1 inner.2 base path = .ok found := by
  obtain ⟨m, fields, d, hm, hfields, hd, hshown, hkind, hmodel, hoffers, hnested⟩ := hcall
  rw [readRecord] at hread
  simp only [hm, Action.describe_eq_ok hfields, ok_bind] at hread
  obtain ⟨decoded, hdecoded, -⟩ := exists_of_bind_eq_ok hread
  have hfield := (eq_of_readFields hdecoded).2.2 d hd hshown
  rw [hoffers] at hnested ⊢
  rcases readField_record hkind hmodel hfield with ⟨hnone, -⟩ | ⟨found, hfound, -⟩
  · exact absurd hnone hnested
  · exact ⟨_, _, found, hfound⟩

/-- Reading a record that leads back comes to nothing, at any depth. -/
theorem readRecord_ne_ok {call : String × List Offer} (hback : Recurs (Calls c) call) (depth : Nat)
    (base path : String) (found : Decoded) : readRecord c depth call.1 call.2 base path ≠ .ok found := by
  induction depth generalizing call base path found with
  | zero => simp [readRecord]
  | succ depth ih =>
      intro hread
      obtain ⟨inner, hcall, hnext⟩ := hback.next
      obtain ⟨base, path, found, hinner⟩ := exists_of_calls hcall hread
      exact ih hnext base path found hinner

/-! ### Models that are in no record of their own -/

/-- No record that is read for a model is inside a record of its own model. -/
def IsUnfolded (c : Catalogue) (root : String) : Prop :=
  ∀ name, Relation.ReflTransGen (Encloses c) root name → ¬ Relation.TransGen (Encloses c) name name

theorem IsUnfolded.not_recurs (hunfolded : IsUnfolded c root) (offers : List Offer) :
    ¬ Recurs (Calls c) (root, offers) := by
  intro hback
  obtain ⟨name, hreach, hloop⟩ := hback.map (s := Encloses c) Prod.fst fun _ _ h => h.encloses
  exact hunfolded name hreach hloop

/-- Where no record is inside one of its own model, reading fails by what is declared, if it fails. -/
theorem gives_decodeStrings (hunfolded : IsUnfolded c root) (offers : List Offer) :
    Gives Fault.IsDeclared (fun _ => True) (decodeStrings c root offers) :=
  gives_decodeStrings_of_calls (hunfolded.not_recurs offers) fun call _ => isReadBy_declared c call

/-- Where the records in the fields of every model are of a lower rank, none is inside one of its own model. -/
theorem isUnfolded_of_rank (rank : String → Nat)
    (hrank : ∀ m ∈ c.models, ∀ f ∈ m.fields, ∀ inner ∈ f.type.unwrap.1.recordName?, rank inner < rank m.name) :
    IsUnfolded c root := by
  intro name hreach hloop
  refine not_recurs_of_rank (r := Encloses c) rank ?_ ⟨name, hreach, hloop⟩
  rintro outer inner ⟨m, f, hm, hf, ht⟩
  rw [← Catalogue.name_of_model? hm]
  exact hrank m (List.mem_of_find?_eq_some hm) f hf inner (by rw [ht]; rfl)

/-! ### One part of a request that offers what is inside records -/

variable {o : Offer}

/-- A record of one model is read inside a record of another, from a part of a request. -/
def Contains (c : Catalogue) (source : Source) (outer inner : String) : Prop :=
  ∃ m fields d, c.model? outer = some m ∧ c.describe m = .ok fields ∧ d ∈ fields ∧ d.formSkip = false ∧
    (d.source = .auto ∨ d.source = source) ∧ d.kind = .record ∧ d.model = some inner

theorem IsUnfolded.not_recurs_contains (hunfolded : IsUnfolded c root) (source : Source) :
    ¬ Recurs (Contains c source) root := by
  intro hback
  obtain ⟨name, hreach, hloop⟩ := hback.map (s := Encloses c) id fun _ _ h => by
    obtain ⟨m, fields, d, hm, hfields, hd, -, -, hkind, hmodel⟩ := h
    exact encloses_of_describe hm hfields hd hkind hmodel
  exact hunfolded name hreach hloop

theorem offersInside_single (ho : o.source.isNested = true) (d : Descriptor) :
    offersInside d [o] = if d.source = .auto ∨ d.source = o.source then [o] else [] := by
  simp only [offersInside, admitted, List.filter_cons, List.filter_nil, Bool.or_eq_true, beq_iff_eq]
  split <;> simp [ho]

theorem calls_single_iff (ho : o.source.isNested = true) {outer : String} {inner : String × List Offer} :
    Calls c (outer, [o]) inner ↔ Contains c o.source outer inner.1 ∧ inner.2 = [o] := by
  constructor
  · rintro ⟨m, fields, d, hm, hfields, hd, hshown, hkind, hmodel, hoffers, hnested⟩
    rw [hoffers, offersInside_single ho] at hnested
    by_cases hsource : d.source = .auto ∨ d.source = o.source
    · refine ⟨⟨m, fields, d, hm, hfields, hd, hshown, hsource, hkind, hmodel⟩, ?_⟩
      rw [hoffers, offersInside_single ho, if_pos hsource]
    · rw [if_neg hsource] at hnested
      exact absurd rfl hnested
  · rintro ⟨⟨m, fields, d, hm, hfields, hd, hshown, hsource, hkind, hmodel⟩, hoffers⟩
    refine ⟨m, fields, d, hm, hfields, hd, hshown, hkind, hmodel, ?_, by simp [hoffers]⟩
    rw [hoffers, offersInside_single ho, if_pos hsource]

/-- From one part of a request, the calls are those of the models. -/
theorem contains_of_calls (ho : o.source.isNested = true) {outer : String} {call : String × List Offer}
    (hreach : Relation.ReflTransGen (Calls c) (outer, [o]) call) :
    Relation.ReflTransGen (Contains c o.source) outer call.1 ∧ call.2 = [o] := by
  induction hreach with
  | refl => exact ⟨.refl, rfl⟩
  | @tail middle last _ hlast ih =>
      obtain ⟨name, offers⟩ := middle
      obtain ⟨hreach, rfl⟩ := ih
      obtain ⟨hcontains, hoffers⟩ := (calls_single_iff ho).mp hlast
      exact ⟨hreach.tail hcontains, hoffers⟩

theorem recurs_calls_iff (ho : o.source.isNested = true) :
    Recurs (Calls c) (root, [o]) ↔ Recurs (Contains c o.source) root := by
  constructor
  · rintro ⟨call, hreach, hback⟩
    obtain ⟨hname, hoffers⟩ := contains_of_calls ho hreach
    refine ⟨call.1, hname, ?_⟩
    obtain ⟨next, hcall, hrest⟩ := Relation.TransGen.head'_iff.mp hback
    obtain ⟨name, offers⟩ := call
    obtain rfl : offers = [o] := hoffers
    obtain ⟨hcontains, hleft⟩ := (calls_single_iff ho).mp hcall
    obtain ⟨name', offers'⟩ := next
    obtain rfl : offers' = [o] := hleft
    exact Relation.TransGen.head' hcontains (contains_of_calls ho hrest).1
  · exact Recurs.map (·, [o]) fun _ _ h => (calls_single_iff ho).mpr ⟨h, rfl⟩

/-- A model whose fields say what they are, with layouts by which every text is read or refused. -/
def IsLegible (c : Catalogue) (name : String) : Prop :=
  ∀ m, c.model? name = some m → ∃ fields, c.describe m = .ok fields ∧
    ∀ d ∈ fields, ∀ kind ∈ [d.kind, d.elementKind.getD .string], ∀ raw,
      ∃ outcome, readText kind raw (layoutOf d) = .ok outcome

theorem IsLegible.readsBy {name : String} {m : Model} {fields : List Descriptor} {d : Descriptor}
    (h : IsLegible c name) (hm : c.model? name = some m) (hfields : c.describe m = .ok fields) (hd : d ∈ fields)
    (bad : Fault → Prop) : ReadsBy bad d [] := by
  obtain ⟨described, hdescribed, htexts⟩ := h m hm
  obtain rfl := Except.ok.inj (hfields.symm.trans hdescribed)
  have hgives : ∀ kind ∈ [d.kind, d.elementKind.getD .string], ∀ raw,
      Gives bad (fun _ => True) (readText kind raw (layoutOf d)) := by
    intro kind hkind raw
    obtain ⟨outcome, houtcome⟩ := htexts d hd kind hkind raw
    rw [houtcome]
    trivial
  exact ⟨fun _ ho => absurd ho List.not_mem_nil, hgives _ (by simp), hgives _ (by simp)⟩

/-- Without layouts, every text is read or refused. -/
theorem isLegible_of_no_layout (hall : ∀ m ∈ c.models, ∃ fields, c.describe m = .ok fields ∧
    ∀ d ∈ fields, layoutOf d = none) (name : String) : IsLegible c name := by
  intro m hm
  obtain ⟨fields, hfields, hlayouts⟩ := hall m (List.mem_of_find?_eq_some hm)
  refine ⟨fields, hfields, fun d hd kind _ raw => ?_⟩
  rw [hlayouts d hd]
  cases kind <;> exact ⟨_, rfl⟩

/-- Offers of parts that can offer what is inside records. -/
def AreNested (offers : List Offer) : Prop := ∀ o ∈ offers, o.source.isNested = true

instance (offers : List Offer) : Decidable (AreNested offers) :=
  inferInstanceAs (Decidable (∀ o ∈ offers, o.source.isNested = true))

/-- What such parts offer is read for a model, if its fields and texts are. -/
theorem IsLegible.isReadBy_of_areNested {name : String} {offers : List Offer} (h : IsLegible c name)
    (hnested : AreNested offers) (bad : Fault → Prop) : IsReadBy bad c (name, offers) := by
  intro m hm
  obtain ⟨fields, hfields, -⟩ := h m hm
  rw [Action.describe_eq_ok hfields]
  refine ⟨hfields, fun d hd _ => ?_⟩
  have htexts := h.readsBy hm hfields hd bad
  refine ⟨fun p hp key => ?_, htexts.whole, htexts.item⟩
  have ho := hnested p hp
  have hheader : ¬ (p.source == .header) = true := by
    intro hheader
    rw [eq_of_beq hheader] at ho
    cases ho
  rw [Offer.read, if_neg hheader]
  exact rfl

theorem IsLegible.isReadBy {name : String} (h : IsLegible c name) (ho : o.source.isNested = true)
    (bad : Fault → Prop) : IsReadBy bad c (name, [o]) :=
  h.isReadBy_of_areNested (List.forall_mem_singleton.mpr ho) bad

/-- Reading from the query or from a form comes to an end exactly if no model is inside a record of its own that
would be read from there. Then it gives a document, or fails by what is declared, and it gives one if every
layout is one; otherwise there is no depth at which it gives any. -/
theorem decodeStrings_ends_iff (ho : o.source.isNested = true) :
    (¬ Recurs (Contains c o.source) root → Gives Fault.IsDeclared (fun _ => True) (decodeStrings c root [o])) ∧
    (¬ Recurs (Contains c o.source) root →
      (∀ name, Relation.ReflTransGen (Contains c o.source) root name → IsLegible c name) →
        ∃ found, decodeStrings c root [o] = .ok found) ∧
    (Recurs (Contains c o.source) root →
      ∀ depth base path found, readRecord c depth root [o] base path ≠ .ok found) := by
  refine ⟨fun hends => ?_, fun hends hlegible => ?_, fun hback => ?_⟩
  · exact gives_decodeStrings_of_calls (mt (recurs_calls_iff ho).mp hends) fun call _ => isReadBy_declared c call
  · have hread : Gives (fun _ => False) (fun _ => True) (decodeStrings c root [o]) := by
      refine gives_decodeStrings_of_calls (mt (recurs_calls_iff ho).mp hends) fun call hcall => ?_
      obtain ⟨hname, hoffers⟩ := contains_of_calls ho hcall
      obtain ⟨name, offers⟩ := call
      obtain rfl : offers = [o] := hoffers
      exact (hlegible name hname).isReadBy ho _
    cases hfound : decodeStrings c root [o] with
    | ok found => exact ⟨found, rfl⟩
    | error fault =>
        rw [hfound] at hread
        exact hread.elim
  · exact readRecord_ne_ok ((recurs_calls_iff ho).mpr hback)

/-! ### A parcel, and a list of which every item contains the next -/

/-- A parcel has a label and an address, and an address has a street. -/
def parcelCatalogue : Catalogue :=
  ⟨[plainModel "Parcel" [plainField "label" .str, plainField "to" (.record "Address")],
    plainModel "Address" [plainField "street" .str]], []⟩

/-- A node has a label, and may have a next node. -/
def nodeCatalogue : Catalogue :=
  ⟨[plainModel "Node" [plainField "label" .str,
    { plainField "next" (.union [.record "Node", .null]) with default := some (.value .null) }]], []⟩

theorem recurs_node (source : Source) : Recurs (Contains nodeCatalogue source) "Node" :=
  ⟨"Node", .refl, .single ⟨_, _, _, rfl, rfl, List.mem_cons_of_mem _ List.mem_cons_self, rfl, .inl rfl, rfl, rfl⟩⟩

/-- A node is not read from an empty query, at any depth, although nothing is offered for the next node. -/
theorem decodeStrings_never_ends_node :
    decodeStrings nodeCatalogue "Node" [offering .query []] = .error .tooDeep ∧
      ∀ depth found, readRecord nodeCatalogue depth "Node" [offering .query []] "" "" ≠ .ok found :=
  ⟨rfl, fun depth found => readRecord_ne_ok ((recurs_calls_iff rfl).mpr (recurs_node .query)) depth "" "" found⟩

theorem isUnfolded_parcel : IsUnfolded parcelCatalogue "Parcel" :=
  isUnfolded_of_rank (fun name => if name = "Parcel" then 1 else 0) (by decide)

theorem isLegible_parcel (name : String) : IsLegible parcelCatalogue name := by
  refine isLegible_of_no_layout ?_ name
  simp only [parcelCatalogue, List.forall_mem_cons]
  exact ⟨⟨_, rfl, by decide⟩, ⟨_, rfl, by decide⟩, by simp⟩

/-- A parcel is read from a query, and from one that says nothing about its address. A node is not. -/
theorem decodeStrings_ends_iff_parcel :
    (∃ found, decodeStrings parcelCatalogue "Parcel" [offering .query [("label", "books")]] = .ok found) ∧
      ∀ depth base path found, readRecord nodeCatalogue depth "Node" [offering .query []] base path ≠ .ok found := by
  constructor
  · exact (decodeStrings_ends_iff rfl).2.1 (isUnfolded_parcel.not_recurs_contains .query)
      fun name _ => isLegible_parcel name
  · exact (decodeStrings_ends_iff rfl).2.2 (recurs_node .query)

end Intake.Binding
