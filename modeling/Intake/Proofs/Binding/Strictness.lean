import Intake.Proofs.Binding.Leniency
import Intake.Proofs.Shape.Blame

/-!
Unknown keys that are refused. Where unknown keys count, a body of the right types that has one in any of its
records is refused, and for the key: whatever else is wrong with the body, what is wrong with an inner record is told
of the outer ones, and of all that is told the key comes first. Only what is not built is not told of: records that
are too deep, and records with a key that is no proper text.
-/

namespace Intake.Binding

open Shape

variable {c : Catalogue} {root name next : String} {m : Model} {f : Field} {t : Ty} {v : Value}
  {es inner : List (Value × Value)} {way : List (List (Value × Value))} {p : Problem} {fuel : Nat}
  {record : String → Value → Fitted}

/-- What a value of a type holds as a record of a model: itself, an item of a list or a value of a map. -/
inductive Holds : Ty → Value → String → List (Value × Value) → Prop where
  | record {t : Ty} {name : String} {es : List (Value × Value)} (ht : t.unwrap.1 = .record name) :
      Holds t (.dict es) name es
  | item {t item : Ty} {name : String} {es : List (Value × Value)} {xs : List Value} (ht : t.unwrap.1 = .list item)
      (hitem : item.unwrap.1 = .record name) (hx : .dict es ∈ xs) : Holds t (.list xs) name es
  | member {t key value : Ty} {k : Value} {name : String} {es inner : List (Value × Value)}
      (ht : t.unwrap.1 = .dict key value) (hvalue : value.unwrap.1 = .record name) (he : (k, .dict inner) ∈ es) :
      Holds t (.dict es) name inner

/-- A key in a document by which no field of its record is called, and the records on the way to it: the document, one
that a field of it holds, and so on to the one with the key. -/
inductive Stray (c : Catalogue) : String → List (Value × Value) → List (List (Value × Value)) → Prop where
  | here {name : String} {m : Model} {es : List (Value × Value)} {e : Value × Value} (hm : c.model? name = some m)
      (he : e ∈ es) (hno : ∀ f ∈ m.fields, e.1.text? ≠ some f.wireName ∧ e.1.text? ≠ some f.name) :
      Stray c name es [es]
  | inside {name next key : String} {m : Model} {es inner : List (Value × Value)} {f : Field} {v : Value}
      {way : List (List (Value × Value))} (hm : c.model? name = some m) (hf : f ∈ m.fields)
      (hkey : key = f.wireName ∨ key = f.name) (hv : Value.lookupText key es = some v)
      (hholds : Holds f.type v next inner) (hinner : Stray c next inner way) : Stray c name es (es :: way)

/-- A strict model no two fields of which are called by the same name, and of which every field with records takes any
number of them. -/
structure IsGuarded (c : Catalogue) (m : Model) : Prop where
  strict : m.strictness = .strict
  apart : m.fields.Pairwise Field.Apart
  unlimited : ∀ f ∈ m.fields, (c.descriptorOf f).model.isSome → f.constraints.maxLength = none

/-- What is wrong with a record that a value holds is wrong with the value. -/
theorem Holds.blames_fit (h : Holds t v name es) (hblames : Blames p (record name (.dict es))) :
    Blames p (fit c record t v) := by
  have hrecord : ∀ u : Ty, u.unwrap.1 = .record name → Blames p (fit c record u (.dict es)) := by
    intro u hu
    rw [← fit_unwrap c record u (.inl rfl), hu]
    exact hblames
  cases h with
  | record ht => exact hrecord t ht
  | item ht hitem hx =>
      rw [← fit_unwrap c record t (.inl rfl), ht, fit]
      exact blames_map.mpr (blames_fitItems.mpr ⟨_, hx, hrecord _ hitem⟩)
  | member ht hvalue he =>
      rw [← fit_unwrap c record t (.inl rfl), ht]
      simp only [fit]
      exact blames_map.mpr (blames_fitEntries.mpr ⟨_, he, .inr (hrecord _ hvalue)⟩)

theorem Holds.model (h : Holds f.type v name es) (hd : c.describeField f = .ok (c.descriptorOf f)) :
    (c.descriptorOf f).model = some name := by
  rw [Catalogue.model_of_describeField hd]
  cases h with
  | record ht => rw [ht]; rfl
  | item ht hitem => rw [ht]; simp [Ty.recordName?, Ty.element?, hitem]
  | member ht hvalue => rw [ht]; simp [Ty.recordName?, Ty.element?, hvalue]

/-- In a record that a passing value holds nothing is found wrong. -/
theorem Holds.recordPasses (h : Holds f.type v name es) (hd : c.describeField f = .ok (c.descriptorOf f))
    (hm : c.model? name = some m) (hpasses : Passes c (c.descriptorOf f) (c.descriptorOf f).kind v) :
    RecordPasses c m es := by
  have hmodel := h.model hd
  obtain ⟨hkind, helement⟩ := Catalogue.kinds_of_field hd
  cases h with
  | record ht =>
      rw [hkind, ht] at hpasses
      exact hpasses.record hmodel hm
  | item ht hitem hx =>
      have hrow : (c.descriptorOf f).kind = .array := by rw [hkind, ht]; rfl
      have hrecords : (c.descriptorOf f).elementKind = some .record := by rw [helement, ht, Ty.element?, hitem]; rfl
      rw [hrow] at hpasses
      exact (hpasses.items hrow hrecords _ hx).record hmodel hm
  | member ht hvalue he =>
      have hmap : (c.descriptorOf f).kind = .map := by rw [hkind, ht]; rfl
      have hrecords : (c.descriptorOf f).elementKind = some .record := by rw [helement, ht, Ty.element?, hvalue]; rfl
      rw [hmap] at hpasses
      exact (hpasses.members hmap hrecords _ he).record hmodel hm

/-- A strict model finds a field under its key or its name. -/
theorem key_of_findField? {key : String} (h : findField? .strict f es = some (key, v)) :
    key = f.wireName ∨ key = f.name := by
  rw [findField?_strict] at h
  rcases Option.or_eq_some_iff.mp h with hwire | ⟨-, hname⟩
  · obtain ⟨w, -, hpair⟩ := Option.map_eq_some_iff.mp hwire
    exact .inl (Prod.mk.inj hpair).1.symm
  · obtain ⟨w, -, hpair⟩ := Option.map_eq_some_iff.mp hname
    exact .inr (Prod.mk.inj hpair).1.symm

/-- What stands under a name of a field is found for the field, unless it is not its key and something stands under
that. -/
theorem found_or_beside {key : String} (hkey : key = f.wireName ∨ key = f.name)
    (hv : Value.lookupText key es = some v) :
    findField? .strict f es = some (key, v) ∨
      key = f.name ∧ f.name ≠ f.wireName ∧ ∃ w, Value.lookupText f.wireName es = some w := by
  rw [findField?_strict]
  by_cases hwire : key = f.wireName
  · subst hwire
    rw [hv]
    exact .inl rfl
  · obtain rfl := hkey.resolve_left hwire
    cases hother : Value.lookupText f.wireName es with
    | some w => exact .inr ⟨rfl, hwire, w, rfl⟩
    | none =>
        rw [hv]
        exact .inl rfl

section document

variable (hm : c.model? name = some m) (hguarded : IsGuarded c m) (hpasses : RecordPasses c m es)

include hguarded hpasses

theorem completed_of_passes : completed c m es = .ok (withZeroValues (m.fields.map c.descriptorOf) es) := by
  rw [completed, hguarded.strict]
  simp only [hpasses.describe]

/-- A document is completed under keys that are texts. -/
theorem unbroken_withZeroValues (hkeys : ∀ e ∈ es, isBrokenKey e.1 = false) :
    ∀ e ∈ withZeroValues (m.fields.map c.descriptorOf) es, isBrokenKey e.1 = false := by
  intro e he
  rw [withZeroValues_descriptors hguarded.apart hpasses.described] at he
  rcases List.mem_append.mp he with hgiven | hzero
  · exact hkeys e hgiven
  · exact isBrokenKey_textEntries _ e hzero

theorem mem_withZeroValues {e : Value × Value} (he : e ∈ es) :
    e ∈ withZeroValues (m.fields.map c.descriptorOf) es := by
  rw [withZeroValues_descriptors hguarded.apart hpasses.described]
  exact List.mem_append_left _ he

include hm

/-- A document with a broken key is refused for it. -/
theorem blames_of_broken {e : Value × Value} (he : e ∈ es) (hbroken : isBrokenKey e.1 = true) :
    Blames .stringUnicode (fitRecord c (fuel + 1) name (.dict es)) :=
  blames_fitRecord hm (completed_of_passes hguarded hpasses)
    (blames_fillRecord_of_broken hguarded.strict (mem_withZeroValues hguarded hpasses he) hbroken)

variable (hkeys : ∀ e ∈ es, isBrokenKey e.1 = false)

include hkeys

/-- A document is refused for a key by which no field is called. -/
theorem blames_of_undeclared {e : Value × Value} (he : e ∈ es)
    (hno : ∀ f ∈ m.fields, e.1.text? ≠ some f.wireName ∧ e.1.text? ≠ some f.name) :
    Blames (if e.1.text?.isSome then .extra else .keyType) (fitRecord c (fuel + 1) name (.dict es)) := by
  refine blames_fitRecord hm (completed_of_passes hguarded hpasses) (blames_fillRecord_of_stray hguarded.strict
    (unbroken_withZeroValues hguarded hpasses hkeys) (mem_withZeroValues hguarded hpasses he) ?_)
  intro f hf key w hfound
  rcases key_of_findField? hfound with rfl | rfl
  · exact (hno f hf).1
  · exact (hno f hf).2

/-- A document that has a field under its key is refused for the name of the field. -/
theorem blames_of_unused {w : Value} (hf : f ∈ m.fields) (hother : f.name ≠ f.wireName)
    (hwire : Value.lookupText f.wireName es = some v) (hname : Value.lookupText f.name es = some w) :
    Blames .extra (fitRecord c (fuel + 1) name (.dict es)) := by
  obtain ⟨e, he, htext, -⟩ := Value.exists_mem_of_lookupText hname
  have hproblem : (if e.1.text?.isSome then .extra else .keyType : Problem) = .extra := by rw [htext]; rfl
  rw [← hproblem]
  refine blames_fitRecord hm (completed_of_passes hguarded hpasses) (blames_fillRecord_of_stray hguarded.strict
    (unbroken_withZeroValues hguarded hpasses hkeys) (mem_withZeroValues hguarded hpasses he) ?_)
  rintro g hg key x hfound hsame
  obtain rfl := Option.some.inj (htext.symm.trans hsame)
  by_cases hgf : g = f
  · subst hgf
    rw [findField?_withZeroValues hguarded.apart hpasses.described hg, findField?_strict, hwire] at hfound
    exact hother (Prod.mk.inj (Option.some.inj hfound)).1.symm
  · have hapart := hguarded.apart.forall hg hf hgf
    rcases key_of_findField? hfound with hkey | hkey
    · exact hapart.2.1 hkey.symm
    · exact hapart.2.2.2 hkey.symm

/-- A document is refused for what a value that a field finds is refused for. -/
theorem blames_of_found {key : String} (hf : f ∈ m.fields) (hsome : (c.descriptorOf f).model.isSome)
    (hfound : findField? .strict f es = some (key, v)) (hblames : Blames p (fit c (fitRecord c fuel) f.type v)) :
    Blames p (fitRecord c (fuel + 1) name (.dict es)) := by
  have hwhole : findField? .strict f (withZeroValues (m.fields.map c.descriptorOf) es) = some (key, v) := by
    rw [findField?_withZeroValues hguarded.apart hpasses.described hf, hfound, Option.some_or]
  exact blames_fitRecord hm (completed_of_passes hguarded hpasses) (blames_fillRecord_of_field hguarded.strict
    (unbroken_withZeroValues hguarded hpasses hkeys) hf hwhole
      (blames_fitField (hguarded.unlimited f hf hsome) hblames))

end document

/-- Whether all keys of a record are texts. -/
def HasTextKeys (es : List (Value × Value)) : Prop := ∀ e ∈ es, ∃ key, e.1 = .text key

theorem HasTextKeys.unbroken {e : Value × Value} (h : HasTextKeys es) (he : e ∈ es) : isBrokenKey e.1 = false := by
  obtain ⟨key, hkey⟩ := h e he
  rw [hkey]
  rfl

theorem hasTextKeys_textEntries (es : List (String × Value)) : HasTextKeys (Value.textEntries es) := by
  intro e he
  obtain ⟨pair, -, rfl⟩ := List.mem_map.mp he
  exact ⟨pair.1, rfl⟩

/-- A document is refused, and for a key that is not known where the records on the way are not too many and all their
keys are texts. -/
def IsRefused (c : Catalogue) (fuel : Nat) (name : String) (es : List (Value × Value))
    (way : List (List (Value × Value))) : Prop :=
  ∃ p, Blames p (fitRecord c fuel name (.dict es)) ∧
    (way.length ≤ fuel → (∀ record ∈ way, HasTextKeys record) → p = .extra)

theorem isRefused_zero : IsRefused c 0 name es (es :: way) := ⟨.cycle, blames_refuse.mpr rfl, nofun⟩

theorem isRefused_of_broken (hm : c.model? name = some m) (hguarded : IsGuarded c m) (hpasses : RecordPasses c m es)
    {e : Value × Value} (he : e ∈ es) (hbroken : isBrokenKey e.1 = true) :
    IsRefused c (fuel + 1) name es (es :: way) := by
  refine ⟨_, blames_of_broken hm hguarded hpasses he hbroken, fun _ htexts => ?_⟩
  rw [(htexts es List.mem_cons_self).unbroken he] at hbroken
  cases hbroken

/-- A document is refused for what a record that a field finds is refused for. -/
theorem isRefused_of_held {key : String} (hm : c.model? name = some m) (hguarded : IsGuarded c m)
    (hpasses : RecordPasses c m es) (hkeys : ∀ e ∈ es, isBrokenKey e.1 = false) (hf : f ∈ m.fields)
    (hkey : key = f.wireName ∨ key = f.name) (hv : Value.lookupText key es = some v)
    (hholds : Holds f.type v next inner)
    (hinner : findField? .strict f es = some (key, v) → IsRefused c fuel next inner way) :
    IsRefused c (fuel + 1) name es (es :: way) := by
  rcases found_or_beside hkey hv with hfound | ⟨rfl, hother, w, hw⟩
  · have hsome : (c.descriptorOf f).model.isSome := by
      rw [hholds.model (hpasses.described f hf)]
      rfl
    obtain ⟨p, hblames, hextra⟩ := hinner hfound
    refine ⟨p, blames_of_found hm hguarded hpasses hkeys hf hsome hfound (hholds.blames_fit hblames), ?_⟩
    intro hlength htexts
    exact hextra (Nat.le_of_succ_le_succ hlength) fun r hr => htexts r (List.mem_cons_of_mem es hr)
  · exact ⟨.extra, blames_of_unused hm hguarded hpasses hkeys hf hother hw hv, fun _ _ => rfl⟩

/-- A document with a stray key is refused. -/
theorem isRefused_of_stray (hguarded : ∀ n, LooksInto c root n → IsGuarded c n) (hstray : Stray c name es way)
    (hname : ∀ m, c.model? name = some m → LooksInto c root m)
    (hpasses : ∀ m, c.model? name = some m → RecordPasses c m es) (fuel : Nat) : IsRefused c fuel name es way := by
  -- Each record on the way is built with one less of the depth that is left.
  induction hstray generalizing fuel with
  | @here name m es e hm he hno =>
      cases fuel with
      | zero => exact isRefused_zero
      | succ fuel =>
          rcases unbroken_or_exists es with hkeys | ⟨broken, hbroken, hbreaks⟩
          · refine ⟨_, blames_of_undeclared hm (hguarded m (hname m hm)) (hpasses m hm) hkeys he hno, ?_⟩
            intro _ htexts
            obtain ⟨key, hkey⟩ := htexts es List.mem_cons_self e he
            rw [hkey]
            rfl
          · exact isRefused_of_broken hm (hguarded m (hname m hm)) (hpasses m hm) hbroken hbreaks
  | @inside name next key m es inner f v way hm hf hkey hv hholds hinner ih =>
      cases fuel with
      | zero => exact isRefused_zero
      | succ fuel =>
          have hrecord := hpasses m hm
          rcases unbroken_or_exists es with hkeys | ⟨broken, hbroken, hbreaks⟩
          · refine isRefused_of_held hm (hguarded m (hname m hm)) hrecord hkeys hf hkey hv hholds fun hfound => ?_
            -- The checker looks under the same key as the model, so the inner record was looked at, too.
            have hd := hrecord.described f hf
            have hpassed : Passes c (c.descriptorOf f) (c.descriptorOf f).kind v := by
              rw [findField?_keyOf hd] at hfound
              obtain ⟨w, hw, hpair⟩ := Option.map_eq_some_iff.mp hfound
              rw [← (Prod.mk.inj hpair).2]
              exact hrecord.field f hf w hw
            exact ih (fun n hn => .field (hname m hm) hf (hholds.model hd) hn)
              (fun n hn => hholds.recordPasses hd hn hpassed) fuel
          · exact isRefused_of_broken hm (hguarded m (hname m hm)) hrecord hbroken hbreaks

theorem exists_blames_build {root : Model} (hguarded : ∀ n, LooksInto c root.name n → IsGuarded c n)
    (hmismatch : jsonTypeMismatch c root.name es "" = .ok none) (hstray : Stray c root.name es way) :
    ∃ p, Blames p (Shape.build c root.name (.dict es)) ∧
      (way.length ≤ Shape.maxDepth → (∀ record ∈ way, HasTextKeys record) → p = .extra) := by
  obtain ⟨p, hblames, hextra⟩ := isRefused_of_stray hguarded hstray (fun _ hm => .root hm)
    (fun _ hm => recordPasses_of_mismatch hm hmismatch) Shape.maxDepth
  exact ⟨p, blames_map.mpr hblames, hextra⟩

variable {r : Request} {validate : Bool} {j : Journal}

/-- A body of the right types with a stray key is refused for a key that is not known, if no more records lead to it
than are built inside one another and all their keys are texts; and a body that is bound has no stray key at all. -/
theorem bindJson_refuses_stray (hguarded : ∀ n, LooksInto c m.name n → IsGuarded c n) :
    (∀ es way, Json.ofBytes r.body = .ok (.dict es) → jsonTypeMismatch c m.name es "" = .ok none →
      Stray c m.name es way → way.length ≤ Shape.maxDepth → (∀ record ∈ way, HasTextKeys record) →
        ∃ failure j', (bindJson c m r validate (.ok true)).outcome j = (.ok (.error failure), j') ∧
          failure.code = .unknownField) ∧
      ∀ bound j', (bindJson c m r validate (.ok true)).outcome j = (.ok (.ok bound), j') →
        ∃ es, Json.ofBytes r.body = .ok (.dict es) ∧ ∀ way, ¬Stray c m.name es way := by
  constructor
  · intro es way hbody hmismatch hstray hlength htexts
    obtain ⟨p, hblames, hextra⟩ := exists_blames_build hguarded hmismatch hstray
    obtain rfl := hextra hlength htexts
    rw [outcome_bindJson hbody]
    cases hbuild : Shape.build c m.name (.dict es) with
    | ok value =>
        rw [hbuild] at hblames
        cases hblames
    | error rejections =>
        rw [hbuild] at hblames
        obtain ⟨j', houtcome⟩ := outcome_bindDocument_of_refused (o := ⟨"bind.json", validate, true, true⟩) rfl
          hmismatch rfl hbuild
        exact ⟨_, j', houtcome, code_shapeFailure_eq_unknownField_iff.mpr hblames⟩
  · intro bound j' h
    rcases exists_document_or_invalidJson h with ⟨failure, hfailure, -⟩ | ⟨document, hbody⟩
    · cases hfailure
    rw [outcome_bindJson hbody] at h
    rcases exists_builtFrom_or_invalidType rfl h with ⟨failure, hfailure, -⟩ | ⟨es, known, rfl, hmismatch, hknown⟩
    · cases hfailure
    refine ⟨es, hbody, fun way hstray => ?_⟩
    obtain ⟨p, hblames, -⟩ := exists_blames_build hguarded hmismatch hstray
    obtain rfl := Except.ok.inj hknown
    rw [outcome_bindDocument rfl hmismatch hknown] at h
    cases hbuild : Shape.build c m.name (.dict es) with
    | ok value =>
        rw [hbuild] at hblames
        cases hblames
    | error rejections =>
        rw [hbuild] at h
        obtain ⟨-, j₁, -, h⟩ := Action.of_outcome_bind h
        cases h

/-- What is looked at by models of a catalogue of guarded models is guarded. -/
theorem isGuarded_of_forall (hall : ∀ m ∈ c.models, m.strictness = .strict ∧ m.fields.Pairwise Field.Apart ∧
    ∀ f ∈ m.fields, (c.descriptorOf f).model.isSome → f.constraints.maxLength = none) :
    ∀ m, LooksInto c root m → IsGuarded c m := by
  intro m hm
  obtain ⟨hstrict, hapart, hunlimited⟩ := hall m hm.mem_models
  exact ⟨hstrict, hapart, hunlimited⟩

/-- Somebody with an unknown key, who leads a member of a team. -/
def leader : List (Value × Value) := Value.textEntries [("id", .int 2), ("z", .int 3)]

def ledMember : List (Value × Value) := Value.textEntries [("id", .int 1), ("lead", .dict leader)]

def ledTeam : List (Value × Value) := Value.textEntries [("members", .list [.dict ledMember])]

theorem stray_ledTeam : Stray teamCatalogue "Team" ledTeam [ledTeam, ledMember, leader] := by
  have hmembers : Value.lookupText "members" ledTeam = some (.list [.dict ledMember]) := by cbv
  have hlead : Value.lookupText "lead" ledMember = some (.dict leader) := by cbv
  have hleader : Stray teamCatalogue "Member" leader [leader] :=
    .here (m := memberModel) rfl (List.mem_cons_of_mem _ List.mem_cons_self) (by decide)
  have hmember : Stray teamCatalogue "Member" ledMember [ledMember, leader] :=
    .inside (m := memberModel) rfl (List.mem_cons_of_mem _ List.mem_cons_self) (.inl rfl) hlead (.record rfl) hleader
  exact .inside (m := teamModel) rfl List.mem_cons_self (.inl rfl) hmembers (.item rfl rfl List.mem_cons_self) hmember

/-- A team is refused for an unknown key of the leader of a member, and a team that is bound has no such key. -/
theorem bindJson_refuses_stray_leader :
    (∀ n, LooksInto teamCatalogue "Team" n → IsGuarded teamCatalogue n) ∧
      (∃ failure j', (bindJson teamCatalogue teamModel (posting r#"{"members":[{"id":1,"lead":{"id":2,"z":3}}]}"#) true
        (.ok true)).outcome .empty = (.ok (.error failure), j') ∧ failure.code = .unknownField) ∧
      (bindJson teamCatalogue teamModel (posting r#"{"members":[{"id":1}]}"#) true (.ok true)).outcome .empty =
        (.ok (.ok ⟨team, []⟩), .empty) ∧
      ∃ es, Json.ofBytes (posting r#"{"members":[{"id":1}]}"#).body = .ok (.dict es) ∧
        ∀ way, ¬Stray teamCatalogue "Team" es way := by
  have hguarded : ∀ n, LooksInto teamCatalogue "Team" n → IsGuarded teamCatalogue n := isGuarded_of_forall (by decide)
  have hbody : Json.ofBytes (posting r#"{"members":[{"id":1,"lead":{"id":2,"z":3}}]}"#).body = .ok (.dict ledTeam) :=
    ofBytes_posting (by decide +kernel) (by cbv)
  have hmismatch : jsonTypeMismatch teamCatalogue "Team" ledTeam "" = .ok none := by cbv
  have htexts : ∀ record ∈ [ledTeam, ledMember, leader], HasTextKeys record := by
    simp [hasTextKeys_textEntries, ledTeam, ledMember, leader, -Value.textEntries_cons]
  have hbound : (bindJson teamCatalogue teamModel (posting r#"{"members":[{"id":1}]}"#) true (.ok true)).outcome
      .empty = (.ok (.ok ⟨team, []⟩), .empty) := by
    rw [outcome_bindJson ofBytes_team]
    cbv
  exact ⟨hguarded,
    (bindJson_refuses_stray hguarded).1 ledTeam _ hbody hmismatch stray_ledTeam (by decide) htexts, hbound,
    (bindJson_refuses_stray hguarded).2 _ _ hbound⟩

/-- Links of chains of any length. -/
def linkModel : Model := plainModel "Link" [plainField "next" (.union [.record "Link", .null])]

def linkCatalogue : Catalogue := ⟨[linkModel], []⟩

theorem isGuarded_linkCatalogue : ∀ n, LooksInto linkCatalogue "Link" n → IsGuarded linkCatalogue n :=
  isGuarded_of_forall (by decide)

/-- A link with an unknown key, after some that have none. -/
def chain : Nat → List (Value × Value)
  | 0 => Value.textEntries [("z", .int 1)]
  | n + 1 => Value.textEntries [("next", .dict (chain n))]

theorem exists_stray_chain (hm : c.model? "Link" = some linkModel) (n : Nat) : ∃ way, Stray c "Link" (chain n) way := by
  induction n with
  | zero => exact ⟨_, .here hm List.mem_cons_self (by decide)⟩
  | succ n ih =>
      obtain ⟨way, hstray⟩ := ih
      have hnext : Value.lookupText "next" (chain (n + 1)) = some (.dict (chain n)) := by
        rw [chain, Value.lookupText_textEntries, List.lookup_cons_self]
      exact ⟨_, .inside hm List.mem_cons_self (.inl rfl) hnext (.record rfl) hstray⟩

/-- A link with a key that is no proper text beside an unknown one. -/
def brokenLink : List (Value × Value) := [(.brokenText [0xD800], .int 1), (.text "z", .int 2)]

def brokenRequest : Request := posting "\x7b\"\\ud800\":1,\"z\":2\x7d"

/-- A model with a link whose key is the name of a second field and whose name is the key of a third. -/
def mixedModel : Model :=
  plainModel "Mixed" [{ plainField "link" (.union [.record "Link", .null]) with documentKey := some "n" },
    plainField "n" (.union [.int, .null]), { plainField "rest" (.dict .str .int) with documentKey := some "link" }]

def mixedCatalogue : Catalogue := ⟨[mixedModel, linkModel], []⟩

/-- A link with an unknown key that stands under its name. -/
def mixed : List (Value × Value) := Value.textEntries [("link", .dict (chain 0))]

/-- What is built of it: the second field is filled with nothing, which is then found under the key of the link, and
what stands under the name of the link is left to the third. -/
def mixedBound : Value :=
  .record "Mixed" [("link", .null), ("n", .null), ("rest", .dict (Value.textEntries [("z", .int 1)]))]

/-- Whether what was not built was refused for other reasons than a key that is not known. -/
def isRefusedOtherwise : Except (List Rejection) Value → Bool
  | .ok _ => false
  | .error rejections => !rejections.any fun r => r.problem == .extra

theorem exists_of_isRefusedOtherwise {built : Except (List Rejection) Value} (h : isRefusedOtherwise built = true) :
    ∃ rejections, built = .error rejections ∧ ¬∃ r ∈ rejections, r.problem = .extra := by
  cases built with
  | ok value => cases h
  | error rejections => exact ⟨rejections, rfl, by simpa [isRefusedOtherwise] using h⟩

/-- A link of the right types is refused for what it is not built for. -/
theorem exists_failure_of_isRefusedOtherwise (hmismatch : jsonTypeMismatch linkCatalogue "Link" es "" = .ok none)
    (h : isRefusedOtherwise (Shape.build linkCatalogue "Link" (.dict es)) = true) :
    ∃ failure j', (bindDocument linkCatalogue linkModel ⟨"bind.json", true, true, true⟩ (.dict es)).outcome .empty =
      (.ok (.error failure), j') ∧ failure.code ≠ .unknownField := by
  obtain ⟨rejections, hbuild, hother⟩ := exists_of_isRefusedOtherwise h
  obtain ⟨j', houtcome⟩ := outcome_bindDocument_of_refused (m := linkModel)
    (o := ⟨"bind.json", true, true, true⟩) rfl hmismatch rfl hbuild
  exact ⟨_, j', houtcome, mt code_shapeFailure_eq_unknownField_iff.mp hother⟩

/-- Unknown keys that are not what a document of the right types is refused for: one in a link after three hundred
others, and one beside a key that is no proper text; and one with which a document is bound, in a record that is
looked for under the key of another field. -/
theorem bindJson_overlooks_stray :
    (∀ n, LooksInto linkCatalogue "Link" n → IsGuarded linkCatalogue n) ∧
      (jsonTypeMismatch linkCatalogue "Link" (chain 300) "" = .ok none ∧
        (∃ way, Stray linkCatalogue "Link" (chain 300) way) ∧
        ∃ failure j', (bindDocument linkCatalogue linkModel ⟨"bind.json", true, true, true⟩
          (.dict (chain 300))).outcome .empty = (.ok (.error failure), j') ∧ failure.code ≠ .unknownField) ∧
      (Json.ofBytes brokenRequest.body = .ok (.dict brokenLink) ∧
        jsonTypeMismatch linkCatalogue "Link" brokenLink "" = .ok none ∧
        (∃ way, Stray linkCatalogue "Link" brokenLink way) ∧
        ∃ failure j', (bindJson linkCatalogue linkModel brokenRequest true (.ok true)).outcome .empty =
          (.ok (.error failure), j') ∧ failure.code ≠ .unknownField) ∧
      Json.ofBytes (posting r#"{"link":{"z":1}}"#).body = .ok (.dict mixed) ∧
        jsonTypeMismatch mixedCatalogue "Mixed" mixed "" = .ok none ∧
        (∃ way, Stray mixedCatalogue "Mixed" mixed way) ∧
        (bindJson mixedCatalogue mixedModel (posting r#"{"link":{"z":1}}"#) true (.ok true)).outcome .empty =
          (.ok (.ok ⟨mixedBound, []⟩), .empty) := by
  have hlong : jsonTypeMismatch linkCatalogue "Link" (chain 300) "" = .ok none := by decide +kernel
  have hbroken : Json.ofBytes brokenRequest.body = .ok (.dict brokenLink) :=
    ofBytes_posting (by decide +kernel) (by cbv)
  have hmixed : Json.ofBytes (posting r#"{"link":{"z":1}}"#).body = .ok (.dict mixed) :=
    ofBytes_posting (by decide +kernel) (by cbv)
  have hlink : jsonTypeMismatch linkCatalogue "Link" brokenLink "" = .ok none := by cbv
  refine ⟨isGuarded_linkCatalogue, ⟨hlong, exists_stray_chain rfl 300, ?deep⟩, ⟨hbroken, hlink, ?beside, ?broken⟩,
    hmixed, by cbv, ?elsewhere, ?bound⟩
  case deep => exact exists_failure_of_isRefusedOtherwise hlong (by decide +kernel)
  case beside => exact ⟨_, .here (m := linkModel) rfl (List.mem_cons_of_mem _ List.mem_cons_self) (by decide)⟩
  case broken =>
    rw [outcome_bindJson hbroken]
    exact exists_failure_of_isRefusedOtherwise hlink (by cbv)
  case elsewhere =>
    obtain ⟨way, hstray⟩ := exists_stray_chain (c := mixedCatalogue) rfl 0
    have hfound : Value.lookupText "link" mixed = some (.dict (chain 0)) := by
      rw [mixed, Value.lookupText_textEntries, List.lookup_cons_self]
    exact ⟨_, .inside (m := mixedModel) rfl List.mem_cons_self (.inr rfl) hfound (.record rfl) hstray⟩
  case bound =>
    rw [outcome_bindJson hmixed]
    cbv

end Intake.Binding
