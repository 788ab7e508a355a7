import Intake.Proofs.Binding.Return
import Intake.Sample.Service

/-!
The statuses of the sample service. Its models are plain, so what it binds is bound or refused as a mistake of the
client; other mistakes it takes for its own. A status below 500 is replied exactly to a request that has none of
these.
-/

namespace Intake.Sample

open Binding (contentKind wayOf exists_decodeStrings_of_isNested exists_decodeStrings_of_leaves readText layoutOf)
open Intake.Action (Ends Fails ends_pure ends_tryCatch ends_tryCatch_of_fails fails_throw)

variable {r : Request}

/-! ### The models -/

theorem isReliable_catalogue : catalogue.IsReliable := isReliable_of_isPlain (by decide +kernel)

theorem isUnfolded_catalogue (name : String) : Binding.IsUnfolded catalogue name :=
  Binding.isUnfolded_of_rank (fun name => if name = newUser then 1 else 0) (by decide +kernel)

/-- The layout of days. -/
def dayLayout : String := "%Y-%m-%d"

/-- Every text is a moment of the layout of days, or none. -/
theorem exists_ofLayout?_dayLayout (raw : String) : ∃ found, Calendar.Moment.ofLayout? dayLayout raw = .ok found := by
  have hcompiled : ((Calendar.Layout.pattern? dayLayout).map fun pattern =>
      (Pattern.compile { Pattern.Modes.none with caseBlind := true } pattern).toOption.isSome) = some true := by
    decide +kernel
  obtain ⟨pattern, hpattern, hcompiled⟩ := Option.map_eq_some_iff.mp hcompiled
  cases hread : Pattern.compile { Pattern.Modes.none with caseBlind := true } pattern with
  | error flaw =>
      rw [hread] at hcompiled
      cases hcompiled
  | ok compiled =>
      simp only [Calendar.Moment.ofLayout?, hpattern, hread]
      exact ⟨_, rfl⟩

theorem exists_readText_dayLayout (kind : Kind) (raw : String) :
    ∃ outcome, readText kind raw (some dayLayout) = .ok outcome := by
  cases kind with
  | moment =>
      obtain ⟨found, hfound⟩ := exists_ofLayout?_dayLayout raw
      have hlayout : (some dayLayout).filter (fun s => !s.isEmpty) = some dayLayout := by decide +kernel
      simp only [readText, Kind.read, readMoment, hlayout, hfound, ok_bind]
      exact ⟨_, rfl⟩
  | _ => exact ⟨_, rfl⟩

/-- Every model of the service reads texts, whatever they say. -/
theorem isLegible_catalogue (name : String) : Binding.IsLegible catalogue name := by
  have hlayouts : ∀ m ∈ catalogue.models, ∀ f ∈ m.fields,
      layoutOf (catalogue.descriptorOf f) ∈ [none, some dayLayout] := by decide +kernel
  intro m hm
  have hmem : m ∈ catalogue.models := List.mem_of_find?_eq_some hm
  obtain ⟨fields, hfields⟩ := isReliable_catalogue.sound.isDescribed m hmem
  refine ⟨fields, hfields, fun d hd kind _ raw => ?_⟩
  rw [(Catalogue.describe_eq_map hfields).1] at hd
  obtain ⟨f, hf, rfl⟩ := List.mem_map.mp hd
  rcases List.mem_pair.mp (hlayouts m hmem f hf) with hnone | hday
  · rw [hnone]
    cases kind <;> exact ⟨_, rfl⟩
  · rw [hday]
    exact exists_readText_dayLayout kind raw

/-! ### Records that requests are bound to -/

/-- Whether the body of a request is no document that is left in the middle: neither nested too deep, nor in an
encoding that no one knows. -/
structure IsReadThrough (r : Request) : Prop where
  json : contentKind r = "json" → ∀ fault, Json.ofBytes r.body = .error fault → ¬ fault.isTooDeep
  xml : contentKind r = "xml" → ∀ flaw, Markup.ofBytes r.body = .error flaw → ¬ flaw.isUnknownEncoding

theorem ends_bind_newUser (hbody : IsReadThrough r) {m : Model} (hm : catalogue.model? m.name = some m)
    {way : Binding.Way} (hway : wayOf "body" r = .ok way) :
    Ends Binding.IsMendable (Binding.bind catalogue m r ⟨true, .ok Settings.default.strictJson⟩ way) := by
  rcases Binding.of_wayOf_body hway with ⟨hkind, rfl⟩ | ⟨hkind, rfl⟩ | ⟨-, rfl⟩
  · exact Binding.ends_bindJson isReliable_catalogue (hbody.json hkind) true
  · exact Binding.ends_bindXml isReliable_catalogue (hbody.xml hkind) true
  · exact Binding.ends_bindForm isReliable_catalogue hm fun form =>
      exists_decodeStrings_of_isNested (isUnfolded_catalogue _) isLegible_catalogue rfl

/-! ### Replies -/

/-- An operation that comes to a reply with a status below 500. -/
abbrev RepliesBelow500 (a : Action Reply) : Prop := Ends (fun reply => reply.status < 500) a

theorem ends_reply (f : Failure) : Ends (fun reply => reply.status = f.code.httpStatus) f.reply :=
  fun _ => ⟨_, _, rfl, rfl⟩

theorem code_within (f : Failure) (correlation : Option String) (origin requestId : Option (Option String)) :
    (f.within correlation origin requestId).code = f.code := by
  unfold Failure.within Failure.correlate
  split
  · split <;> rfl
  · rfl

theorem ends_withRecord {m : Model} {model source : String} {go : List (String × Value) → Action Reply}
    (hm : catalogue.model? model = some m)
    (hbind : ∀ way, wayOf source r = .ok way →
      Ends Binding.IsMendable (Binding.bind catalogue m r ⟨true, .ok Settings.default.strictJson⟩ way))
    (hgo : ∀ attributes, RepliesBelow500 (go attributes)) : RepliesBelow500 (withRecord r model source go) := by
  unfold withRecord
  simp only [hm]
  have hmeet : Ends Binding.IsMendable (Binding.Demand.meet ⟨source, true, true⟩ catalogue m r
      (.ok Settings.default.strictJson)) := Binding.ends_meet hbind
  refine hmeet.bind fun outcome houtcome => ?_
  split
  · rename_i failure
    refine (ends_reply _).mono fun reply hstatus => ?_
    rw [hstatus, code_within]
    exact houtcome
  · split
    · exact hgo _
    · exact hgo _

/-- A new user is taken or refused, unless the body is a document that is left in the middle. -/
theorem ends_createUser (hbody : IsReadThrough r) : RepliesBelow500 (createUser r) := by
  obtain ⟨m, hm⟩ : ∃ m, catalogue.model? newUser = some m := ⟨_, rfl⟩
  refine ends_withRecord hm (fun way hway => ends_bind_newUser hbody (Catalogue.model?_self hm) hway) ?_
  exact fun attributes => (Intake.Action.ends_note _ _ _).bind fun _ _ => ends_pure (show 201 < 500 by decide)

theorem ends_listUsers : RepliesBelow500 (listUsers r) := by
  obtain ⟨m, hm⟩ : ∃ m, catalogue.model? filter = some m := ⟨_, rfl⟩
  refine ends_withRecord hm (fun way hway => ?_) fun attributes => ends_pure (show 200 < 500 by decide)
  have hquery : wayOf "query" r = .ok .query := rfl
  obtain rfl := Except.ok.inj (hquery.symm.trans hway)
  have hread := exists_decodeStrings_of_isNested (isUnfolded_catalogue m.name) isLegible_catalogue
    (rfl : (Binding.Offer.ofQuery r).source.isNested = true)
  exact (Binding.ends_bindStrings isReliable_catalogue (Catalogue.model?_self hm) hread).bind
    fun _ _ => ends_pure trivial

theorem ends_getUser (id : String) : RepliesBelow500 (getUser r id) := by
  have hleaves : ∀ m ∈ catalogue.models, m.name = lookup → ∀ f ∈ m.fields,
      ((catalogue.descriptorOf f).kind ≠ .record ∧ (catalogue.descriptorOf f).kind ≠ .map ∧
        Binding.Offer.notInHeader? (catalogue.descriptorOf f).headerName = none) ∧
      (catalogue.descriptorOf f).source ≠ .body := by decide +kernel
  obtain ⟨m, hm⟩ : ∃ m, catalogue.model? lookup = some m := ⟨_, rfl⟩
  have hmem : m ∈ catalogue.models := List.mem_of_find?_eq_some hm
  obtain ⟨fields, hfields⟩ := isReliable_catalogue.sound.isDescribed m hmem
  have hall : ∀ d ∈ fields, (d.kind ≠ .record ∧ d.kind ≠ .map ∧ Binding.Offer.notInHeader? d.headerName = none) ∧
      d.source ≠ .body := by
    intro d hd
    rw [(Catalogue.describe_eq_map hfields).1] at hd
    obtain ⟨f, hf, rfl⟩ := List.mem_map.mp hd
    exact hleaves m hmem (Catalogue.name_of_model? hm) f hf
  refine ends_withRecord hm (fun way hway => ?_) fun attributes => ends_pure (show 200 < 500 by decide)
  have hway' : wayOf "auto" { r with pathParameters := [("user_id", .text id)] } = .ok .all := rfl
  obtain rfl := Except.ok.inj (hway'.symm.trans hway)
  have hself := Catalogue.model?_self hm
  exact Binding.ends_bindAll isReliable_catalogue hself hfields (fun d hd => (hall d hd).2)
    (exists_decodeStrings_of_leaves hself hfields (isLegible_catalogue _) fun d hd => (hall d hd).1) true

/-! ### Routes -/

/-- Only one path leads to what happens on request. -/
theorem eq_of_lookup_boom {path : List Char} {method : String} (h : (routesAt path).lookup method = some .boom) :
    path = "/boom".toList := by
  obtain ⟨before, after, hroutes, -⟩ := List.lookup_eq_some_iff.mp h
  have hmem : (method, Route.boom) ∈ routesAt path := by
    rw [hroutes]
    exact List.mem_append_right before List.mem_cons_self
  unfold routesAt at hmem
  split at hmem
  · rename_i name hpath
    have hwhole := Text.joinChars_splitChars '/' path
    rw [hpath] at hwhole
    split at hmem
    case h_4 hname =>
      rw [← hwhole, ← @String.toList_ofList name, hname]
      rfl
    all_goals simp at hmem
  · split at hmem <;> simp at hmem
  · cases hmem

/-- The status of what a request comes to, which is that of the service's own failures if nobody expected it. -/
def statusOf : Except Failure.Surprise Reply → Nat
  | .ok reply => reply.status
  | .error _ => 500

/-- A mistake of a client that the service takes for its own: a method that there is nothing for at a path, a document
that is nested too deep, or one in an encoding that no one knows. -/
inductive IsMisjudged (r : Request) : Prop where
  | method (hpath : routesAt (meantPath r.path) ≠ [])
      (hmethod : (routesAt (meantPath r.path)).lookup r.method = none) : IsMisjudged r
  | deep {fault : Json.Fault} (hroute : (routesAt (meantPath r.path)).lookup r.method = some .createUser)
      (hkind : contentKind r = "json") (hbody : Json.ofBytes r.body = .error fault)
      (hdeep : fault.isTooDeep = true) : IsMisjudged r
  | encoding {flaw : Markup.Flaw} (hroute : (routesAt (meantPath r.path)).lookup r.method = some .createUser)
      (hkind : contentKind r = "xml") (hbody : Markup.ofBytes r.body = .error flaw)
      (hunknown : flaw.isUnknownEncoding = true) : IsMisjudged r

theorem ends_result (p : Nat → Prop) {a : Action Reply} (ha : Ends (fun reply => p reply.status) a) :
    Ends (fun x => p (statusOf x)) (Except.ok <$> a : Action (Except Failure.Surprise Reply)) := by
  rw [map_eq_pure_bind]
  exact ha.bind fun reply hreply => ends_pure hreply

/-- A route that is no misjudgement replies with a status below 500. -/
theorem ends_replyAt {route : Route} (hroute : (routesAt (meantPath r.path)).lookup r.method = some route)
    (hpath : meantPath r.path ≠ "/boom".toList) (hr : ¬ IsMisjudged r) :
    Ends (fun x => statusOf x < 500) (replyAt r route) := by
  cases route with
  | health => exact ends_pure (show 200 < 500 by decide)
  | schemas => exact ends_pure (show 200 < 500 by decide)
  | listUsers => exact ends_result (· < 500) ends_listUsers
  | getUser id => exact ends_result (· < 500) (ends_getUser id)
  | boom => exact absurd (eq_of_lookup_boom hroute) hpath
  | createUser =>
      refine ends_result (· < 500) (ends_createUser ⟨?_, ?_⟩)
      · exact fun hkind fault hbody hdeep => hr (.deep hroute hkind hbody hdeep)
      · exact fun hkind flaw hbody hunknown => hr (.encoding hroute hkind hbody hunknown)

theorem ends_replyToStatus (status : Nat) (detail : Option String) :
    Ends (fun reply => reply.status = (Failure.codeOfStatus status).httpStatus) (replyToStatus r status detail) :=
  ends_reply _

theorem ends_replyTo (hpath : meantPath r.path ≠ "/boom".toList) (hr : ¬ IsMisjudged r) :
    Ends (fun x => statusOf x < 500) (replyTo r) := by
  unfold replyTo
  dsimp only
  split
  · split
    · refine ends_result (· < 500) ((ends_replyToStatus 404 none).mono fun reply hstatus => ?_)
      rw [hstatus]
      decide
    · exact ends_pure (show 307 < 500 by decide)
  · rename_i hroutes
    split
    · rename_i route hroute
      exact ends_tryCatch (ends_replyAt hroute hpath hr)
    · rename_i hmethod
      exact absurd (.method hroutes hmethod) hr

/-! ### Misjudgements -/

theorem fails_createUser (hbody : ∀ m, ∃ way, wayOf "body" r = .ok way ∧
    Fails (Binding.bind catalogue m r ⟨true, .ok Settings.default.strictJson⟩ way)) : Fails (createUser r) := by
  obtain ⟨m, hm⟩ : ∃ m, catalogue.model? newUser = some m := ⟨_, rfl⟩
  obtain ⟨way, hway, hbind⟩ := hbody m
  have hmeet : Fails (Binding.Demand.meet ⟨"body", true, true⟩ catalogue m r (.ok Settings.default.strictJson)) := by
    unfold Binding.Demand.meet
    simp only [hway]
    exact hbind.bind _
  unfold createUser withRecord
  simp only [hm]
  exact hmeet.bind _

theorem fails_createUser_of_deep {fault : Json.Fault} (hkind : contentKind r = "json")
    (hbody : Json.ofBytes r.body = .error fault) (hdeep : fault.isTooDeep = true) : Fails (createUser r) := by
  refine fails_createUser fun m => ⟨.json, by simp [wayOf, hkind]; rfl, ?_⟩
  simp only [Binding.bind, Binding.bindJson, hbody, hdeep, ↓reduceIte]
  exact (fails_throw _).bind _

theorem fails_createUser_of_encoding {flaw : Markup.Flaw} (hkind : contentKind r = "xml")
    (hbody : Markup.ofBytes r.body = .error flaw) (hunknown : flaw.isUnknownEncoding = true) :
    Fails (createUser r) := by
  refine fails_createUser fun m => ⟨.xml, by simp [wayOf, hkind]; rfl, ?_⟩
  simp only [Binding.bind, Binding.bindXml, hbody, hunknown, ↓reduceIte]
  exact (fails_throw _).bind _

theorem ends_replyTo_of_fails (hroute : (routesAt (meantPath r.path)).lookup r.method = some .createUser)
    (hfails : Fails (createUser r)) : Ends (fun x => statusOf x = 500) (replyTo r) := by
  unfold replyTo
  dsimp only
  split
  · rename_i hnone
    rw [hnone] at hroute
    cases hroute
  · rw [hroute]
    have hreply : Fails (replyAt r .createUser) := by
      rw [replyAt, map_eq_pure_bind]
      exact hfails.bind _
    exact ends_tryCatch_of_fails hreply fun fault => ends_pure rfl

/-- What the service misjudges is replied as its own failure. -/
theorem ends_replyTo_of_isMisjudged (hr : IsMisjudged r) : Ends (fun x => statusOf x = 500) (replyTo r) := by
  cases hr with
  | method hpath hmethod =>
      unfold replyTo
      dsimp only
      split
      · exact absurd ‹_› hpath
      · rw [hmethod]
        exact ends_result (· = 500) (ends_replyToStatus 405 none)
  | deep hroute hkind hbody hdeep =>
      exact ends_replyTo_of_fails hroute (fails_createUser_of_deep hkind hbody hdeep)
  | encoding hroute hkind hbody hunknown =>
      exact ends_replyTo_of_fails hroute (fails_createUser_of_encoding hkind hbody hunknown)

/-- The status of an answer is that of the reply. -/
theorem ends_answer (p : Nat → Prop) (hreply : Ends (fun x => p (statusOf x)) (replyTo r)) :
    Ends (fun a => p a.reply.status) (answer r) := by
  unfold answer
  dsimp only
  refine hreply.bind fun x hx => ?_
  cases x with
  | ok reply => exact (Intake.Action.ends_note _ _ _).bind fun _ _ => ends_pure hx
  | error surprise =>
      refine (Intake.Action.ends_note _ _ _).bind fun _ _ => ?_
      unfold Failure.replyToSurprise
      refine Ends.bind (Ends.bind (Intake.Action.ends_note _ _ _) fun _ _ => ends_reply _) fun reply hstatus => ?_
      refine ends_pure ?_
      dsimp only
      rw [hstatus]
      exact hx

/-- A request without a body and without headers. -/
def asking (method path : String) : Request := ⟨method, path, "", [], [], []⟩

end Intake.Sample
