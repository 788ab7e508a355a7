import Intake.Binding.Demand
import Intake.Proofs.Binding.Body
import Intake.Proofs.Binding.OneSource
import Intake.Proofs.Rule

/-!
What a body is said to be. Two readers look at the header: binding each field from its own part looks for a form type
at its beginning and for a word in it, and demands for bodies compare the media type itself, without regard to case and
blanks. For most headers they come to the same; the spellings for which they do not are told here one by one.
-/

namespace Intake

namespace Text

variable {part xs ys : List Char}

/-! ### Parts of texts -/

theorem startsWith_iff {start cs : List Char} : startsWith start cs = true ↔ start <+: cs := by
  rw [startsWith, Option.isSome_iff_exists]
  constructor
  · rintro ⟨rest, hrest⟩
    exact ⟨rest, (afterStart?_eq_some_iff.mp hrest).symm⟩
  · rintro ⟨rest, rfl⟩
    exact ⟨rest, afterStart?_eq_some_iff.mpr rfl⟩

theorem occursIn_iff {cs : List Char} : occursIn part cs = true ↔ part <:+: cs := by
  induction cs with
  | nil => simp [occursIn]
  | cons c rest ih => rw [occursIn, Bool.or_eq_true, startsWith_iff, ih, List.infix_cons_iff]

/-- What begins with a part that lacks the next character ends before that. -/
theorem prefix_append_iff (hnext : ∀ c ∈ ys.head?, c ∉ part) : part <+: xs ++ ys ↔ part <+: xs := by
  refine ⟨fun h => ?_, fun h => h.trans (List.prefix_append xs ys)⟩
  induction xs generalizing part with
  | nil =>
      cases ys with
      | nil => exact h
      | cons y more =>
          cases part with
          | nil => exact List.nil_prefix
          | cons c rest =>
              obtain ⟨rfl, -⟩ := List.cons_prefix_cons.mp h
              exact absurd List.mem_cons_self (hnext c rfl)
  | cons x more ih =>
      cases part with
      | nil => exact List.nil_prefix
      | cons c rest =>
          obtain ⟨rfl, hrest⟩ := List.cons_prefix_cons.mp h
          exact List.cons_prefix_cons.mpr ⟨rfl, ih (fun d hd hmem => hnext d hd (List.mem_cons_of_mem c hmem)) hrest⟩

/-- A part occurs in one piece: before a character that it lacks or from there on. -/
theorem infix_append_iff (hsome : part ≠ []) (hnext : ∀ c ∈ ys.head?, c ∉ part) :
    part <:+: xs ++ ys ↔ part <:+: xs ∨ part <:+: ys := by
  induction xs with
  | nil => simp [hsome]
  | cons x more ih =>
      rw [List.cons_append, List.infix_cons_iff, List.infix_cons_iff, ih, ← List.cons_append, prefix_append_iff hnext,
        or_assoc]

/-- A part does not occur in characters that it lacks. -/
theorem infix_append_iff_of_forall (hsome : part ≠ []) (hfree : ∀ c ∈ xs, c ∉ part) :
    part <:+: xs ++ ys ↔ part <:+: ys := by
  induction xs with
  | nil => rfl
  | cons x more ih =>
      obtain ⟨hx, hmore⟩ := List.forall_mem_cons.mp hfree
      rw [List.cons_append, List.infix_cons_iff, ih hmore, or_iff_right]
      intro hstart
      cases part with
      | nil => exact hsome rfl
      | cons c rest =>
          obtain ⟨rfl, -⟩ := List.cons_prefix_cons.mp hstart
          exact hx List.mem_cons_self

theorem lower_append (s t : String) : lower (s ++ t) = lower s ++ lower t := by
  apply String.toList_inj.mp
  simp [lower, List.flatMap_append]

theorem lower_eq_empty_iff {s : String} : lower s = "" ↔ s = "" := by
  refine ⟨fun h => ?_, fun h => by rw [h]; rfl⟩
  have hchars := congrArg String.toList h
  rw [lower, String.toList_ofList] at hchars
  apply String.toList_inj.mp
  refine List.eq_nil_iff_forall_not_mem.mpr fun c hc => ?_
  have hnone := List.flatMap_eq_nil_iff.mp hchars c hc
  split at hnone <;> cases hnone

end Text

namespace Binding

open Text (isBlank trimBoth lower)

variable {r : Request}

/-- The parts of a header that names a media type: blanks, the type, blanks again, and what stands from the first
semicolon on. -/
structure Mention (header : List Char) where
  before : List Char
  type : List Char
  after : List Char
  rest : List Char
  whole : header = before ++ (type ++ (after ++ rest))
  blank_before : ∀ c ∈ before, isBlank c = true
  blank_after : ∀ c ∈ after, isBlank c = true
  trimmed : trimBoth isBlank type = type
  free : ';' ∉ type
  rest_head : ∀ c ∈ rest.head?, c = ';'

/-- What stands from the first semicolon on. -/
def restOf (header : List Char) : List Char :=
  match (Text.cutChars ';' header).2 with
  | some after => ';' :: after
  | none => []

theorem cutChars_append_restOf (header : List Char) : (Text.cutChars ';' header).1 ++ restOf header = header := by
  have hwhole := (Text.cutChars_spec ';' header).2
  unfold restOf
  cases hafter : (Text.cutChars ';' header).2 with
  | none =>
      rw [hafter] at hwhole
      rw [List.append_nil]
      exact hwhole.symm
  | some after =>
      rw [hafter] at hwhole
      exact hwhole.symm

/-- The parts of a header. -/
def Mention.ofHeader (header : List Char) : Mention header :=
  let media := (Text.cutChars ';' header).1
  { before := media.takeWhile isBlank
    type := trimBoth isBlank media
    after := (media.dropWhile isBlank).rtakeWhile isBlank
    rest := restOf header
    whole := by
      have htrimmed : trimBoth isBlank media = (media.dropWhile isBlank).rdropWhile isBlank := rfl
      rw [htrimmed, ← List.append_assoc (List.rdropWhile _ _), List.rdropWhile_append_rtakeWhile, ← List.append_assoc,
        List.takeWhile_append_dropWhile, cutChars_append_restOf]
    blank_before := fun c hc => List.mem_takeWhile_imp hc
    blank_after := fun c hc => List.mem_rtakeWhile_imp hc
    trimmed := Text.trimBoth_trimBoth isBlank media
    free := fun hmem => (Text.cutChars_spec ';' header).1 <| by
      have hmedia := Text.mem_of_mem_strip (s := String.ofList media) (c := ';') (by simpa [Text.strip] using hmem)
      simpa using hmedia
    rest_head := by
      intro c hc
      unfold restOf at hc
      split at hc
      · simpa using hc.symm
      · cases hc }

/-- The parts of the header that says what the body of a request is. -/
def mention (r : Request) : Mention r.contentType.toList := .ofHeader r.contentType.toList

/-- The media type that a header names, without regard to case. -/
def Mention.lowered {header : List Char} (p : Mention header) : String := lower (String.ofList p.type)

/-! ### What demands for bodies look at -/

theorem contentKind_eq (r : Request) : contentKind r =
    if formTypes.contains (mention r).lowered then "form"
    else if (mention r).lowered.endsWith "json" then "json"
    else if (mention r).lowered.endsWith "xml" then "xml"
    else (mention r).lowered := by
  have htype : lower (Text.strip (Text.cut ';' r.contentType).1) = (mention r).lowered := by
    simp [Mention.lowered, mention, Mention.ofHeader, Text.strip, Text.cut]
  rw [contentKind, htype]

/-- No form type ends like a document type. -/
theorem not_endsWith_of_mem_formTypes {type : String} (h : type ∈ formTypes) :
    type.endsWith "json" = false ∧ type.endsWith "xml" = false := by
  have hall : ∀ t ∈ formTypes, t.endsWith "json" = false ∧ t.endsWith "xml" = false := by decide +kernel
  exact hall type h

/-- A body is a form by its media type, or by the bare word. -/
theorem contentKind_eq_form_iff : contentKind r = "form" ↔ (mention r).lowered ∈ "form" :: formTypes := by
  rw [contentKind_eq, List.mem_cons]
  split
  · rename_i hform
    exact iff_of_true rfl (.inr (by simpa using hform))
  · rename_i hform
    have hnot : (mention r).lowered ∉ formTypes := by simpa using hform
    rw [or_iff_left hnot]
    split
    · rename_i hjson
      refine iff_of_false (by decide) fun hword => ?_
      rw [hword] at hjson
      revert hjson
      decide +kernel
    · split
      · rename_i hxml
        refine iff_of_false (by decide) fun hword => ?_
        rw [hword] at hxml
        revert hxml
        decide +kernel
      · rfl

/-- A body is a document with types by the end of its media type. -/
theorem contentKind_eq_json_iff : contentKind r = "json" ↔ (mention r).lowered.endsWith "json" = true := by
  rw [contentKind_eq]
  split
  · rename_i hform
    have hmem : (mention r).lowered ∈ formTypes := by simpa using hform
    refine iff_of_false (by decide) ?_
    rw [(not_endsWith_of_mem_formTypes hmem).1]
    exact Bool.false_ne_true
  · split
    · rename_i hjson
      exact iff_of_true rfl hjson
    · rename_i hjson
      refine iff_of_false ?_ hjson
      split
      · decide
      · intro hword
        rw [hword] at hjson
        exact hjson (by decide +kernel)

theorem wayOf_body (r : Request) : wayOf "body" r =
    if ["json", "xml", "form"].contains (contentKind r) then .ok ((Way.ofLabel? (contentKind r)).getD .all)
    else .error (.unsupportedMediaType (if (contentKind r).isEmpty then "none" else contentKind r)
      "application/json, application/xml or a form" "bind.body") := by
  simp only [wayOf, beq_self_eq_true, if_true]

/-- A demand for a body is met in the way of a kind exactly if the body is of that kind. -/
theorem wayOf_body_eq_ok_iff {kind : String} {way : Way} (hkind : kind ∈ ["json", "xml", "form"])
    (hway : Way.ofLabel? kind = some way) : wayOf "body" r = .ok way ↔ contentKind r = kind := by
  have hapart : ∀ k ∈ ["json", "xml", "form"], ∀ k' ∈ ["json", "xml", "form"],
      (Way.ofLabel? k).getD .all = (Way.ofLabel? k').getD .all → k = k' := by decide
  have hchosen : (Way.ofLabel? kind).getD .all = way := by rw [hway, Option.getD_some]
  rw [wayOf_body]
  split
  · rename_i hbody
    have hmem : contentKind r ∈ ["json", "xml", "form"] := by simpa using hbody
    rw [← hchosen, Except.ok.injEq]
    exact ⟨hapart _ hmem kind hkind, fun hsame => by rw [hsame]⟩
  · rename_i hbody
    refine iff_of_false nofun fun hsame => hbody ?_
    rw [hsame]
    simpa using hkind

theorem wayOf_body_eq_form_iff : wayOf "body" r = .ok .form ↔ (mention r).lowered ∈ "form" :: formTypes := by
  rw [← contentKind_eq_form_iff]
  exact wayOf_body_eq_ok_iff (by decide) rfl

theorem wayOf_body_eq_json_iff : wayOf "body" r = .ok .json ↔ (mention r).lowered.endsWith "json" = true := by
  rw [← contentKind_eq_json_iff]
  exact wayOf_body_eq_ok_iff (by decide) rfl

/-! ### What binding field by field looks at -/

/-- Whether a request says that its body is a document with types, as far as binding each field from its own part
looks. -/
def saysJson (r : Request) : Bool := Text.occursIn "json".toList r.contentType.toList

/-- What a form type and the word for documents lack. -/
theorem not_mem_of_separates {c : Char} (hc : isBlank c = true ∨ c = ';') :
    (∀ t ∈ formTypes, c ∉ t.toList) ∧ c ∉ "json".toList := by
  have hplain : (∀ t ∈ formTypes, (t.toList.all fun d => !isBlank d && d != ';') = true) ∧
      ("json".toList.all fun d => !isBlank d && d != ';') = true := by decide
  have hnot {cs : List Char} (hall : (cs.all fun d => !isBlank d && d != ';') = true) : c ∉ cs := by
    intro hmem
    have hc' := List.all_eq_true.mp hall c hmem
    rcases hc with hblank | hsemicolon
    · simp [hblank] at hc'
    · simp [hsemicolon] at hc'
  exact ⟨fun t ht => hnot (hplain.1 t ht), hnot hplain.2⟩

/-- Behind the media type there is a blank or a semicolon, if anything. -/
theorem Mention.separates {header : List Char} (p : Mention header) :
    ∀ c ∈ (p.after ++ p.rest).head?, isBlank c = true ∨ c = ';' := by
  intro c hc
  cases hafter : p.after with
  | nil =>
      rw [hafter] at hc
      exact .inr (p.rest_head c hc)
  | cons d more =>
      rw [hafter] at hc
      cases hc
      exact .inl (p.blank_after c (hafter ▸ List.mem_cons_self))

/-- A form type stands at the beginning of a header exactly if there is no blank before the media type and that begins
with it. -/
theorem saysForm_iff : saysForm r = true ↔
    (mention r).before = [] ∧ ∃ t ∈ formTypes, t.toList <+: (mention r).type := by
  rw [saysForm, List.any_eq_true]
  have hwhole := (mention r).whole
  have hbehind {t : String} (ht : t ∈ formTypes) :
      t.toList <+: (mention r).type ++ ((mention r).after ++ (mention r).rest) ↔ t.toList <+: (mention r).type :=
    Text.prefix_append_iff fun c hc => (not_mem_of_separates ((mention r).separates c hc)).1 t ht
  constructor
  · rintro ⟨t, ht, hstart⟩
    rw [String.startsWith_string_iff, hwhole] at hstart
    cases hbefore : (mention r).before with
    | nil =>
        rw [hbefore, List.nil_append, hbehind ht] at hstart
        exact ⟨rfl, t, ht, hstart⟩
    | cons c more =>
        -- a form type does not begin with a blank
        have hblank : isBlank c = true := (mention r).blank_before c (hbefore ▸ List.mem_cons_self)
        have hlacks := (not_mem_of_separates (.inl hblank)).1 t ht
        rw [hbefore, List.cons_append, ← List.nil_append (c :: _),
          Text.prefix_append_iff fun d hd => by cases hd; exact hlacks, List.prefix_nil] at hstart
        have hsome : ∀ t ∈ formTypes, t.toList ≠ [] := by decide
        exact absurd hstart (hsome t ht)
  · rintro ⟨hbefore, t, ht, hstart⟩
    refine ⟨t, ht, ?_⟩
    rw [String.startsWith_string_iff, hwhole, hbefore, List.nil_append, hbehind ht]
    exact hstart

/-- The word for documents occurs in a header exactly if it occurs in the media type or behind the first semicolon. -/
theorem saysJson_iff : saysJson r = true ↔
    "json".toList <:+: (mention r).type ∨ "json".toList <:+: (mention r).rest := by
  have hsome : "json".toList ≠ [] := by decide
  have hfree {cs : List Char} (hblank : ∀ c ∈ cs, isBlank c = true) : ∀ c ∈ cs, c ∉ "json".toList :=
    fun c hc => (not_mem_of_separates (.inl (hblank c hc))).2
  have hoccurs : saysJson r = true ↔ "json".toList <:+:
      (mention r).before ++ ((mention r).type ++ ((mention r).after ++ (mention r).rest)) := by
    rw [← (mention r).whole, saysJson, Text.occursIn_iff]
  rw [hoccurs, Text.infix_append_iff_of_forall hsome (hfree (mention r).blank_before),
    Text.infix_append_iff hsome fun c hc => (not_mem_of_separates ((mention r).separates c hc)).2,
    Text.infix_append_iff_of_forall hsome (hfree (mention r).blank_after)]

/-! ### Where they differ -/

theorem Mention.lowered_of_begins {header : List Char} (p : Mention header) {t : String} (ht : t ∈ formTypes)
    (hstart : t.toList <+: p.type) :
    ∃ more, p.type = t.toList ++ more ∧ p.lowered = t ++ lower (String.ofList more) := by
  obtain ⟨more, hmore⟩ := hstart
  have hlower : ∀ t ∈ formTypes, lower t = t := by decide +kernel
  refine ⟨more, hmore.symm, ?_⟩
  rw [lowered, ← hmore, String.ofList_append, String.ofList_toList, Text.lower_append, hlower t ht]

/-- No form type begins with another one or with the bare word. -/
theorem eq_of_begins_of_mem {t : String} (ht : t ∈ formTypes) :
    (∀ t' ∈ formTypes, t.toList <+: t'.toList → t = t') ∧ ¬ t.toList <+: "form".toList := by
  have hall : ∀ t ∈ formTypes, (∀ t' ∈ formTypes, t.toList <+: t'.toList → t = t') ∧ ¬ t.toList <+: "form".toList := by
    decide +kernel
  exact hall t ht

/-- A media type that is a form type but for the case, and begins with one, is that one. -/
theorem Mention.eq_of_begins {header : List Char} (p : Mention header) {t : String} (ht : t ∈ formTypes)
    (hstart : t.toList <+: p.type) (hlowered : p.lowered ∈ "form" :: formTypes) :
    p.type = t.toList ∧ p.lowered = t := by
  obtain ⟨more, hmore, hwhole⟩ := p.lowered_of_begins ht hstart
  have hbegins : t.toList <+: p.lowered.toList := ⟨(lower (String.ofList more)).toList, by simp [hwhole]⟩
  obtain ⟨hdistinct, hword⟩ := eq_of_begins_of_mem ht
  rcases List.mem_cons.mp hlowered with h | h
  · rw [h] at hbegins
    exact absurd hbegins hword
  · obtain rfl := hdistinct _ h hbegins
    have hnone : more = [] := by
      have hempty : lower (String.ofList more) = "" := by
        apply String.toList_inj.mp
        simpa using congrArg String.toList hwhole
      simpa using Text.lower_eq_empty_iff.mp hempty
    rw [hmore, hnone, List.append_nil]
    exact ⟨rfl, rfl⟩

/-- The headers that only one of the two takes for the one of a form: a form type in other letters or behind blanks,
a longer media type that begins with a form type, and the bare word. -/
inductive FormDiffers {header : List Char} (p : Mention header) : Prop where
  | respelled {t : String} (ht : t ∈ formTypes) (hsame : p.lowered = t) (hother : ¬ (p.before = [] ∧ p.type = t.toList))
  | longer {t : String} (ht : t ∈ formTypes) (hbefore : p.before = []) (hstart : t.toList <+: p.type)
      (hmore : p.type ≠ t.toList)
  | word (hword : p.lowered = "form")

/-- The headers that only one of the two takes for the one of a document with types: a media type that ends with the
word in other letters, and the word elsewhere, inside the media type or behind the first semicolon. -/
inductive JsonDiffers {header : List Char} (p : Mention header) : Prop where
  | respelled (hend : p.lowered.endsWith "json" = true) (htype : ¬ "json".toList <:+: p.type)
      (hrest : ¬ "json".toList <:+: p.rest)
  | inside (htype : "json".toList <:+: p.type) (hend : p.lowered.endsWith "json" = false)
  | behind (hrest : "json".toList <:+: p.rest) (hend : p.lowered.endsWith "json" = false)

theorem saysForm_iff_wayOf_iff : (saysForm r = true ↔ wayOf "body" r = .ok .form) ↔ ¬ FormDiffers (mention r) := by
  rw [saysForm_iff, wayOf_body_eq_form_iff]
  constructor
  · intro hagree hdiffers
    cases hdiffers with
    | respelled ht hsame hother =>
        have hlowered : (mention r).lowered ∈ "form" :: formTypes := List.mem_cons_of_mem _ (hsame ▸ ht)
        obtain ⟨hbefore, t', ht', hstart⟩ := hagree.mpr hlowered
        obtain ⟨htype, hlower⟩ := (mention r).eq_of_begins ht' hstart hlowered
        exact hother ⟨hbefore, by rw [htype, ← hlower, hsame]⟩
    | longer ht hbefore hstart hmore =>
        exact hmore ((mention r).eq_of_begins ht hstart (hagree.mp ⟨hbefore, _, ht, hstart⟩)).1
    | word hword =>
        have hlowered : (mention r).lowered ∈ "form" :: formTypes := hword ▸ List.mem_cons_self
        obtain ⟨-, t, ht, hstart⟩ := hagree.mpr hlowered
        have hsame : "form" = t := hword.symm.trans ((mention r).eq_of_begins ht hstart hlowered).2
        exact absurd (hsame ▸ ht) (by decide)
  · intro hnot
    constructor
    · rintro ⟨hbefore, t, ht, hstart⟩
      have htype : (mention r).type = t.toList := by
        by_contra hmore
        exact hnot (.longer ht hbefore hstart hmore)
      obtain ⟨more, hmore, hlowered⟩ := (mention r).lowered_of_begins ht hstart
      obtain rfl : more = [] := by simpa using hmore.symm.trans htype
      rw [hlowered, Text.lower_eq_empty_iff.mpr rfl, String.append_empty]
      exact List.mem_cons_of_mem _ ht
    · intro hlowered
      rcases List.mem_cons.mp hlowered with hword | ht
      · exact absurd (FormDiffers.word hword) hnot
      · have hspelled : (mention r).before = [] ∧ (mention r).type = (mention r).lowered.toList := by
          by_contra hother
          exact hnot (.respelled ht rfl hother)
        exact ⟨hspelled.1, (mention r).lowered, ht, [], (List.append_nil _).trans hspelled.2.symm⟩

theorem saysJson_iff_wayOf_iff : (saysJson r = true ↔ wayOf "body" r = .ok .json) ↔ ¬ JsonDiffers (mention r) := by
  rw [saysJson_iff, wayOf_body_eq_json_iff]
  constructor
  · intro hagree hdiffers
    cases hdiffers with
    | respelled hend htype hrest => exact (hagree.mpr hend).elim htype hrest
    | inside htype hend => exact absurd (hend.symm.trans (hagree.mp (.inl htype))) Bool.false_ne_true
    | behind hrest hend => exact absurd (hend.symm.trans (hagree.mp (.inr hrest))) Bool.false_ne_true
  · intro hnot
    constructor
    · intro hoccurs
      by_contra hend
      rw [Bool.not_eq_true] at hend
      exact hnot (hoccurs.elim (.inside · hend) (.behind · hend))
    · intro hend
      by_contra hnowhere
      rw [not_or] at hnowhere
      exact hnot (.respelled hend hnowhere.1 hnowhere.2)

/-- The document in the body, for fields that are bound to it. -/
def documentIn (r : Request) : Except Fault (Except Failure (Option Value)) :=
  match Json.ofBytes r.body with
  | .error fault =>
    if fault.isTooDeep then .error (.deepDocument fault.message)
    else .ok (.error (.invalidJson fault.message "bind"))
  | .ok document => .ok (.ok (some document))

theorem bodyDocument_eq (r : Request) : bodyDocument r =
    if saysJson r then
      if saysForm r && r.isForm then .error .consumed
      else if r.body.isEmpty then .ok (.ok none) else documentIn r
    else .ok (.ok none) := by
  unfold bodyDocument
  change (if !saysJson r then _ else _) = _
  cases saysJson r with
  | false => rfl
  | true =>
      change (if saysForm r && r.isForm then _ else _) = _
      cases saysForm r && r.isForm with
      | true => rfl
      | false =>
          cases r.body.isEmpty with
          | true => rfl
          | false =>
              unfold documentIn
              cases Json.ofBytes r.body with
              | ok document => rfl
              | error fault =>
                  dsimp only
                  cases fault.isTooDeep <;> rfl

/-- Binding field by field offers what is in a form exactly if the header begins with a form type, and reads fields
that are bound to the body from a document only if the word for documents occurs in the header. A demand for a body
is met by binding a form or a document with types exactly in these cases, unless the header is spelled in one of the
ways that are listed. -/
theorem body_kinds_agree_iff (r : Request) :
    (offersOf r = if saysForm r then
        r.form.map fun form => [.ofPath r, .ofQuery r, .ofHeaders r, .ofCookies r, .ofForm r form]
      else .ok [.ofPath r, .ofQuery r, .ofHeaders r, .ofCookies r]) ∧
      (bodyDocument r = if saysJson r then
          if saysForm r && r.isForm then .error .consumed
          else if r.body.isEmpty then .ok (.ok none) else documentIn r
        else .ok (.ok none)) ∧
      ((saysForm r = true ↔ wayOf "body" r = .ok .form) ↔ ¬ FormDiffers (mention r)) ∧
      ((saysJson r = true ↔ wayOf "body" r = .ok .json) ↔ ¬ JsonDiffers (mention r)) := by
  refine ⟨?_, bodyDocument_eq r, saysForm_iff_wayOf_iff, saysJson_iff_wayOf_iff⟩
  cases htype : saysForm r with
  | true => exact offersOf_of_saysForm htype
  | false => exact offersOf_of_not_saysForm htype

/-- Limits, which only a body may bring. -/
def limitsField : Field :=
  { plainField "limits" (.dict .str .int) with annotations := { Annotations.none with source := some "body" } }

def quotaModel : Model := plainModel "Quota" [limitsField]

def quotaCatalogue : Catalogue := ⟨[quotaModel], []⟩

/-- Limits in a document that is said to be one in capital letters. -/
def shouting : Request :=
  { posting r#"{"limits":{"daily":5}}"# with headers := [("content-type", "application/JSON")] }

theorem ofBytes_shouting : Json.ofBytes shouting.body =
    .ok (.dict (Value.textEntries [("limits", .dict (Value.textEntries [("daily", .int 5)]))])) :=
  ofBytes_posting (by decide +kernel) (by cbv)

theorem saysJson_shouting : saysJson shouting = false := by decide +kernel

/-- Limits in a document that is said to be one in capital letters are bound where a body is demanded, and lost where
each field is bound from its own part; and a form that is said to be one with a capital letter is one only there. -/
theorem body_kinds_differ :
    (wayOf "body" shouting = .ok .json ∧ saysJson shouting = false ∧
      (bind quotaCatalogue quotaModel shouting ⟨true, .ok true⟩ .json).outcome Journal.empty =
        (.ok (.ok ⟨.record "Quota" [("limits", .dict [(.text "daily", .int 5)])], []⟩), Journal.empty) ∧
      (bind quotaCatalogue quotaModel shouting ⟨true, .ok true⟩ .all).outcome Journal.empty =
        (.ok (.ok ⟨.record "Quota" [("limits", .dict [])], []⟩), Journal.empty)) ∧
    wayOf "body" proclaiming = .ok .form ∧ saysForm proclaiming = false := by
  refine ⟨⟨?_, saysJson_shouting, ?_, ?_⟩, ?_, saysForm_proclaiming⟩
  · rw [wayOf_body_eq_json_iff]
    decide +kernel
  · refine (outcome_bindJson ofBytes_shouting true).trans ?_
    cbv
  · have hoffers := offersOf_of_not_saysForm (r := shouting) (by decide +kernel)
    refine (outcome_bindAll rfl saysJson_shouting hoffers _).trans ?_
    cbv
  · rw [wayOf_body_eq_form_iff]
    decide +kernel

end Binding
end Intake
