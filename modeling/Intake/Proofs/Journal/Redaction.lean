import Intake.Journal.Line

/-!
What a journal keeps to itself. A part of a value is found by steps into dictionaries and lists. Down to a depth
everything under a sensitive key is replaced by the mark, and every other part is seen as it is; below that depth
nothing is replaced, whatever its key.
-/

namespace Intake.Redaction

variable {depth : Nat} {v y : Value} {entries : List (Value × Value)} {items : List Value}

/-! ### Parts of values -/

/-- A step from a value to one that stands in it: to the entry of a dictionary at a place, which has a key, or to the
item of a list at a place. -/
inductive Step where
  | entry (place : Nat) (key : Value)
  | item (place : Nat)

namespace Step

/-- Whether a step leads to what stands under a sensitive key. -/
def isSensitive : Step → Bool
  | .entry _ key => Redaction.isSensitive key
  | .item _ => false

/-- What a step leads to. -/
inductive Leads : Step → Value → Value → Prop where
  | entry {place : Nat} {key v : Value} {entries : List (Value × Value)} (h : entries[place]? = some (key, v)) :
      Leads (.entry place key) (.dict entries) v
  | item {place : Nat} {v : Value} {items : List Value} (h : items[place]? = some v) :
      Leads (.item place) (.list items) v

@[simp] theorem leads_entry_iff {place : Nat} {key : Value} :
    (Step.entry place key).Leads (.dict entries) v ↔ entries[place]? = some (key, v) :=
  ⟨fun | .entry h => h, .entry⟩

@[simp] theorem leads_item_iff {place : Nat} : (Step.item place).Leads (.list items) v ↔ items[place]? = some v :=
  ⟨fun | .item h => h, .item⟩

end Step

/-- What stands in a value at the end of a way. -/
def StandsAt : List Step → Value → Value → Prop
  | [], whole, part => part = whole
  | s :: way, whole, part => ∃ v, s.Leads whole v ∧ StandsAt way v part

/-- The mark is all that stands in the mark. -/
theorem eq_mark_of_standsAt_mark {way : List Step} (h : StandsAt way mark y) : y = mark := by
  cases way with
  | nil => exact h
  | cons s way =>
      obtain ⟨_, hlead, -⟩ := h
      cases hlead

/-- What is seen of a value without what stands in it: the keys of a dictionary, and how many items a list has. -/
def outline : Value → Value
  | .dict entries => .dict (entries.map fun e => (e.1, .null))
  | .list items => .list (items.map fun _ => .null)
  | v => v

/-! ### One step -/

theorem redactEntries_eq_map (depth : Nat) (entries : List (Value × Value)) :
    redactEntries depth entries =
      entries.map fun e => (e.1, if isSensitive e.1 then mark else redactAt (depth + 1) e.2) := by
  induction entries with
  | nil => rfl
  | cons e rest ih => rw [redactEntries, ih, List.map_cons]

theorem redactItems_eq_map (depth : Nat) (items : List Value) :
    redactItems depth items = items.map (redactAt (depth + 1)) := by
  induction items with
  | nil => rfl
  | cons v rest ih => rw [redactItems, ih, List.map_cons]

/-- Below the depth down to which is looked nothing is replaced. -/
theorem redactAt_of_lt (h : maxDepth < depth) (v : Value) : redactAt depth v = v := by
  cases v <;> simp [redactAt, h]

/-- A value is replaced only as a part of another. -/
theorem outline_redactAt (depth : Nat) (v : Value) : outline (redactAt depth v) = outline v := by
  by_cases h : maxDepth < depth
  · rw [redactAt_of_lt h]
  · cases v <;> simp [redactAt, outline, h, redactEntries_eq_map, redactItems_eq_map, Function.comp_def]

/-- A step leads to what it led to before, with the mark in its place under a sensitive key. -/
theorem leads_redactAt_iff (h : depth ≤ maxDepth) {s : Step} :
    s.Leads (redactAt depth v) y ↔
      ∃ w, s.Leads v w ∧ y = if s.isSensitive then mark else redactAt (depth + 1) w := by
  have hopen : ¬ maxDepth < depth := Nat.not_lt.mpr h
  constructor
  · intro hy
    cases v with
    | dict entries =>
        rw [redactAt, if_neg hopen, redactEntries_eq_map] at hy
        cases hy with
        | entry hplace =>
            rw [List.getElem?_map, Option.map_eq_some_iff] at hplace
            obtain ⟨⟨key, w⟩, hentry, hsame⟩ := hplace
            obtain ⟨rfl, rfl⟩ := Prod.mk.inj hsame
            exact ⟨w, .entry hentry, rfl⟩
    | list items =>
        rw [redactAt, if_neg hopen, redactItems_eq_map] at hy
        cases hy with
        | item hplace =>
            rw [List.getElem?_map, Option.map_eq_some_iff] at hplace
            obtain ⟨w, hitem, rfl⟩ := hplace
            exact ⟨w, .item hitem, rfl⟩
    | _ => cases hy
  · rintro ⟨w, hw, rfl⟩
    cases hw with
    | entry hentry =>
        rw [redactAt, if_neg hopen, redactEntries_eq_map, Step.leads_entry_iff, List.getElem?_map, hentry]
        rfl
    | item hitem =>
        rw [redactAt, if_neg hopen, redactItems_eq_map, Step.leads_item_iff, List.getElem?_map, hitem]
        rfl

/-! ### The whole way -/

/-- Along a way that meets no sensitive key as far as is looked stands what stood there before, without what must not
be seen in it. -/
theorem standsAt_redactAt_iff (depth : Nat) {way : List Step}
    (hclear : ∀ s ∈ way.take (maxDepth + 1 - depth), s.isSensitive = false) :
    StandsAt way (redactAt depth v) y ↔ ∃ x, StandsAt way v x ∧ y = redactAt (depth + way.length) x := by
  induction way generalizing depth v with
  | nil => simp [StandsAt]
  | cons s way ih =>
      by_cases h : depth ≤ maxDepth
      · have hroom : maxDepth + 1 - depth = maxDepth + 1 - (depth + 1) + 1 := by omega
        have hlength : depth + (s :: way).length = depth + 1 + way.length := by
          rw [List.length_cons]
          omega
        rw [hroom, List.take_succ_cons, List.forall_mem_cons] at hclear
        obtain ⟨hplain, hrest⟩ := hclear
        simp only [StandsAt, leads_redactAt_iff h, hplain, Bool.false_eq_true, ↓reduceIte, hlength]
        constructor
        · rintro ⟨_, ⟨w, hw, rfl⟩, hy⟩
          obtain ⟨x, hx, rfl⟩ := (ih _ hrest).mp hy
          exact ⟨x, ⟨w, hw, hx⟩, rfl⟩
        · rintro ⟨x, ⟨w, hw, hx⟩, rfl⟩
          exact ⟨_, ⟨w, hw, rfl⟩, (ih _ hrest).mpr ⟨x, hx, rfl⟩⟩
      · have hdeep : maxDepth < depth := Nat.lt_of_not_le h
        rw [redactAt_of_lt hdeep]
        simp only [redactAt_of_lt (Nat.lt_of_lt_of_le hdeep (Nat.le_add_right depth _)), exists_eq_right']

/-- Along a way that meets a sensitive key as far as is looked stands nothing but the mark. -/
theorem eq_mark_of_standsAt (depth : Nat) {way : List Step} {s : Step} (hs : s ∈ way.take (maxDepth + 1 - depth))
    (hsensitive : s.isSensitive = true) (hy : StandsAt way (redactAt depth v) y) : y = mark := by
  induction way generalizing depth v with
  | nil => simp at hs
  | cons t way ih =>
      have h : depth ≤ maxDepth := by
        refine Nat.le_of_not_lt fun hdeep => ?_
        have hnone : maxDepth + 1 - depth = 0 := by omega
        simp [hnone] at hs
      have hroom : maxDepth + 1 - depth = maxDepth + 1 - (depth + 1) + 1 := by omega
      rw [hroom, List.take_succ_cons, List.mem_cons] at hs
      obtain ⟨_, hlead, hrest⟩ := hy
      obtain ⟨w, -, rfl⟩ := (leads_redactAt_iff h).mp hlead
      cases ht : t.isSensitive with
      | true =>
          rw [ht, if_pos rfl] at hrest
          exact eq_mark_of_standsAt_mark hrest
      | false =>
          rw [ht, if_neg Bool.false_ne_true] at hrest
          rcases hs with rfl | hlater
          · exact absurd hsensitive (Bool.eq_false_iff.mp ht)
          · exact ih _ hlater hrest

/-- Whether a way meets no sensitive key as far as is looked. -/
def IsClear (way : List Step) : Prop := ∀ s ∈ way.take (maxDepth + 1), s.isSensitive = false

instance (way : List Step) : Decidable (IsClear way) := inferInstanceAs (Decidable (∀ _ ∈ _, _))

/-- Of a value is shown nothing but the mark under a sensitive key, wherever a dictionary is reached by no more steps
than are looked down. Along every way that meets no sensitive key so far is shown what stands there, and nothing else:
the same scalars, dictionaries with the same keys and lists of the same length. What is reached by more steps than are
looked down is shown with all that stands in it, whatever its keys. -/
theorem redact_hides_to_depth (v : Value) :
    (∀ (way : List Step) (place : Nat) (key y : Value), way.length ≤ maxDepth → isSensitive key = true →
      StandsAt (way ++ [.entry place key]) (redact v) y → y = mark) ∧
    (∀ way, IsClear way → ∀ seen, (∃ y, StandsAt way (redact v) y ∧ outline y = seen) ↔
      ∃ x, StandsAt way v x ∧ outline x = seen) ∧
    ∀ way, IsClear way → maxDepth < way.length → ∀ x, StandsAt way (redact v) x ↔ StandsAt way v x := by
  refine ⟨fun way place key y hdepth hkey hy => ?_, fun way hclear seen => ?_, fun way hclear hdeep x => ?_⟩
  · have hlooked : Step.entry place key ∈ (way ++ [Step.entry place key]).take (maxDepth + 1) := by
      rw [List.take_of_length_le (by simpa using hdepth)]
      exact List.mem_append_right _ (List.mem_singleton_self _)
    exact eq_mark_of_standsAt 0 hlooked hkey hy
  · simp only [redact, standsAt_redactAt_iff 0 hclear]
    constructor
    · rintro ⟨_, ⟨x, hx, rfl⟩, hseen⟩
      exact ⟨x, hx, by rw [← hseen, outline_redactAt]⟩
    · rintro ⟨x, hx, hseen⟩
      exact ⟨_, ⟨x, hx, rfl⟩, by rw [outline_redactAt, hseen]⟩
  · rw [redact, standsAt_redactAt_iff 0 hclear]
    simp only [redactAt_of_lt (Nat.lt_of_lt_of_le hdeep (Nat.le_add_left _ 0)), exists_eq_right']

/-- What is noted of an order: the user, a header that is near, and a token that is reached by seven steps. -/
def orderEvent : Value :=
  .dict [(.text "user", .text "ada"), (.text "headers", .dict [(.text "Authorization", .text "Bearer 7f3a")]),
    (.text "request", ["body", "order", "payment", "gateway", "auth"].foldr
      (fun key v => .dict [(.text key, v)]) (.dict [(.text "token", .text "7f3a")]))]

/-- The way to what the token stands in. -/
def wayToAuth : List Step :=
  .entry 2 (.text "request") :: ["body", "order", "payment", "gateway", "auth"].map fun key => .entry 0 (.text key)

/-- Of an order the header is hidden, the user is shown, and what is reached by six steps is shown as it is. -/
theorem redact_hides_to_depth_order :
    (∃ y, StandsAt [.entry 1 (.text "headers"), .entry 0 (.text "Authorization")] (redact orderEvent) y ∧ y = mark) ∧
      (∃ y, StandsAt [.entry 0 (.text "user")] (redact orderEvent) y ∧ outline y = .text "ada") ∧
      StandsAt wayToAuth (redact orderEvent) (.dict [(.text "token", .text "7f3a")]) := by
  obtain ⟨hmark, hseen, hdeep⟩ := redact_hides_to_depth orderEvent
  refine ⟨?_, ?_, ?_⟩
  · have hthere : StandsAt [.entry 1 (.text "headers"), .entry 0 (.text "Authorization")] (redact orderEvent) mark :=
      ⟨_, .entry rfl, _, .entry rfl, rfl⟩
    exact ⟨_, hthere, hmark [.entry 1 (.text "headers")] 0 (.text "Authorization") _ (by decide) (by decide +kernel)
      hthere⟩
  · exact (hseen [.entry 0 (.text "user")] (by decide +kernel) (.text "ada")).mpr ⟨_, ⟨_, .entry rfl, rfl⟩, rfl⟩
  · refine (hdeep wayToAuth (by decide +kernel) (by decide) _).mpr ?_
    exact ⟨_, .entry rfl, _, .entry rfl, _, .entry rfl, _, .entry rfl, _, .entry rfl, _, .entry rfl, rfl⟩

/-- The token of an order is shown: it stands under a sensitive key, but is reached by more steps than are looked
down. -/
theorem redact_shows_deep_token :
    isSensitive (.text "token") = true ∧
      StandsAt (wayToAuth ++ [.entry 0 (.text "token")]) (redact orderEvent) (.text "7f3a") ∧
      ¬ ∀ (v : Value) (way : List Step) (place : Nat) (key y : Value), isSensitive key = true →
        StandsAt (way ++ [.entry place key]) (redact v) y → y = mark := by
  have htoken : isSensitive (.text "token") = true := by decide +kernel
  have hshown : StandsAt (wayToAuth ++ [.entry 0 (.text "token")]) (redact orderEvent) (.text "7f3a") := by
    refine (standsAt_redactAt_iff 0 (by decide +kernel)).mpr ⟨.text "7f3a", ?_, rfl⟩
    exact ⟨_, .entry rfl, _, .entry rfl, _, .entry rfl, _, .entry rfl, _, .entry rfl, _, .entry rfl, _, .entry rfl, rfl⟩
  exact ⟨htoken, hshown, fun hall => absurd (Value.text.inj (hall _ _ _ _ _ htoken hshown)) (by decide)⟩

/-! ### Lines -/

theorem redact_dict (entries : List (Value × Value)) :
    redact (.dict entries) = .dict (entries.map fun e => (e.1, if isSensitive e.1 then mark else redactAt 1 e.2)) := by
  rw [redact, redactAt, if_neg (Nat.not_lt_zero maxDepth), redactEntries_eq_map]

/-- A line of a journal has nothing but the mark under its sensitive keys, whatever the context and the particulars
are. -/
theorem exists_lineOf_eq_dict (context : List (String × Value)) (logger : String) (n : Notice) :
    ∃ entries, Journal.lineOf context logger n = .dict entries ∧
      ∀ key v, (key, v) ∈ entries → isSensitive key = true → v = mark := by
  unfold Journal.lineOf
  dsimp only
  generalize List.map _ _ = told
  rw [redact_dict]
  refine ⟨_, rfl, fun key v hentry hkey => ?_⟩
  obtain ⟨_, hredacted, hshown⟩ := List.mem_map.mp hentry
  obtain ⟨e, -, rfl⟩ := List.mem_map.mp hredacted
  obtain ⟨rfl, rfl⟩ := Prod.mk.inj hshown
  dsimp only at hkey ⊢
  rw [if_pos hkey]
  rfl

end Intake.Redaction
