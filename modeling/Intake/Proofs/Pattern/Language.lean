import Intake.Pattern.Matcher
import Mathlib.Data.List.Flatten

/-!
The language of a pattern. A pattern of characters, rows, alternatives and repetitions spells words. Trying it
at a place succeeds exactly if the text goes on with one of its words and what is left to match succeeds behind
that word: going back finds every way to match, and finds no other.
-/

namespace Intake.Pattern

/-- Whether a pattern is made of characters, rows, alternatives and repetitions that give back what they took. -/
def Expr.isRegular : Expr → Bool
  | .empty | .literal _ | .any | .set _ _ => true
  | .seq first second | .either first second => first.isRegular && second.isRegular
  | .scoped _ body | .repeated _ _ .most body => body.isRegular
  | _ => false

/-- The words that a regular pattern spells. -/
def Expr.Spells : Expr → Modes → List Char → Prop
  | .empty, _, w => w = []
  | .literal code, modes, w => ∃ c, w = [c] ∧ (codesOf modes c).contains code = true
  | .any, modes, w => ∃ c, w = [c] ∧ (modes.dotAll || c != '\n') = true
  | .set negated items, modes, w => ∃ c, w = [c] ∧ (items.any (·.holds modes c) != negated) = true
  | .seq first second, modes, w => ∃ u v, w = u ++ v ∧ first.Spells modes u ∧ second.Spells modes v
  | .either first second, modes, w => first.Spells modes w ∨ second.Spells modes w
  | .scoped change body, modes, w => body.Spells (modes.change change) w
  | .repeated least most _ body, modes, w => ∃ rounds : List (List Char), w = rounds.flatten ∧
      least ≤ rounds.length ∧ (∀ n ∈ most, rounds.length ≤ max least n) ∧ ∀ u ∈ rounds, body.Spells modes u
  | _, _, _ => False

/-! ### Words of compound patterns -/

section words

variable {e : Expr} {modes : Modes} {w : List Char}

theorem spells_ofItems_nil : (Expr.ofItems []).Spells modes w ↔ w = [] := Iff.rfl

theorem spells_ofItems_cons {items : List Expr} :
    (Expr.ofItems (e :: items)).Spells modes w ↔
      ∃ u v, w = u ++ v ∧ e.Spells modes u ∧ (Expr.ofItems items).Spells modes v := Iff.rfl

theorem spells_ofItems_singleton : (Expr.ofItems [e]).Spells modes w ↔ e.Spells modes w := by
  simp [spells_ofItems_cons, spells_ofItems_nil]

theorem spells_ofItems_append {items more : List Expr} :
    (Expr.ofItems (items ++ more)).Spells modes w ↔
      ∃ u v, w = u ++ v ∧ (Expr.ofItems items).Spells modes u ∧ (Expr.ofItems more).Spells modes v := by
  induction items generalizing w with
  | nil =>
      constructor
      · intro hw
        exact ⟨[], w, rfl, rfl, hw⟩
      · rintro ⟨_, v, rfl, rfl, hv⟩
        exact hv
  | cons first items ih =>
      simp only [List.cons_append, spells_ofItems_cons, ih]
      constructor
      · rintro ⟨u, _, rfl, hu, v, t, rfl, hv, ht⟩
        exact ⟨u ++ v, t, (List.append_assoc u v t).symm, ⟨u, v, rfl, hu, hv⟩, ht⟩
      · rintro ⟨_, t, rfl, ⟨u, v, rfl, hu, hv⟩, ht⟩
        exact ⟨u, v ++ t, List.append_assoc u v t, hu, v, t, rfl, hv, ht⟩

/-- A repetition that may be made once spells nothing, or what is repeated. -/
theorem spells_repeated_once {greed : Greed} :
    (Expr.repeated 0 (some 1) greed e).Spells modes w ↔ w = [] ∨ e.Spells modes w := by
  constructor
  · rintro ⟨rounds, rfl, -, hfew, hwords⟩
    have hone : rounds.length ≤ 1 := by simpa using hfew 1 rfl
    match rounds, hone with
    | [], _ => exact Or.inl rfl
    | [u], _ => exact Or.inr (by simpa using hwords u List.mem_cons_self)
  · rintro (rfl | hw)
    · exact ⟨[], rfl, by simp, by simp, nofun⟩
    · exact ⟨[w], by simp, by simp, by simp, by simpa using hw⟩

/-- What is repeated without a bound spells any number of its words. -/
theorem spells_repeated_any {greed : Greed} :
    (Expr.repeated 0 none greed e).Spells modes w ↔
      ∃ rounds : List (List Char), w = rounds.flatten ∧ ∀ u ∈ rounds, e.Spells modes u := by
  simp [Expr.Spells]

/-- Rounds of single characters are the characters. -/
theorem spells_repeated_of_one {test : Char → Prop} {least : Nat} {most : Option Nat} {greed : Greed}
    (he : ∀ w, e.Spells modes w ↔ ∃ c, w = [c] ∧ test c) :
    (Expr.repeated least most greed e).Spells modes w ↔
      least ≤ w.length ∧ (∀ n ∈ most, w.length ≤ max least n) ∧ ∀ c ∈ w, test c := by
  constructor
  · rintro ⟨rounds, rfl, hleast, hfew, hwords⟩
    simp only [he] at hwords
    have hsingle : rounds.flatten.length = rounds.length ∧ ∀ c ∈ rounds.flatten, test c := by
      clear hleast hfew
      induction rounds with
      | nil => exact ⟨rfl, nofun⟩
      | cons u rounds ih =>
          obtain ⟨⟨c, rfl, hc⟩, hothers⟩ := List.forall_mem_cons.mp hwords
          obtain ⟨hlength, htests⟩ := ih hothers
          refine ⟨by simpa using hlength, ?_⟩
          rw [List.flatten_cons, List.singleton_append]
          exact List.forall_mem_cons.mpr ⟨hc, htests⟩
    rw [hsingle.1]
    exact ⟨hleast, hfew, hsingle.2⟩
  · rintro ⟨hleast, hfew, htests⟩
    refine ⟨w.map fun c => [c], ?_, by simpa using hleast, by simpa using hfew, ?_⟩
    · exact (List.flatMap_singleton' w).symm.trans (List.flatMap_def ..)
    · intro u hu
      obtain ⟨c, hc, rfl⟩ := List.mem_map.mp hu
      exact (he [c]).mpr ⟨c, rfl, htests c hc⟩

end words

/-! ### Trying the words -/

namespace Cursor

/-- The place so many characters on. -/
def advance (s : Cursor) (count : Nat) : Cursor :=
  { s with
    before := (s.after.take count).reverse ++ s.before
    after := s.after.drop count
    position := s.position + count }

@[simp] theorem after_advance (s : Cursor) (count : Nat) : (s.advance count).after = s.after.drop count := rfl

@[simp] theorem position_advance (s : Cursor) (count : Nat) :
    (s.advance count).position = s.position + count := rfl

@[simp] theorem advance_zero (s : Cursor) : s.advance 0 = s := by simp [advance]

theorem advance_add (s : Cursor) (first second : Nat) :
    (s.advance first).advance second = s.advance (first + second) := by
  simp [advance, List.take_add, Nat.add_assoc]

end Cursor

/-- Whether a matcher tries the words of a language: with whatever is left to match, it succeeds exactly if the
text goes on with such a word and what is left succeeds behind it. -/
def Recognizes (tries : Matcher) (language : List Char → Prop) : Prop :=
  ∀ s rest, (tries s rest).isSome = true ↔
    ∃ w, w <+: s.after ∧ language w ∧ (rest (s.advance w.length)).isSome = true

theorem recognizes_nothing : Recognizes (fun s rest => rest s) (· = []) := by
  intro s rest
  constructor
  · intro hfound
    exact ⟨[], List.nil_prefix, rfl, by simpa using hfound⟩
  · rintro ⟨_, -, rfl, hfound⟩
    simpa using hfound

/-- A character is tried alone. -/
theorem recognizes_matchOne (test : Char → Bool) :
    Recognizes (matchOne test) fun w => ∃ c, w = [c] ∧ test c = true := by
  intro s rest
  unfold matchOne Cursor.next?
  constructor
  · intro hfound
    cases hafter : s.after with
    | nil => simp [hafter] at hfound
    | cons c tail =>
        simp only [hafter] at hfound
        split at hfound
        · rename_i hc
          refine ⟨[c], ⟨tail, rfl⟩, ⟨c, rfl, hc⟩, ?_⟩
          simpa [Cursor.advance, hafter] using hfound
        · cases hfound
  · rintro ⟨_, ⟨tail, htail⟩, ⟨c, rfl, hc⟩, hfound⟩
    simpa [← htail, hc, Cursor.advance] using hfound

section

variable {first second : Matcher} {one other : List Char → Prop}

/-- One after the other. -/
theorem Recognizes.seq (hfirst : Recognizes first one) (hsecond : Recognizes second other) :
    Recognizes (fun s rest => first s fun t => second t rest) fun w =>
      ∃ u v, w = u ++ v ∧ one u ∧ other v := by
  intro s rest
  simp only [hfirst s, hsecond _ rest]
  constructor
  · rintro ⟨u, ⟨tail, htail⟩, hu, v, hv, hother, hfound⟩
    rw [Cursor.after_advance, ← htail, List.drop_left] at hv
    refine ⟨u ++ v, ?_, ⟨u, v, rfl, hu, hother⟩, ?_⟩
    · rw [← htail]
      exact (List.prefix_append_right_inj u).mpr hv
    · rwa [List.length_append, ← Cursor.advance_add]
  · rintro ⟨_, hstart, ⟨u, v, rfl, hu, hv⟩, hfound⟩
    obtain ⟨tail, htail⟩ := hstart
    rw [List.length_append, ← Cursor.advance_add] at hfound
    refine ⟨u, ⟨v ++ tail, by rw [← htail, List.append_assoc]⟩, hu, v, ?_, hv, hfound⟩
    rw [Cursor.after_advance, ← htail, List.append_assoc, List.drop_left]
    exact List.prefix_append v tail

/-- One or, failing that, the other. -/
theorem Recognizes.either (hfirst : Recognizes first one) (hsecond : Recognizes second other) :
    Recognizes (fun s rest => match first s rest with
      | some found => some found
      | none => second s rest) fun w => one w ∨ other w := by
  intro s rest
  have hchoice : (match first s rest with
      | some found => some found
      | none => second s rest).isSome = true ↔ (first s rest).isSome = true ∨ (second s rest).isSome = true := by
    cases first s rest <;> simp
  rw [hchoice, hfirst s rest, hsecond s rest]
  constructor
  · rintro (⟨w, hstart, hw, hfound⟩ | ⟨w, hstart, hw, hfound⟩)
    · exact ⟨w, hstart, Or.inl hw, hfound⟩
    · exact ⟨w, hstart, Or.inr hw, hfound⟩
  · rintro ⟨w, hstart, hw | hw, hfound⟩
    · exact Or.inl ⟨w, hstart, hw, hfound⟩
    · exact Or.inr ⟨w, hstart, hw, hfound⟩

end

/-! ### Rounds -/

/-- The first of some rounds, and the others behind it. -/
theorem prefix_flatten_cons {w text : List Char} {rounds : List (List Char)} :
    (w :: rounds).flatten <+: text ↔ w <+: text ∧ rounds.flatten <+: text.drop w.length := by
  rw [List.flatten_cons]
  constructor
  · rintro ⟨tail, rfl⟩
    refine ⟨⟨rounds.flatten ++ tail, by simp⟩, ?_⟩
    rw [List.append_assoc, List.drop_left]
    exact List.prefix_append _ tail
  · rintro ⟨⟨tail, rfl⟩, hrest⟩
    rw [List.drop_left] at hrest
    exact (List.prefix_append_right_inj w).mpr hrest

/-- Rounds of words to make at a place where `round` of them have been made: the text goes on with them, there
are enough with them and not too many, and what is left to match succeeds behind them. -/
structure Rounds (language : List Char → Prop) (least : Nat) (most : Option Nat) (rest : Rest) (round : Nat)
    (s : Cursor) (rounds : List (List Char)) : Prop where
  fits : rounds.flatten <+: s.after
  enough : least ≤ round + rounds.length
  words : ∀ w ∈ rounds, language w
  few : rounds ≠ [] → ∀ n ∈ most, round + rounds.length ≤ max least n
  goesOn : (rest (s.advance rounds.flatten.length)).isSome = true

section rounds

variable {body : Matcher} {language : List Char → Prop} {least round : Nat} {most : Option Nat} {rest : Rest}
  {s : Cursor} {w : List Char} {rounds : List (List Char)}

theorem rounds_nil : Rounds language least most rest round s [] ↔
    least ≤ round ∧ (rest s).isSome = true := by
  constructor
  · intro h
    exact ⟨h.enough, by simpa using h.goesOn⟩
  · rintro ⟨hleast, hrest⟩
    exact ⟨by simp, hleast, nofun, by simp, by simpa using hrest⟩

/-- Making the first round leaves the others to make. -/
theorem rounds_cons : Rounds language least most rest round s (w :: rounds) ↔
    (w <+: s.after ∧ language w ∧ ∀ n ∈ most, round + 1 ≤ max least n) ∧
      Rounds language least most rest (round + 1) (s.advance w.length) rounds := by
  constructor
  · intro h
    obtain ⟨hfirst, hothers⟩ := prefix_flatten_cons.mp h.fits
    have hfew := h.few (List.cons_ne_nil w rounds)
    have hgoes := h.goesOn
    rw [List.flatten_cons, List.length_append, ← Cursor.advance_add] at hgoes
    have henough := h.enough
    simp only [List.length_cons] at hfew henough
    refine ⟨⟨hfirst, h.words w List.mem_cons_self, fun n hn => ?_⟩, hothers, by omega,
      fun u hu => h.words u (List.mem_cons_of_mem w hu), fun _ n hn => ?_, hgoes⟩
    all_goals
      have hn := hfew n hn
      omega
  · rintro ⟨⟨hfirst, hw, hone⟩, h⟩
    have henough := h.enough
    refine ⟨prefix_flatten_cons.mpr ⟨hfirst, h.fits⟩, ?_, ?_, fun _ n hn => ?_, ?_⟩
    · simp only [List.length_cons]
      omega
    · simpa [hw] using h.words
    · have hn' := hone n hn
      rcases rounds.eq_nil_or_concat with rfl | hsome
      · exact hn'
      · have hfew := h.few (by rintro rfl; simp at hsome) n hn
        simp only [List.length_cons]
        omega
    · rw [List.flatten_cons, List.length_append, ← Cursor.advance_add]
      exact h.goesOn

/-- Once there are enough rounds, those without characters can be left out. -/
theorem Rounds.filter (h : Rounds language least most rest round s rounds) (henough : least ≤ round) :
    Rounds language least most rest round s (rounds.filter fun w => !w.isEmpty) := by
  have hshorter := List.length_filter_le (fun w => !w.isEmpty) rounds
  refine ⟨?_, by omega, fun w hw => h.words w (List.mem_filter.mp hw).1, fun hsome n hn => ?_, ?_⟩
  · rw [List.flatten_filter_not_isEmpty]
    exact h.fits
  · have hfew := h.few (by rintro rfl; exact hsome rfl) n hn
    omega
  · rw [List.flatten_filter_not_isEmpty]
    exact h.goesOn

/-- A repetition that succeeds has made rounds of words. -/
theorem exists_rounds_of_repeatMost (hbody : Recognizes body language) (fuel : Nat) (last : Option Nat)
    (hfuel : least ≤ round + fuel)
    (hfound : (repeatMost body least most fuel round last s rest).isSome = true) :
    ∃ rounds, Rounds language least most rest round s rounds := by
  induction fuel generalizing round last s with
  | zero => exact ⟨[], rounds_nil.mpr ⟨hfuel, hfound⟩⟩
  | succ fuel ih =>
      have hmore : ∀ last', (∀ n ∈ most, round + 1 ≤ max least n) →
          (body s fun t => repeatMost body least most fuel (round + 1) last' t rest).isSome = true →
          ∃ rounds, Rounds language least most rest round s rounds := by
        intro last' hfew hround
        obtain ⟨w, hstart, hw, hlater⟩ := (hbody s _).mp hround
        obtain ⟨rounds, hrounds⟩ := ih last' (by omega) hlater
        exact ⟨w :: rounds, rounds_cons.mpr ⟨⟨hstart, hw, hfew⟩, hrounds⟩⟩
      rw [repeatMost] at hfound
      split at hfound
      · exact hmore _ (fun n _ => by omega) hfound
      · rename_i henough
        have hstop : (rest s).isSome = true → ∃ rounds, Rounds language least most rest round s rounds :=
          fun hrest => ⟨[], rounds_nil.mpr ⟨by omega, hrest⟩⟩
        split at hfound
        · rename_i hgoes
          have hfew : ∀ n ∈ most, round + 1 ≤ max least n := by
            rintro n rfl
            have hlt : round < n := by simpa using (Bool.and_eq_true_iff.mp hgoes).1
            omega
          split at hfound
          · rename_i found hround
            exact hmore _ hfew (by rw [hround]; rfl)
          · exact hstop hfound
        · exact hstop hfound

/-- Once there are enough rounds, there are none left to make or a first one with characters. -/
theorem Rounds.exists_first (h : Rounds language least most rest round s rounds) (henough : least ≤ round) :
    (rest s).isSome = true ∨ ∃ w others, w ≠ [] ∧ Rounds language least most rest round s (w :: others) := by
  have hkept := h.filter henough
  cases hrounds : rounds.filter (fun w => !w.isEmpty) with
  | nil =>
      rw [hrounds] at hkept
      exact Or.inl (rounds_nil.mp hkept).2
  | cons w others =>
      have hw : w ∈ rounds.filter fun w => !w.isEmpty := hrounds ▸ List.mem_cons_self
      rw [hrounds] at hkept
      exact Or.inr ⟨w, others, by simpa using (List.mem_filter.mp hw).2, hkept⟩

/-- Where there are enough rounds and one more to make, the test for one more holds, if the last did not end here. -/
theorem Rounds.mayGoOn (h : Rounds language least most rest round s (w :: rounds)) (henough : least ≤ round)
    {last : Option Nat} (hlast : last ≠ some s.position) :
    (most.all (round < ·) && last != some s.position) = true := by
  rw [Bool.and_eq_true]
  refine ⟨?_, by simpa using hlast⟩
  cases most with
  | none => rfl
  | some n =>
      have hn := (rounds_cons.mp h).1.2.2 n rfl
      simp only [Option.all_some, decide_eq_true_eq]
      omega

/-- A repetition succeeds if there are rounds of words to make. Once there are enough, each of them takes at
least a character, so there is fuel for all. -/
theorem isSome_repeatMost (hbody : Recognizes body language) (fuel : Nat) (last : Option Nat)
    (hfuel : least - round + s.after.length < fuel) (hlast : last ≠ some s.position)
    (h : Rounds language least most rest round s rounds) :
    (repeatMost body least most fuel round last s rest).isSome = true := by
  induction fuel generalizing round last s rounds with
  | zero => omega
  | succ fuel ih =>
      have hmore : ∀ last' w others, Rounds language least most rest round s (w :: others) →
          (round < least ∨ w ≠ []) → last' ≠ some (s.position + w.length) →
          (body s fun t => repeatMost body least most fuel (round + 1) last' t rest).isSome = true := by
        intro last' w others h htakes hlast'
        obtain ⟨⟨hfirst, hw, -⟩, hothers⟩ := rounds_cons.mp h
        refine (hbody s _).mpr ⟨w, hfirst, hw, ih last' ?_ hlast' hothers⟩
        have hshorter := hfirst.length_le
        rw [Cursor.after_advance, List.length_drop]
        rcases htakes with hbelow | hsome
        · omega
        · have htaken := List.length_pos_iff.mpr hsome
          omega
      rw [repeatMost]
      split
      · rename_i hbelow
        cases rounds with
        | nil =>
            have hnone := (rounds_nil.mp h).1
            omega
        | cons w others => exact hmore none w others h (Or.inl hbelow) nofun
      · rename_i henough
        have henough : least ≤ round := Nat.le_of_not_lt henough
        rcases h.exists_first henough with hrest | ⟨w, others, hsome, hkept⟩
        · split
          · split
            · rfl
            · exact hrest
          · exact hrest
        · have hmoved : some s.position ≠ some (s.position + w.length) := by simpa using hsome
          have hround := hmore (some s.position) w others hkept (Or.inr hsome) hmoved
          rw [if_pos (hkept.mayGoOn henough hlast)]
          split
          · rfl
          · rename_i hfailed
            rw [hfailed] at hround
            cases hround

end rounds

/-- Trying a regular pattern tries the words that it spells. -/
theorem recognizes_run {e : Expr} (he : e.isRegular = true) (modes : Modes) :
    Recognizes (e.run modes) (e.Spells modes) := by
  induction e generalizing modes with
  | empty => exact recognizes_nothing
  | literal code => exact recognizes_matchOne _
  | any => exact recognizes_matchOne _
  | set negated items => exact recognizes_matchOne _
  | seq first second ihfirst ihsecond =>
      obtain ⟨hfirst, hsecond⟩ := Bool.and_eq_true_iff.mp he
      exact (ihfirst hfirst modes).seq (ihsecond hsecond modes)
  | either first second ihfirst ihsecond =>
      obtain ⟨hfirst, hsecond⟩ := Bool.and_eq_true_iff.mp he
      exact (ihfirst hfirst modes).either (ihsecond hsecond modes)
  | «scoped» change body ih => exact ih he _
  | repeated least most greed body ih =>
      cases greed with
      | most =>
          have hbody := ih he modes
          intro s rest
          constructor
          · intro hfound
            obtain ⟨rounds, hrounds⟩ :=
              exists_rounds_of_repeatMost hbody (least + s.after.length + 2) none (by omega) hfound
            refine ⟨rounds.flatten, hrounds.fits, ⟨rounds, rfl, by simpa using hrounds.enough, fun n hn => ?_,
              hrounds.words⟩, hrounds.goesOn⟩
            rcases rounds.eq_nil_or_concat with rfl | hsome
            · simp
            · simpa using hrounds.few (by rintro rfl; simp at hsome) n hn
          · rintro ⟨_, hstart, ⟨rounds, rfl, hleast, hmost, hwords⟩, hrest⟩
            have hrounds : Rounds (body.Spells modes) least most rest 0 s rounds :=
              ⟨hstart, by simpa using hleast, hwords, fun _ n hn => by simpa using hmost n hn, hrest⟩
            exact isSome_repeatMost hbody _ none (by omega) nofun hrounds
      | least | keepsAll => cases he
  | _ => cases he

/-- A regular pattern matches the texts that it spells. -/
theorem matchesWhole_iff {p : Compiled} (hp : p.expr.isRegular = true) (s : String) :
    p.matchesWhole s = true ↔ p.expr.Spells p.modes s.toList := by
  rw [Compiled.matchesWhole, recognizes_run hp p.modes]
  constructor
  · rintro ⟨w, ⟨tail, htail⟩, hw, hend⟩
    rw [show (Cursor.atStart s.toList).after = s.toList from rfl] at htail
    have hnothing : tail = [] := by
      split at hend
      · rename_i hempty
        rw [List.isEmpty_iff] at hempty
        simpa [Cursor.advance, Cursor.atStart, ← htail] using hempty
      · cases hend
    rwa [← htail, hnothing, List.append_nil]
  · intro hw
    refine ⟨s.toList, List.prefix_refl _, hw, ?_⟩
    simp [Cursor.advance, Cursor.atStart]

end Intake.Pattern
