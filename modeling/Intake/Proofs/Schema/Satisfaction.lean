import Intake.Schema.Constraint
import Intake.Validation.Predicate

/-!
What it means that a value keeps a schema, and what each single rule contributes to it. Rules of
different names say different things, so a schema that rules were put into one after another is kept
exactly if the schema of each rule by itself is.
-/

namespace Intake

namespace Value.Size

/-- A finite number as a fraction. -/
def fraction? : Value.Size → Option (Int × Nat)
  | .whole i => some (i, 1)
  | .real x => x.fraction?

/-- Whether a number is a multiple of another. -/
def isMultipleOf (n step : Value.Size) : Bool :=
  match n.fraction?, step.fraction? with
  | some (a, b), some (c, d) => a * d % (c * b) == 0
  | _, _ => false

theorem isMultipleOf_whole (i step : Int) : isMultipleOf (.whole i) (.whole step) = decide (i % step = 0) := by
  change (i * 1 % (step * 1) == 0) = _
  rw [Int.mul_one, Int.mul_one]
  rfl

end Value.Size

/-- Whether a pattern occurs in a text; one that cannot be compiled occurs nowhere. -/
def Pattern.occurs (pattern s : String) : Bool :=
  match Pattern.compile .none pattern with
  | .ok compiled => compiled.occursIn s
  | .error _ => false

namespace Facts

/-- Whether a number lies within the bounds. -/
def admitsNumber (f : Facts) (n : Value.Size) : Bool :=
  f.minimum.all (fun least => !Json.sizeLt n least)
    && f.maximum.all (fun most => !Json.sizeLt most n)
    && f.exclusiveMinimum.all (fun below => Json.sizeLt below n)
    && f.exclusiveMaximum.all (fun above => Json.sizeLt n above)
    && f.multipleOf.all n.isMultipleOf

/-- Whether a text of a length has the pattern and the format. -/
def admitsText (f : Facts) (length : Nat) (s : String) : Bool :=
  f.minLength.all (fun least : Int => decide (least ≤ length))
    && f.maxLength.all (fun most : Int => decide ((length : Int) ≤ most))
    && f.pattern.all (fun pattern => Pattern.occurs pattern s)
    && (f.format != some "email" || Email.accepts s)

/-- Whether a row of items is neither too short nor too long, and without repetition if that is
asked for. -/
def admitsItems (f : Facts) (items : List Value) : Bool :=
  f.minItems.all (fun least : Int => decide (least ≤ items.length))
    && f.maxItems.all (fun most : Int => decide ((items.length : Int) ≤ most))
    && (f.uniqueItems != some true || (Validation.allUnique [] items).toOption == some true)

/-- Whether a number of entries is neither too small nor too great. -/
def admitsEntries (f : Facts) (count : Nat) : Bool :=
  f.minProperties.all (fun least : Int => decide (least ≤ count))
    && f.maxProperties.all (fun most : Int => decide ((count : Int) ≤ most))

/-- Whether a value keeps what is said about it, what is inside left aside. -/
def admits (f : Facts) (v : Value) : Bool :=
  f.choices.all (fun choices => choices.any v.same) &&
    match v with
    | .int i => f.admitsNumber (.whole i)
    | .float x => f.admitsNumber (.real x)
    | .list items => f.admitsItems items
    | .dict entries => f.admitsEntries entries.length
    | v =>
      match Validation.length v, Validation.textOf v with
      | .ok length, .ok s => f.admitsText length s
      | _, _ => true

end Facts

namespace Schema

mutual

/-- Whether a value keeps a schema; the items of an array keep the schema of its items. -/
def admits : Schema → Value → Bool
  | .reference _, _ => true
  | .node facts _ items _, v => facts.admits v && itemsAdmit items v

def itemsAdmit : Option Schema → Value → Bool
  | some s, .list xs => xs.all fun x => admits s x
  | _, _ => true

end

/-- Whether nothing is said yet of what a rule of a name is about. -/
def silentOn (f : Facts) : String → Prop
  | "min" => f.minimum = none
  | "max" => f.maximum = none
  | "multipleOf" => f.multipleOf = none
  | "minlength" => f.minLength = none
  | "maxlength" => f.maxLength = none
  | "pattern" => f.pattern = none
  | "format" => f.format = none
  | "enum" => f.choices = none
  | "minItems" => f.minItems = none ∧ f.minProperties = none
  | "maxItems" => f.maxItems = none ∧ f.maxProperties = none
  | "uniqueItems" => f.uniqueItems = none
  | _ => True

theorem silentOn_none (name : String) : silentOn Facts.none name := by
  unfold silentOn
  split <;> simp [Facts.none]

/-- Rules of different names are kept together if each is kept by itself. -/
theorem admits_foldl {say : Facts → Rule → Facts} {v : Value} (silent : Facts → String → Prop)
    (hadd : ∀ f r, silent f r.name →
      (say f r).admits v = (f.admits v && (say Facts.none r).admits v))
    (hkeep : ∀ f r name, name ≠ r.name → silent f name → silent (say f r) name)
    {rules : List Rule} (honce : (rules.map Rule.name).Nodup) {f : Facts}
    (hsilent : ∀ r ∈ rules, silent f r.name) :
    (rules.foldl say f).admits v =
      (f.admits v && rules.all fun r => (say Facts.none r).admits v) := by
  induction rules generalizing f with
  | nil => simp
  | cons r rest ih =>
      have hhead : silent f r.name := hsilent r List.mem_cons_self
      rw [List.map_cons, List.nodup_cons] at honce
      have hrest : ∀ q ∈ rest, silent (say f r) q.name := by
        intro q hq
        have hne : q.name ≠ r.name := fun hsame =>
          honce.1 (hsame ▸ List.mem_map_of_mem hq)
        exact hkeep f r q.name hne (hsilent q (List.mem_cons_of_mem r hq))
      rw [List.foldl_cons, ih honce.2 hrest, hadd f r hhead, List.all_cons, Bool.and_assoc]

/-- The values of a kind of scalar, for the kinds whose rules schemas state in full: texts, and
integers within 64 bits. -/
def isPublishedScalar : Kind → Value → Bool
  | .string, .text _ | .string, .brokenText _ => true
  | .integer, .int i => Validation.leastInteger ≤ i && i ≤ Validation.greatestInteger
  | _, _ => false

/-- What one rule says about the scalars of a kind. -/
def sayScalar (kind : Kind) : Facts → Rule → Facts :=
  if kind == .string then textRule else numericRule kind

/-- Texts are judged by their choices, their length and their characters alone. -/
theorem admits_of_text {v : Value} (hv : isPublishedScalar .string v) :
    ∃ length s, Validation.length v = .ok length ∧ Validation.textOf v = .ok s ∧
      ∀ f : Facts, f.admits v =
        (f.choices.all (fun choices => choices.any v.same) && f.admitsText length s) := by
  cases v with
  | text s => exact ⟨_, _, rfl, rfl, fun f => rfl⟩
  | brokenText codes => exact ⟨_, _, rfl, rfl, fun f => rfl⟩
  | _ => simp [isPublishedScalar] at hv

theorem isNull_eq_false_of_isPublishedScalar {kind : Kind} {v : Value}
    (hv : isPublishedScalar kind v) : v.isNull = false := by
  cases v with
  | null => cases kind <;> simp [isPublishedScalar] at hv
  | _ => rfl

/-- The scalars with published rules are texts and integers. -/
theorem kind_of_isPublishedScalar {kind : Kind} {v : Value} (hv : isPublishedScalar kind v) :
    kind = .string ∨ kind = .integer ∧ ∃ i, v = .int i ∧ Validation.leastInteger ≤ i ∧
      i ≤ Validation.greatestInteger := by
  unfold isPublishedScalar at hv
  split at hv
  · exact Or.inl rfl
  · exact Or.inl rfl
  · simp only [Bool.and_eq_true, decide_eq_true_eq] at hv
    exact Or.inr ⟨rfl, _, rfl, hv⟩
  · simp at hv

theorem silentOn_textRule (f : Facts) (r : Rule) (name : String) (hne : name ≠ r.name)
    (hsilent : silentOn f name) : silentOn (textRule f r) name := by
  rw [textRule]
  split
  · unfold silentOn at *; split <;> simp_all
  · unfold silentOn at *; split <;> simp_all
  · unfold silentOn at *; split <;> simp_all
  · split
    · split
      · assumption
      · unfold silentOn at *; split <;> simp_all
    · assumption
  · unfold silentOn at *; split <;> simp_all
  · assumption

theorem admits_textRule {v : Value} (hv : isPublishedScalar .string v) (f : Facts) (r : Rule)
    (hsilent : silentOn f r.name) :
    (textRule f r).admits v = (f.admits v && (textRule Facts.none r).admits v) := by
  obtain ⟨length, s, -, -, hadmits⟩ := admits_of_text hv
  simp only [hadmits, Facts.admitsText]
  unfold textRule
  split
  case h_6 => simp [Facts.none]
  all_goals
    rename_i hname
    rw [hname] at hsilent
    simp only [silentOn] at hsilent
  case h_4 =>
    -- A format without a name says nothing.
    split
    · split
      · simp [Facts.none]
      · simp [Facts.none, hsilent]
        grind
    · simp [Facts.none]
  all_goals
    simp [Facts.none, hsilent]
    grind

/-- Integers start with a format of their own, which no rule about numbers touches. -/
def silentOnNumber (f : Facts) (name : String) : Prop := name = "format" ∨ silentOn f name

theorem silentOnNumber_numericRule (kind : Kind) (f : Facts) (r : Rule) (name : String)
    (hne : name ≠ r.name) (hsilent : silentOnNumber f name) :
    silentOnNumber (numericRule kind f r) name := by
  rcases hsilent with hformat | hsilent
  · exact Or.inl hformat
  · apply Or.inr
    rw [numericRule]
    split
    case h_5 => assumption
    all_goals
      unfold silentOn at *
      split <;> simp_all

theorem admits_numericRule (i : Int) (f : Facts) (r : Rule) (hsilent : silentOnNumber f r.name) :
    (numericRule .integer f r).admits (.int i) =
      (f.admits (.int i) && (numericRule .integer Facts.none r).admits (.int i)) := by
  simp only [Facts.admits, Facts.admitsNumber]
  unfold numericRule
  split
  case h_5 => simp [Facts.none]
  all_goals
    rename_i hname
    rw [hname] at hsilent
    simp only [silentOnNumber, silentOn, String.reduceEq, false_or] at hsilent
    simp [Facts.none, hsilent]
    grind

/-- The facts of a scalar under rules of different names are kept exactly if every rule is. -/
theorem admits_scalarFacts {kind : Kind} {v : Value} (hv : isPublishedScalar kind v)
    {rules : List Rule} (honce : (rules.map Rule.name).Nodup) :
    (scalarFacts kind rules).admits v =
      rules.all fun r => (sayScalar kind Facts.none r).admits v := by
  rcases kind_of_isPublishedScalar hv with rfl | ⟨rfl, i, rfl, -, -⟩
  · have hstart : (Facts.ofType "string").admits v = true := by
      obtain ⟨length, s, -, -, hadmits⟩ := admits_of_text hv
      simp [hadmits, Facts.ofType, Facts.admitsText, Facts.none]
    have hall := admits_foldl silentOn (admits_textRule hv) silentOn_textRule honce
      (f := Facts.ofType "string") fun r _ => silentOn_none r.name
    rw [hstart, Bool.true_and] at hall
    exact hall
  · have hstart : (Facts.ofFormat "integer" "int64").admits (.int i) = true := by
      simp [Facts.admits, Facts.ofFormat, Facts.ofType, Facts.admitsNumber, Facts.none]
    have hsilent : ∀ r ∈ rules, silentOnNumber (Facts.ofFormat "integer" "int64") r.name := by
      intro r _
      by_cases hformat : r.name = "format"
      · exact Or.inl hformat
      · apply Or.inr
        unfold silentOn
        split <;> simp_all [Facts.ofFormat, Facts.ofType, Facts.none]
    have hall := admits_foldl silentOnNumber (admits_numericRule i)
      (silentOnNumber_numericRule .integer) honce hsilent
    rw [hstart, Bool.true_and] at hall
    exact hall

theorem silentOn_arrayRule (f : Facts) (r : Rule) (name : String) (hne : name ≠ r.name)
    (hsilent : silentOn f name) : silentOn (arrayRule f r) name := by
  rw [arrayRule]
  split
  case h_4 => assumption
  all_goals
    unfold silentOn at *
    split <;> simp_all

theorem admits_arrayRule (items : List Value) (f : Facts) (r : Rule)
    (hsilent : silentOn f r.name) :
    (arrayRule f r).admits (.list items) =
      (f.admits (.list items) && (arrayRule Facts.none r).admits (.list items)) := by
  simp only [Facts.admits, Facts.admitsItems]
  unfold arrayRule
  split
  case h_4 => simp [Facts.none]
  all_goals
    rename_i hname
    rw [hname] at hsilent
    simp only [silentOn] at hsilent
    simp [Facts.none, hsilent]
    grind

/-- The facts of an array, its items left aside, are kept exactly if every rule is. -/
theorem admits_arrayFacts (items : List Value) {rules : List Rule}
    (honce : (rules.map Rule.name).Nodup) :
    (rules.foldl arrayRule (Facts.ofType "array")).admits (.list items) =
      rules.all fun r => (arrayRule Facts.none r).admits (.list items) := by
  have hstart : (Facts.ofType "array").admits (.list items) = true := by
    simp [Facts.admits, Facts.ofType, Facts.admitsItems, Facts.none]
  have hall := admits_foldl silentOn (admits_arrayRule items) silentOn_arrayRule honce
    (f := Facts.ofType "array") fun r _ => silentOn_none r.name
  rw [hstart, Bool.true_and] at hall
  exact hall

theorem silentOn_mapRule (f : Facts) (r : Rule) (name : String) (hne : name ≠ r.name)
    (hsilent : silentOn f name) : silentOn (mapRule f r) name := by
  rw [mapRule]
  split
  case h_3 => assumption
  all_goals
    unfold silentOn at *
    split <;> simp_all

theorem admits_mapRule (entries : List (Value × Value)) (f : Facts) (r : Rule)
    (hsilent : silentOn f r.name) :
    (mapRule f r).admits (.dict entries) =
      (f.admits (.dict entries) && (mapRule Facts.none r).admits (.dict entries)) := by
  simp only [Facts.admits, Facts.admitsEntries]
  unfold mapRule
  split
  case h_3 => simp [Facts.none]
  all_goals
    rename_i hname
    rw [hname] at hsilent
    simp only [silentOn] at hsilent
    simp [Facts.none, hsilent]
    grind

/-- The facts of a map are kept exactly if every rule is. -/
theorem admits_mapFacts (entries : List (Value × Value)) {rules : List Rule}
    (honce : (rules.map Rule.name).Nodup) :
    (rules.foldl mapRule (Facts.ofType "object")).admits (.dict entries) =
      rules.all fun r => (mapRule Facts.none r).admits (.dict entries) := by
  have hstart : (Facts.ofType "object").admits (.dict entries) = true := by
    simp [Facts.admits, Facts.ofType, Facts.admitsEntries, Facts.none]
  have hall := admits_foldl silentOn (admits_mapRule entries) silentOn_mapRule honce
    (f := Facts.ofType "object") fun r _ => silentOn_none r.name
  rw [hstart, Bool.true_and] at hall
  exact hall

end Schema
end Intake
