import Intake.Proofs.Schema.Satisfaction
import Intake.Schema.Derivation
import Intake.Validation.Record

/-!
Verdicts and schemas. The validator and the schema read the argument of a rule by themselves; here each
rule is followed on both ways, for texts, for integers, for the items of arrays and for maps.
-/

namespace Intake.Validation

open Schema (isPublishedScalar sayScalar)

/-- Whether a verdict is no finding: the rule is kept, or its argument is unfit. -/
def isClean : Verdict → Bool
  | .ok none | .error (.argument _) => true
  | .ok (some _) | .error (.fault _) => false

/-- Whether a rule is never enforced as it stands. -/
def isUnenforced (r : Rule) : Bool :=
  r.name == emptyItemsRule || (r.name == "format" && r.arg != some "email")

@[simp] theorem isClean_messageUnless (kept : Bool) (message : String) :
    isClean (.ok (messageUnless kept message)) = kept := by
  cases kept <;> rfl

/-- A bound that is an integer is asked for; any other bound is left aside. -/
theorem isClean_bounded (r : Rule) (kept : Int → Bool) (message : Int → String) :
    isClean (do let bound ← integerArgument r; return messageUnless (kept bound) (message bound)) =
      (r.arg.bind Number.int?).all kept := by
  rw [integerArgument]
  cases r.arg.bind Number.int? with
  | none => rfl
  | some bound => exact isClean_messageUnless (kept bound) (message bound)

theorem isClean_judgePattern (r : Rule) (s : String) :
    isClean (judgePattern r s) = r.arg.all fun pattern => Pattern.occurs pattern s := by
  unfold judgePattern Pattern.occurs
  cases r.arg with
  | none => rfl
  | some pattern =>
      simp only [Option.all_some]
      cases Pattern.compile .none pattern with
      | ok compiled => simp
      | error flaw => cases flaw <;> rfl

/-- A rule about texts is judged as its schema says. -/
theorem isClean_judgeText {v : Value} (hv : isPublishedScalar .string v) {r : Rule}
    (henforced : isUnenforced r = false) :
    isClean (judgeText r v) = (Schema.textRule Facts.none r).admits v := by
  obtain ⟨length, s, hlength, htext, hadmits⟩ := Schema.admits_of_text hv
  obtain ⟨name, arg⟩ := r
  simp only [hadmits, Facts.admitsText]
  rw [judgeText]
  simp only [hlength, htext, lift]
  split
  · apply (isClean_bounded _ _ _).trans
    simp [Schema.textRule, Facts.none]
  · apply (isClean_bounded _ _ _).trans
    simp [Schema.textRule, Facts.none]
  · have hpattern := isClean_judgePattern ⟨"pattern", arg⟩ s
    cases arg with
    | none => simp [Schema.textRule, Facts.none]; rfl
    | some pattern => 
      apply hpattern.trans
      simp [Schema.textRule, Facts.none]
  · have harg : arg = some "email" := by simpa [isUnenforced, emptyItemsRule] using henforced
    subst harg
    apply (isClean_messageUnless _ _).trans
    simp [Schema.textRule, Facts.none]
  · apply (isClean_messageUnless _ _).trans
    simp [Schema.textRule, Facts.none, Function.comp_def]
  · simp_all [Schema.textRule, Facts.none]; rfl

/-- The argument of a rule about integers is the integer that the schema says. -/
theorem bind_numberOf_integer (arg : Option String) :
    arg.bind (Schema.numberOf .integer) = (arg.bind Number.int?).map Value.Size.whole := by
  cases arg <;> rfl

theorem all_map_whole {kept : Int → Bool} {test : Value.Size → Bool} (h : ∀ bound, kept bound = test (.whole bound))
    (found : Option Int) : found.all kept = (found.map Value.Size.whole).all test := by
  cases found with
  | none => rfl
  | some bound => exact h bound

/-- Being a multiple of an integer is judged as the schema says: of nothing is asked, and of zero neither is. -/
theorem isClean_multipleOf (arg : Option String) (i : Int) :
    isClean (do
        let step ← integerArgument ⟨"multipleOf", arg⟩
        if step = 0 then throw (.argument "multipleOf must not be zero")
        return messageUnless (i % step = 0) ("must be a multiple of " ++ toString step)) =
      (((arg.bind Number.int?).map Value.Size.whole).filter fun n => !Schema.isZero n).all
        (Value.Size.whole i).isMultipleOf := by
  rw [integerArgument]
  cases arg.bind Number.int? with
  | none => rfl
  | some step =>
      by_cases hzero : step = 0
      · subst hzero
        rfl
      · have hgiven : (Value.Size.whole step).same (.whole 0) = false := by simp [Value.Size.same, hzero]
        change isClean (if step = 0 then _ else .ok (messageUnless _ _)) = _
        rw [if_neg hzero]
        apply (isClean_messageUnless _ _).trans
        simp only [Option.filter, Option.map_some, Schema.isZero, hgiven, Bool.not_false, ↓reduceIte, Option.all_some,
          Value.Size.isMultipleOf_whole]

/-- Being one of some integers is judged as the schema says. -/
theorem contains_filterMap_int? (words : List String) (i : Int) :
    (words.filterMap Number.int?).contains i =
      ((words.filterMap (Schema.numberOf .integer)).map Schema.sizeValue).any (Value.int i).same := by
  simp only [List.any_map, List.any_filterMap, List.contains_eq_any_beq]
  refine congrArg (List.any _) (funext fun word => ?_)
  have hword : Schema.numberOf .integer word = (Number.int? word).map Value.Size.whole := rfl
  rw [hword]
  cases Number.int? word with
  | none => rfl
  | some n => simp [Schema.sizeValue, Value.same, Value.sameScalar, Value.size?, Value.Size.same]

/-- A rule about numbers is judged as its schema says. -/
theorem isClean_judgeInteger {i : Int} (hleast : leastInteger ≤ i) (hgreatest : i ≤ greatestInteger)
    (r : Rule) :
    isClean (judgeInteger r (.int i)) =
      (Schema.numericRule .integer Facts.none r).admits (.int i) := by
  have hsaturate : saturate i = i := by
    rw [saturate]
    omega
  obtain ⟨name, arg⟩ := r
  simp only [Facts.admits, Facts.admitsNumber]
  rw [judgeInteger]
  change isClean (let v := saturate i; _) = _
  rw [hsaturate]
  dsimp only
  split
  · apply (isClean_bounded _ _ _).trans
    simp only [Schema.numericRule, Facts.none, bind_numberOf_integer, Option.all_none, Bool.and_true, Bool.true_and]
    refine all_map_whole (fun bound => ?_) _
    simp only [hsaturate, Json.sizeLt]
    grind
  · apply (isClean_bounded _ _ _).trans
    simp only [Schema.numericRule, Facts.none, bind_numberOf_integer, Option.all_none, Bool.and_true, Bool.true_and]
    refine all_map_whole (fun bound => ?_) _
    simp only [hsaturate, Json.sizeLt]
    grind
  · apply (isClean_multipleOf arg (saturate i)).trans
    simp only [Schema.numericRule, Facts.none, bind_numberOf_integer, hsaturate, Option.all_none, Bool.and_true,
      Bool.true_and]
  · apply (isClean_messageUnless _ _).trans
    rw [hsaturate]
    simp only [Schema.numericRule, Facts.none, Option.all_none, Option.all_some, Bool.and_true]
    exact contains_filterMap_int? _ i
  · simp_all [Schema.numericRule, Facts.none]; rfl

/-- A rule about single values is judged as its schema says. -/
theorem isClean_judgeScalar {kind : Kind} {v : Value} (hv : isPublishedScalar kind v) {r : Rule}
    (henforced : isUnenforced r = false) :
    isClean (judgeScalar kind r v) = (sayScalar kind Facts.none r).admits v := by
  rcases Schema.kind_of_isPublishedScalar hv with rfl | ⟨rfl, i, rfl, hleast, hgreatest⟩
  · exact isClean_judgeText hv henforced
  · exact isClean_judgeInteger hleast hgreatest r

theorem arg_eq_none_of_bounded {r : Rule} {message : Int → Option String} {trouble : Trouble}
    (hunfit : (do let bound ← integerArgument r; return message bound) = (.error trouble : Verdict)) :
    r.arg.bind Number.int? = none := by
  rw [integerArgument] at hunfit
  cases hbound : r.arg.bind Number.int? with
  | none => rfl
  | some bound =>
      rw [hbound] at hunfit
      cases hunfit

/-- An argument that is unfit for one text is unfit for all. -/
theorem isClean_judgeText_of_argument {v w : Value} (hv : isPublishedScalar .string v)
    (hw : isPublishedScalar .string w) {r : Rule} {reason : String}
    (hunfit : judgeText r v = .error (.argument reason)) : isClean (judgeText r w) = true := by
  obtain ⟨length, s, hlength, htext, -⟩ := Schema.admits_of_text hv
  obtain ⟨length', s', hlength', htext', -⟩ := Schema.admits_of_text hw
  obtain ⟨name, arg⟩ := r
  unfold judgeText at *
  simp only [hlength, htext, hlength', htext', lift] at hunfit ⊢
  split
  · apply (isClean_bounded _ _ _).trans
    rw [arg_eq_none_of_bounded hunfit]
    rfl
  · apply (isClean_bounded _ _ _).trans
    rw [arg_eq_none_of_bounded hunfit]
    rfl
  · cases arg with
    | none => rfl
    | some pattern =>
        -- A pattern is there, so it is read, whatever comes of that.
        change judgePattern ⟨"pattern", some pattern⟩ s = _ at hunfit
        rcases hcompiled : Pattern.compile .none pattern with flaw | compiled
        · simp only [judgePattern, hcompiled] at hunfit
          split at hunfit <;> cases hunfit
        · simp [judgePattern, hcompiled] at hunfit
  · cases hunfit
  · cases hunfit
  · rfl

/-- An argument that is unfit for one integer is unfit for all. -/
theorem isClean_judgeInteger_of_argument {i j : Int} {r : Rule} {reason : String}
    (hunfit : judgeInteger r (.int i) = .error (.argument reason)) :
    isClean (judgeInteger r (.int j)) = true := by
  obtain ⟨name, arg⟩ := r
  unfold judgeInteger at *
  dsimp only at *
  split
  · apply (isClean_bounded _ _ _).trans
    rw [arg_eq_none_of_bounded hunfit]
    rfl
  · apply (isClean_bounded _ _ _).trans
    rw [arg_eq_none_of_bounded hunfit]
    rfl
  · unfold integerArgument at *
    cases hstep : arg.bind Number.int? with
    | none => rfl
    | some step =>
        simp only [hstep] at hunfit ⊢
        by_cases hzero : step = 0
        · subst hzero
          rfl
        · change (if step = 0 then _ else Except.ok _) = _ at hunfit
          rw [if_neg hzero] at hunfit
          cases hunfit
  · cases hunfit
  · rfl

/-- An argument that is unfit for one value is unfit for all. -/
theorem isClean_judgeScalar_of_argument {kind : Kind} {v w : Value} (hv : isPublishedScalar kind v)
    (hw : isPublishedScalar kind w) {r : Rule} {reason : String}
    (hunfit : judgeScalar kind r v = .error (.argument reason)) :
    isClean (judgeScalar kind r w) = true := by
  rcases Schema.kind_of_isPublishedScalar hv with rfl | ⟨rfl, i, rfl, -, -⟩
  · exact isClean_judgeText_of_argument hv hw hunfit
  · rcases Schema.kind_of_isPublishedScalar hw with hkind | ⟨-, j, rfl, -, -⟩
    · cases hkind
    · exact isClean_judgeInteger_of_argument hunfit

/-- The items of an array keep a rule if each of them does. -/
theorem isClean_judgeItems {kind : Kind} {r : Rule} {items : List Value}
    (hitems : ∀ v ∈ items, isPublishedScalar kind v) :
    isClean (judgeItems kind r items) = items.all fun v => isClean (judgeScalar kind r v) := by
  induction items with
  | nil => rfl
  | cons v rest ih =>
      have hv : isPublishedScalar kind v := hitems v List.mem_cons_self
      have hrest : ∀ w ∈ rest, isPublishedScalar kind w := fun w hw =>
        hitems w (List.mem_cons_of_mem v hw)
      rw [judgeItems, Schema.isNull_eq_false_of_isPublishedScalar hv, if_neg Bool.false_ne_true,
        List.all_cons, ← ih hrest]
      rcases hverdict : judgeScalar kind r v with trouble | verdict
      · cases trouble with
        | fault f => rfl
        | argument reason =>
            have hall : isClean (judgeItems kind r rest) = true := by
              rw [ih hrest, List.all_eq_true]
              intro w hw
              exact isClean_judgeScalar_of_argument hv (hrest w hw) hverdict
            rw [hall]
            rfl
      · cases verdict with
        | some message => rfl
        | none => rfl

/-- Whether a rule of a field finds nothing wrong with a value: it is kept, cannot be read, is not
enforced, or does not apply; presence is left aside. -/
def isSatisfied (d : Descriptor) (r : Rule) (v : Value) : Bool :=
  r.name == "required" || (d.mismatch? r).isSome || isUnenforced r || isClean (judge d r v)

theorem mismatch?_isSome (d : Descriptor) (r : Rule) :
    (d.mismatch? r).isSome = !(d.suits? r.name).any Prod.fst := by
  rw [Descriptor.mismatch?]
  rcases d.suits? r.name with _ | ⟨_ | _, expected⟩ <;> rfl

/-- A rule that does not apply to scalars of a kind says nothing about them. -/
theorem sayScalar_of_mismatch {kind : Kind} {v : Value} (hv : isPublishedScalar kind v)
    {d : Descriptor} (hfits : ∀ test : Kind → Bool, test kind → d.holdsFor test) {r : Rule}
    (hidle : r.name = "required" ∨ (d.mismatch? r).isSome) :
    sayScalar kind Facts.none r = Facts.none := by
  rw [mismatch?_isSome] at hidle
  have hstring := hfits (· == .string)
  have hnumeric := hfits Kind.isNumeric
  have henum := hfits fun k => k == .string || k.isNumeric
  have hformat := hfits fun k => k == .string || k == .moment
  rcases Schema.kind_of_isPublishedScalar hv with rfl | ⟨rfl, -⟩
  · change Schema.textRule Facts.none r = Facts.none
    rw [Schema.textRule]
    split
    case h_6 => rfl
    all_goals
      rename_i hname
      simp [hname, Descriptor.suits?, numericRules, textRules, countRules, itemRules, hstring rfl,
        hformat rfl, henum rfl] at hidle
  · change Schema.numericRule .integer Facts.none r = Facts.none
    rw [Schema.numericRule]
    split
    case h_5 => rfl
    all_goals
      rename_i hname
      simp [hname, Descriptor.suits?, numericRules, textRules, countRules, itemRules, hnumeric rfl,
        henum rfl] at hidle

/-- Nothing said asks nothing. -/
theorem admits_none {kind : Kind} {v : Value} (hv : isPublishedScalar kind v) :
    Facts.none.admits v = true := by
  rcases Schema.kind_of_isPublishedScalar hv with rfl | ⟨rfl, i, rfl, -⟩
  · obtain ⟨length, s, -, -, hadmits⟩ := Schema.admits_of_text hv
    simp [hadmits, Facts.admitsText, Facts.none]
  · rfl

/-- A rule that is not enforced as it stands asks nothing of single values. -/
theorem admits_sayScalar_of_unenforced {kind : Kind} {v : Value} (hv : isPublishedScalar kind v)
    {r : Rule} (hidle : isUnenforced r = true) : (sayScalar kind Facts.none r).admits v = true := by
  obtain ⟨name, arg⟩ := r
  simp only [isUnenforced, emptyItemsRule, Bool.or_eq_true, Bool.and_eq_true, beq_iff_eq,
    bne_iff_ne] at hidle
  rcases hidle with rfl | ⟨rfl, harg⟩
  · rcases Schema.kind_of_isPublishedScalar hv with rfl | ⟨rfl, -⟩
    · exact admits_none hv
    · exact admits_none hv
  · rcases Schema.kind_of_isPublishedScalar hv with rfl | ⟨rfl, -⟩
    · -- A format of another name stands in the schema, but only addresses are looked at.
      obtain ⟨length, s, -, -, hadmits⟩ := Schema.admits_of_text hv
      change (Schema.textRule Facts.none ⟨"format", arg⟩).admits v = true
      cases arg with
      | none => exact admits_none hv
      | some word =>
          by_cases hword : word.isEmpty
          · simp [Schema.textRule, hword, admits_none hv]
          · simp only [Schema.textRule, hword, hadmits]
            have hother : word ≠ "email" := by simpa using harg
            simp [Facts.admitsText, Facts.none, hother]
    · exact admits_none hv

/-- The facts of a rule about single values are kept exactly if the rule finds nothing wrong. -/
theorem admits_sayScalar {kind : Kind} {v : Value} (hv : isPublishedScalar kind v)
    {d : Descriptor} (hfits : ∀ test : Kind → Bool, test kind → d.holdsFor test) (r : Rule) :
    (sayScalar kind Facts.none r).admits v =
      (r.name == "required" || (d.mismatch? r).isSome || isUnenforced r ||
        isClean (judgeScalar kind r v)) := by
  by_cases hidle : r.name = "required" ∨ (d.mismatch? r).isSome
  · rw [sayScalar_of_mismatch hv hfits hidle, admits_none hv]
    rcases hidle with hname | hmismatch
    · simp [hname]
    · simp [hmismatch]
  · rw [not_or] at hidle
    rcases henforced : isUnenforced r with _ | _
    · rw [← isClean_judgeScalar hv henforced]
      simp [hidle]
    · simp [admits_sayScalar_of_unenforced hv henforced]

/-- The facts of a field that holds one value are kept exactly if no rule finds anything wrong. -/
theorem admits_scalarFacts_eq_satisfied {d : Descriptor} {v : Value} (hv : isPublishedScalar d.kind v)
    (honce : (d.rules.map Rule.name).Nodup) :
    (Schema.scalarFacts d.kind d.rules).admits v = d.rules.all fun r => isSatisfied d r v := by
  rw [Schema.admits_scalarFacts hv honce]
  refine congrArg (List.all d.rules) (funext fun r => ?_)
  have hfits : ∀ test : Kind → Bool, test d.kind → d.holdsFor test := fun test htest => by
    simp [Descriptor.holdsFor, htest]
  have hjudge : judge d r v = judgeScalar d.kind r v := by
    rw [judge]
    rcases Schema.kind_of_isPublishedScalar hv with hkind | ⟨hkind, -⟩ <;> rw [hkind]
  rw [admits_sayScalar hv hfits r, isSatisfied, hjudge]

theorem isClean_judgeCount_minItems (arg : Option String) (count : Nat) (noun : String) :
    isClean (judgeCount ⟨"minItems", arg⟩ count noun) =
      (arg.bind Number.int?).all fun least : Int => decide (least ≤ count) :=
  isClean_bounded ⟨"minItems", arg⟩ _ _

theorem isClean_judgeCount_maxItems (arg : Option String) (count : Nat) (noun : String) :
    isClean (judgeCount ⟨"maxItems", arg⟩ count noun) =
      (arg.bind Number.int?).all fun most : Int => decide ((count : Int) ≤ most) :=
  isClean_bounded ⟨"maxItems", arg⟩ _ _

theorem isClean_judgeUnique (items : List Value) (message : String) :
    isClean (do
        return messageUnless (← lift (allUnique [] (← lift (itemsOf (.list items))))) message) =
      (Schema.arrayRule Facts.none ⟨"uniqueItems", none⟩).admits (.list items) := by
  change isClean (do return messageUnless (← lift (allUnique [] items)) message) = _
  simp only [Schema.arrayRule, Facts.admits, Facts.admitsItems, Facts.none]
  rcases allUnique [] items with fault | unique
  · rfl
  · apply (isClean_messageUnless unique message).trans
    cases unique <;> rfl

section array

variable {d : Descriptor} {kind : Kind} {r : Rule} {items : List Value}

/-- A rule about the number of items is judged as its schema says. -/
theorem isSatisfied_of_count (hkind : d.kind = .array) (hcount : countRules.contains r.name) :
    isSatisfied d r (.list items) = (Schema.arrayRule Facts.none r).admits (.list items) := by
  have hjudge : judge d r (.list items) = judgeCount r items.length "items" := by
    simp only [judge, hkind, hcount, if_true]
    rfl
  have hname : r.name = "minItems" ∨ r.name = "maxItems" := by simpa [countRules] using hcount
  rw [isSatisfied, hjudge, mismatch?_isSome]
  obtain ⟨name, arg⟩ := r
  rcases hname with rfl | rfl
  · rw [isClean_judgeCount_minItems]
    simp [Descriptor.suits?, numericRules, textRules, countRules, hkind, isUnenforced, emptyItemsRule,
      Schema.arrayRule, Facts.none, Facts.admits, Facts.admitsItems]
  · rw [isClean_judgeCount_maxItems]
    simp [Descriptor.suits?, numericRules, textRules, countRules, hkind, isUnenforced, emptyItemsRule,
      Schema.arrayRule, Facts.none, Facts.admits, Facts.admitsItems]

/-- The rule that items differ is judged as its schema says. -/
theorem isSatisfied_of_unique (hkind : d.kind = .array) (hunique : r.name = "uniqueItems") :
    isSatisfied d r (.list items) = (Schema.arrayRule Facts.none r).admits (.list items) := by
  obtain ⟨name, arg⟩ := r
  subst hunique
  have hjudge : isClean (judge d ⟨"uniqueItems", arg⟩ (.list items)) =
      (Schema.arrayRule Facts.none ⟨"uniqueItems", arg⟩).admits (.list items) := by
    simp only [judge, hkind]
    exact isClean_judgeUnique items _
  rw [isSatisfied, hjudge, mismatch?_isSome]
  simp [Descriptor.suits?, numericRules, textRules, countRules, itemRules, hkind, isUnenforced, emptyItemsRule]

/-- A rule that says nothing about items is judged as its schema says, which is nothing for other rules than those
about the items together. -/
theorem isSatisfied_of_not_inner (hkind : d.kind = .array) (hinner : Schema.innerRules.contains r.name = false) :
    isSatisfied d r (.list items) = (Schema.arrayRule Facts.none r).admits (.list items) := by
  by_cases hcount : countRules.contains r.name
  · exact isSatisfied_of_count hkind hcount
  by_cases hunique : r.name = "uniqueItems"
  · exact isSatisfied_of_unique hkind hunique
  have hjudge : judge d r (.list items) = .ok none := by
    have helements : elementRules.contains r.name = false := hinner
    have hword : (r.name == "uniqueItems") = false := by simpa using hunique
    simp only [judge, hkind, hcount, hword, helements]
    rfl
  have hself : Schema.arrayRule Facts.none r = Facts.none := by
    rw [Schema.arrayRule]
    split <;> simp_all [countRules]
  rw [isSatisfied, hjudge, hself]
  simp [isClean, Facts.admits, Facts.admitsItems, Facts.none]

/-- A rule about items is none about the array itself. -/
theorem not_of_inner (hinner : Schema.innerRules.contains r.name = true) :
    countRules.contains r.name = false ∧ (r.name == "uniqueItems") = false ∧
      Schema.arrayRule Facts.none r = Facts.none := by
  have hapart : ∀ name ∈ Schema.innerRules, countRules.contains name = false ∧ (name == "uniqueItems") = false := by
    decide
  obtain ⟨hcount, hunique⟩ := hapart r.name (List.contains_iff_mem.mp hinner)
  refine ⟨hcount, hunique, ?_⟩
  rw [Schema.arrayRule]
  split <;> simp_all [countRules]

/-- A rule about items is judged as its schema says of each item. -/
theorem isSatisfied_of_inner (hkind : d.kind = .array) (helement : d.elementKind = some kind)
    (hitems : ∀ v ∈ items, isPublishedScalar kind v) (hinner : Schema.innerRules.contains r.name = true) :
    isSatisfied d r (.list items) = items.all fun v => (sayScalar kind Facts.none r).admits v := by
  have hfits : ∀ test : Kind → Bool, test kind → d.holdsFor test := fun test htest => by
    simp [Descriptor.holdsFor, hkind, helement, htest]
  have hjudge : isClean (judge d r (.list items)) = items.all fun v => isClean (judgeScalar kind r v) := by
    have helements : elementRules.contains r.name = true := hinner
    obtain ⟨hcount, hword, -⟩ := not_of_inner hinner
    simp only [judge, hkind, helement, hcount, hword, helements]
    exact isClean_judgeItems hitems
  have heach : (items.all fun v => (sayScalar kind Facts.none r).admits v) =
      items.all fun v => (r.name == "required" || (d.mismatch? r).isSome || isUnenforced r) ||
        isClean (judgeScalar kind r v) := by
    rw [Bool.eq_iff_iff, List.all_eq_true, List.all_eq_true]
    exact forall₂_congr fun v hv => by rw [admits_sayScalar (hitems v hv) hfits r]
  rw [isSatisfied, hjudge, heach]
  cases (r.name == "required" || (d.mismatch? r).isSome || isUnenforced r) <;> simp

/-- What one rule says about an array: about the array itself, and about its items. -/
theorem isSatisfied_list (hkind : d.kind = .array) (helement : d.elementKind = some kind)
    (hitems : ∀ v ∈ items, isPublishedScalar kind v) (r : Rule) :
    isSatisfied d r (.list items) =
      ((Schema.arrayRule Facts.none r).admits (.list items) &&
        (!Schema.innerRules.contains r.name ||
          items.all fun v => (sayScalar kind Facts.none r).admits v)) := by
  cases hinner : Schema.innerRules.contains r.name with
  | true =>
      obtain ⟨-, -, hself⟩ := not_of_inner hinner
      rw [isSatisfied_of_inner hkind helement hitems hinner, hself]
      rfl
  | false => rw [isSatisfied_of_not_inner hkind hinner, Bool.not_false, Bool.true_or, Bool.and_true]

end array

/-- The schema of an array is kept exactly if no rule finds anything wrong. -/
theorem admits_arrayOf_eq_satisfied {d : Descriptor} {kind : Kind} (hkind : d.kind = .array)
    (helement : d.elementKind = some kind) {items : List Value}
    (hitems : ∀ v ∈ items, isPublishedScalar kind v) (honce : (d.rules.map Rule.name).Nodup) :
    (Schema.arrayOf d.rules
        (.leaf (Schema.scalarFacts kind (Schema.rulesInside d.rules)))).admits (.list items) =
      d.rules.all fun r => isSatisfied d r (.list items) := by
  have hinner : ((Schema.rulesInside d.rules).map Rule.name).Nodup :=
    honce.sublist (List.Sublist.map Rule.name List.filter_sublist)
  have heach : ∀ v ∈ items, (Schema.scalarFacts kind (Schema.rulesInside d.rules)).admits v =
      d.rules.all fun r => !Schema.innerRules.contains r.name ||
        (sayScalar kind Facts.none r).admits v := by
    intro v hv
    rw [Schema.admits_scalarFacts (hitems v hv) hinner, Schema.rulesInside, List.all_filter]
  simp only [Schema.arrayOf, Schema.leaf, Schema.admits, Schema.itemsAdmit, Bool.and_true]
  rw [Schema.admits_arrayFacts items honce, Bool.eq_iff_iff, Bool.and_eq_true, List.all_eq_true,
    List.all_eq_true, List.all_eq_true]
  simp only [isSatisfied_list hkind helement hitems, Bool.and_eq_true, Bool.or_eq_true,
    Bool.not_eq_true', List.all_eq_true]
  constructor
  · rintro ⟨hself, hinside⟩ r hr
    refine ⟨hself r hr, ?_⟩
    rcases hrule : Schema.innerRules.contains r.name with _ | _
    · exact Or.inl rfl
    · apply Or.inr
      intro v hv
      have hv' := hinside v hv
      rw [heach v hv, List.all_eq_true] at hv'
      simpa only [hrule, Bool.not_true, Bool.false_or] using hv' r hr
  · intro hall
    refine ⟨fun r hr => (hall r hr).1, ?_⟩
    intro v hv
    rw [heach v hv, List.all_eq_true]
    intro r hr
    rcases (hall r hr).2 with hrule | hadmits
    · simp only [hrule, Bool.not_false, Bool.true_or]
    · simp only [hadmits v hv, Bool.or_true]

/-- Rules that say all they ask of a map in its schema. -/
def mapRules : List String := ["minItems", "maxItems", "required"]

/-- The schema of a map is kept exactly if no rule about the number of entries finds anything
wrong. -/
theorem admits_mapOf_eq_satisfied {d : Descriptor} (hkind : d.kind = .map)
    (hrules : ∀ r ∈ d.rules, mapRules.contains r.name) (values : Schema)
    (entries : List (Value × Value)) (honce : (d.rules.map Rule.name).Nodup) :
    (Schema.mapOf d.rules values).admits (.dict entries) =
      d.rules.all fun r => isSatisfied d r (.dict entries) := by
  simp only [Schema.mapOf, Schema.admits, Schema.itemsAdmit, Bool.and_true]
  rw [Schema.admits_mapFacts entries honce, Bool.eq_iff_iff, List.all_eq_true, List.all_eq_true]
  apply forall₂_congr
  intro r hr
  have hname := hrules r hr
  obtain ⟨name, arg⟩ := r
  have hjudge : judge d ⟨name, arg⟩ (.dict entries) =
      judgeCount ⟨name, arg⟩ entries.length "entries" := by
    simp only [judge, hkind]
    rfl
  simp only [mapRules, List.contains_cons, List.contains_nil, Bool.or_false, Bool.or_eq_true,
    beq_iff_eq] at hname
  rw [isSatisfied, hjudge, mismatch?_isSome]
  rcases hname with rfl | rfl | rfl
  · rw [isClean_judgeCount_minItems]
    simp [Descriptor.suits?, numericRules, textRules, countRules, hkind, isUnenforced,
      emptyItemsRule, Schema.mapRule, Facts.none, Facts.admits, Facts.admitsEntries]
  · rw [isClean_judgeCount_maxItems]
    simp [Descriptor.suits?, numericRules, textRules, countRules, hkind, isUnenforced,
      emptyItemsRule, Schema.mapRule, Facts.none, Facts.admits, Facts.admitsEntries]
  · rfl

end Intake.Validation
