import Intake.Proofs.Schema.Traversal
import Intake.Proofs.Validation.Misapplied

/-!
Rules that schemas take. A schema says something by a rule only where its type takes rules of that name, so what is
derived stays the same when others are dropped. Of the rules that do not apply to a field, the type takes none, unless
the field is a map, or an array of arrays or maps: these pass rules on to what is inside, where they say something
although they do not apply to the field.
-/

namespace Intake.Schema

/-! ### What types take -/

/-- Whether the schema of a single value of a kind says something by rules of a name. -/
def scalarTakes (kind : Kind) (name : String) : Bool :=
  match kind with
  | .string => ["minlength", "maxlength", "pattern", "format", "enum"].contains name
  | .integer | .float => ["min", "max", "multipleOf", "enum"].contains name
  | .moment => name == "format"
  | _ => false

/-- Whether the schema of an array says something of its own by rules of a name. -/
def arrayTakes (name : String) : Bool := ["minItems", "maxItems", "uniqueItems"].contains name

/-- Whether the schema of a map says something of its own by rules of a name. -/
def mapTakes (name : String) : Bool := ["minItems", "maxItems"].contains name

mutual

/-- Whether the schema of a type says something by rules of a name, itself or in what is inside. -/
def takes (c : Catalogue) (name : String) : Ty → Bool
  | .annotated inner => takes c name inner
  | .union choices => takesOnly c name choices
  | .record _ => false
  | .list item | .set _ item | .sequence item => arrayTakes name || (innerRules.contains name && takes c name item)
  | .tuple items => arrayTakes name || (innerRules.contains name && takesFirst c name items)
  | .dict _ item => mapTakes name || (innerRules.contains name && takes c name item)
  | .bareList | .bareTuple | .bareSet _ => arrayTakes name
  | .bareDict => mapTakes name
  | t => scalarTakes (c.kindOf t) name

/-- Whether the only choice that is not absence takes rules of a name. -/
def takesOnly (c : Catalogue) (name : String) : List Ty → Bool
  | [] => false
  | t :: rest => if t.isNull then takesOnly c name rest else rest.all Ty.isNull && takes c name t

/-- Whether the first type takes rules of a name. -/
def takesFirst (c : Catalogue) (name : String) : List Ty → Bool
  | [] => false
  | t :: _ => takes c name t

end

section takes

variable (c : Catalogue)

theorem takesOnly_cons (name : String) (t : Ty) (rest : List Ty) :
    takesOnly c name (t :: rest) = if t.isNull then takesOnly c name rest
      else if rest.all Ty.isNull then takes c name t else false := by
  rw [takesOnly]
  cases rest.all Ty.isNull <;> rfl

/-- What a type takes does not see annotations and the permission to be absent. -/
theorem seesThrough_takes (name : String) : Ty.SeesThrough (takes c name) where
  annotated inner := by rw [takes]
  union choices t hone := by
    rw [takes, Ty.only_eq_of_filter (f := takes c name) (d := false) rfl (takesOnly_cons c name), hone]

/-- Several choices take nothing. -/
theorem takesOnly_eq_false {name : String} {t : Ty} {choices : List Ty} (ht : t.unwrap.1 = .union choices) :
    takesOnly c name choices = false :=
  Ty.only_eq_of_unwrap (f := takes c name) rfl (takesOnly_cons c name) ht

end takes

/-! ### Rules that are not taken -/

/-- A fold passes over what leaves everything as it is. -/
theorem foldl_filter_of_idle {α β : Type} {step : β → α → β} {keep : α → Bool} {xs : List α}
    (hidle : ∀ x ∈ xs, keep x = false → ∀ s, step s x = s) (s : β) :
    (xs.filter keep).foldl step s = xs.foldl step s := by
  induction xs generalizing s with
  | nil => rfl
  | cons x rest ih =>
      have hrest := ih fun y hy => hidle y (List.mem_cons_of_mem x hy)
      cases hkeep : keep x with
      | true => rw [List.filter_cons_of_pos hkeep, List.foldl_cons, List.foldl_cons, hrest]
      | false =>
          rw [List.filter_cons_of_neg (by simp [hkeep]), hrest, List.foldl_cons, hidle x List.mem_cons_self hkeep]

theorem find?_filter_of_forall {α : Type} {p keep : α → Bool} {xs : List α}
    (hkept : ∀ x ∈ xs, p x = true → keep x = true) : (xs.filter keep).find? p = xs.find? p := by
  induction xs with
  | nil => rfl
  | cons x rest ih =>
      have hrest := ih fun y hy => hkept y (List.mem_cons_of_mem x hy)
      cases hkeep : keep x with
      | true => rw [List.filter_cons_of_pos hkeep, List.find?_cons, List.find?_cons, hrest]
      | false =>
          have hother : p x = false :=
            Bool.eq_false_iff.mpr fun hfound => by simp [hkept x List.mem_cons_self hfound] at hkeep
          rw [List.filter_cons_of_neg (by simp [hkeep]), List.find?_cons_of_neg (by simp [hother]), hrest]

theorem textRule_of_idle {r : Rule} (hidle : scalarTakes .string r.name = false) (f : Facts) : textRule f r = f := by
  unfold textRule
  split <;> simp_all [scalarTakes]

theorem numericRule_of_idle {kind : Kind} {r : Rule} (hidle : scalarTakes .integer r.name = false) (f : Facts) :
    numericRule kind f r = f := by
  unfold numericRule
  split <;> simp_all [scalarTakes]

theorem arrayRule_of_idle {r : Rule} (hidle : arrayTakes r.name = false) (f : Facts) : arrayRule f r = f := by
  unfold arrayRule
  split <;> simp_all [arrayTakes]

theorem mapRule_of_idle {r : Rule} (hidle : mapTakes r.name = false) (f : Facts) : mapRule f r = f := by
  unfold mapRule
  split <;> simp_all [mapTakes]

/-- Rules that are dropped are not taken. -/
def IsIdle (keep : Rule → Bool) (rules : List Rule) (taken : String → Bool) : Prop :=
  ∀ r ∈ rules, keep r = false → taken r.name = false

variable {keep : Rule → Bool} {rules : List Rule}

theorem scalarFacts_filter {kind : Kind} (hidle : IsIdle keep rules (scalarTakes kind)) :
    scalarFacts kind (rules.filter keep) = scalarFacts kind rules := by
  cases kind with
  | string => exact foldl_filter_of_idle (fun r hr hdrop => textRule_of_idle (hidle r hr hdrop)) _
  | integer => exact foldl_filter_of_idle (fun r hr hdrop => numericRule_of_idle (hidle r hr hdrop)) _
  | float => exact foldl_filter_of_idle (fun r hr hdrop => numericRule_of_idle (hidle r hr hdrop)) _
  | moment =>
      have hformat : Rule.find? (rules.filter keep) "format" = Rule.find? rules "format" := by
        apply find?_filter_of_forall
        intro r hr hname
        by_contra hdrop
        simpa [scalarTakes, eq_of_beq hname] using hidle r hr (by simpa using hdrop)
      rw [scalarFacts, scalarFacts, hformat]
  | _ => rfl

theorem arrayOf_filter (hidle : IsIdle keep rules arrayTakes) (items : Schema) :
    arrayOf (rules.filter keep) items = arrayOf rules items := by
  rw [arrayOf, foldl_filter_of_idle fun r hr hdrop => arrayRule_of_idle (hidle r hr hdrop)]
  rfl

theorem mapOf_filter (hidle : IsIdle keep rules mapTakes) (values : Schema) :
    mapOf (rules.filter keep) values = mapOf rules values := by
  rw [mapOf, foldl_filter_of_idle fun r hr hdrop => mapRule_of_idle (hidle r hr hdrop)]
  rfl

theorem rulesInside_filter (rules : List Rule) : rulesInside (rules.filter keep) = (rulesInside rules).filter keep := by
  rw [rulesInside, rulesInside, List.filter_filter, List.filter_filter]
  exact List.filter_congr fun r _ => Bool.and_comm _ _

section inside

variable {alone inner : String → Bool}
  (hidle : IsIdle keep rules fun name => alone name || (innerRules.contains name && inner name))

include hidle

theorem IsIdle.own : IsIdle keep rules alone :=
  fun r hr hdrop => (Bool.or_eq_false_iff.mp (hidle r hr hdrop)).1

/-- Rules that are passed on and dropped are not taken inside. -/
theorem IsIdle.inside : IsIdle keep (rulesInside rules) inner := by
  intro r hr hdrop
  obtain ⟨hrule, hpassed⟩ := List.mem_filter.mp hr
  have hboth := (Bool.or_eq_false_iff.mp (hidle r hrule hdrop)).2
  rwa [hpassed, Bool.true_and] at hboth

end inside

section derived

variable (c : Catalogue) (chosen : String → Bool) (record : String → Registering Schema)

/-- A type is derived as it was when rules are dropped that it does not take. -/
theorem ofType_filter (t : Ty) {rules : List Rule} (hidle : IsIdle keep rules fun name => takes c name t) :
    ofType (c.pruned chosen) record t (rules.filter keep) = ofType c record t rules := by
  induction t using Ty.bare_induction generalizing rules with
  | unwrap t ih =>
      rw [← ofType_unwrap, ← ofType_unwrap c record t rules]
      exact ih fun r hr hdrop => ((seesThrough_takes c r.name).unwrap t).trans (hidle r hr hdrop)
  | bare t hbare hparts =>
      cases t with
      | annotated inner => exact absurd hbare (Ty.unwrap_ne_annotated _ inner)
      | union choices => rw [ofType, ofType, ofOnly_eq_anything _ _ hbare, ofOnly_eq_anything _ _ hbare]
      | record name => simp only [ofType]
      | list item | set frozen item | sequence item =>
          simp only [takes] at hidle
          have hitem := hparts item (List.mem_singleton_self item) hidle.inside
          simp only [ofType, rulesInside_filter, hitem, arrayOf_filter hidle.own]
      | tuple items =>
          simp only [takes] at hidle
          have hfirst : ofFirst (c.pruned chosen) record items ((rulesInside rules).filter keep) =
              ofFirst c record items (rulesInside rules) := by
            cases items with
            | nil => simp only [ofFirst]
            | cons first rest =>
                rw [ofFirst, ofFirst]
                exact hparts first List.mem_cons_self hidle.inside
          simp only [ofType, rulesInside_filter, hfirst, arrayOf_filter hidle.own]
      | dict key item =>
          simp only [takes] at hidle
          have hitem := hparts item (by simp [Ty.madeOf]) hidle.inside
          simp only [ofType, rulesInside_filter, hitem, mapOf_filter hidle.own]
      | bareList | bareTuple | bareSet frozen =>
          simp only [takes] at hidle
          simp only [ofType, arrayOf_filter hidle]
      | bareDict =>
          simp only [takes] at hidle
          simp only [ofType, mapOf_filter hidle]
      | _ =>
          simp only [takes] at hidle
          simp only [ofType, Catalogue.kindOf_pruned, scalarFacts_filter hidle]

end derived

/-! ### Rules that do not apply -/

/-- Where a type, without annotations and the permission to be absent, takes rules of a name. -/
inductive TakenIn (c : Catalogue) (name : String) (t : Ty) : Prop where
  | map (hkind : c.kindOf t = .map)
  | array (hkind : c.kindOf t = .array) (hname : arrayTakes name = true)
  | nested {item : Ty} (hkind : c.kindOf t = .array) (hitem : t.element? = some item)
      (hinner : c.kindOf item = .array ∨ c.kindOf item = .map)
  | items {item : Ty} (hkind : c.kindOf t = .array) (hitem : t.element? = some item)
      (hname : scalarTakes (c.kindOf item) name = true)
  | single (hname : scalarTakes (c.kindOf t) name = true)

section mismatch

variable (c : Catalogue) {name : String}

theorem takenIn_of_item {t item : Ty} (hkind : c.kindOf t = .array) (hitem : t.element? = some item.unwrap.1)
    (htakes : TakenIn c name item.unwrap.1) : TakenIn c name t := by
  cases htakes with
  | map hinner => exact .nested hkind hitem (.inr hinner)
  | array hinner _ => exact .nested hkind hitem (.inl hinner)
  | nested hinner _ _ => exact .nested hkind hitem (.inl hinner)
  | items hinner _ _ => exact .nested hkind hitem (.inl hinner)
  | single hname => exact .items hkind hitem hname

/-- What a type takes is taken by what is left of it: as a map, as a row, inside the items of a row, or as a single
value. -/
theorem takenIn_of_takes (t : Ty) (htakes : takes c name t = true) : TakenIn c name t.unwrap.1 := by
  induction t using Ty.bare_induction with
  | unwrap t ih =>
      rw [← Ty.unwrap_unwrap]
      exact ih (((seesThrough_takes c name).unwrap t).trans htakes)
  | bare t hbare hparts =>
      rw [hbare]
      cases t with
      | annotated inner => exact absurd hbare (Ty.unwrap_ne_annotated _ inner)
      | union choices =>
          rw [takes, takesOnly_eq_false c hbare] at htakes
          cases htakes
      | record name => simp [takes] at htakes
      | list item | set frozen item | sequence item =>
          simp only [takes, Bool.or_eq_true, Bool.and_eq_true] at htakes
          rcases htakes with hown | ⟨-, hinner⟩
          · exact .array rfl hown
          · exact takenIn_of_item c rfl rfl (hparts item (List.mem_singleton_self item) hinner)
      | tuple items =>
          simp only [takes, Bool.or_eq_true, Bool.and_eq_true] at htakes
          rcases htakes with hown | ⟨-, hinner⟩
          · exact .array rfl hown
          · cases items with
            | nil => simp [takesFirst] at hinner
            | cons item rest =>
                rw [takesFirst] at hinner
                exact takenIn_of_item c rfl rfl (hparts item List.mem_cons_self hinner)
      | dict key item => exact .map rfl
      | bareDict => exact .map rfl
      | bareList | bareTuple | bareSet frozen =>
          simp only [takes] at htakes
          exact .array rfl htakes
      | _ =>
          simp only [takes] at htakes
          exact .single htakes

variable {c} {d : Descriptor} {r : Rule}

/-- A rule that says something about single values of a kind applies to fields that hold such values. -/
theorem mismatch?_of_scalarTakes {kind : Kind} (hfits : ∀ test : Kind → Bool, test kind → d.holdsFor test)
    (htakes : scalarTakes kind r.name = true) : d.mismatch? r = none := by
  have hstring := hfits (· == .string)
  have hnumeric := hfits Kind.isNumeric
  have henum := hfits fun k => k == .string || k.isNumeric
  have hformat := hfits fun k => k == .string || k == .moment
  cases kind with
  | string =>
      simp only [scalarTakes, List.contains_cons, List.contains_nil, Bool.or_eq_true, beq_iff_eq,
        Bool.or_false] at htakes
      rcases htakes with hname | hname | hname | hname | hname
      all_goals
        simp [Descriptor.mismatch?, Descriptor.suits?, numericRules, textRules, countRules, itemRules, hname,
          hstring rfl, hformat rfl, henum rfl]
  | integer | float =>
      simp only [scalarTakes, List.contains_cons, List.contains_nil, Bool.or_eq_true, beq_iff_eq,
        Bool.or_false] at htakes
      rcases htakes with hname | hname | hname | hname
      all_goals
        simp [Descriptor.mismatch?, Descriptor.suits?, numericRules, textRules, countRules, itemRules, hname,
          hnumeric rfl, henum rfl]
  | moment =>
      have hname : r.name = "format" := eq_of_beq htakes
      simp [Descriptor.mismatch?, Descriptor.suits?, numericRules, textRules, countRules, itemRules, hname,
        hformat rfl]
  | _ => cases htakes

/-- A rule about the items of an array applies to arrays. -/
theorem mismatch?_of_arrayTakes (hkind : d.kind = .array) (htakes : arrayTakes r.name = true) :
    d.mismatch? r = none := by
  simp only [arrayTakes, List.contains_cons, List.contains_nil, Bool.or_eq_true, beq_iff_eq, Bool.or_false] at htakes
  rcases htakes with hname | hname | hname
  all_goals
    simp [Descriptor.mismatch?, Descriptor.suits?, numericRules, textRules, countRules, itemRules, hname, hkind]

/-- A field whose schema is made of schemas that the check of rules does not look at. -/
def isDeep (d : Descriptor) : Bool :=
  d.kind == .map || (d.kind == .array && d.elementKind.any fun kind => kind == .array || kind == .map)

/-- A rule that does not apply to a field is not taken, but for maps and for arrays of arrays or maps. -/
theorem takes_of_mismatch {f : Field} (hd : c.describeField f = .ok d) (hflat : isDeep d = false)
    (hmismatch : (d.mismatch? r).isSome) : takes c r.name f.type = false := by
  obtain ⟨hkind, helement⟩ := Catalogue.kinds_of_field hd
  by_contra htakes
  have happlies : d.mismatch? r = none := by
    cases takenIn_of_takes c f.type (by simpa using htakes) with
    | map hmap => simp [isDeep, hkind, hmap] at hflat
    | array harray hname => exact mismatch?_of_arrayTakes (hkind.trans harray) hname
    | nested harray hitem hinner => 
        rw [hitem] at helement
        rcases hinner with hinner | hinner <;> simp [isDeep, hkind, harray, helement, hinner] at hflat
    | items harray hitem hname =>
        apply mismatch?_of_scalarTakes _ hname
        intro test htest
        rw [hitem] at helement
        simp [Descriptor.holdsFor, hkind, harray, helement, htest]
    | single hname =>
        apply mismatch?_of_scalarTakes _ hname
        intro test htest
        simp [Descriptor.holdsFor, hkind, htest]
  rw [happlies] at hmismatch
  cases hmismatch

end mismatch

end Intake.Schema
