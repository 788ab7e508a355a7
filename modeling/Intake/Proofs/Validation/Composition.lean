import Mathlib
import Intake.Proofs.Model.Instance
import Intake.Proofs.Model.MadeOf
import Intake.Proofs.Validation.Return

/-!
Validation put together from its parts. What a record reports is what its fields report, one after the other; a
field reports what its own rules find, its empty items, and what the records inside it report by themselves, with
the way to the field, or to the item, in front of the way to theirs.
-/

namespace Intake

/-- An error of a record that is found behind a way. -/
def FieldError.under (place : String) (e : FieldError) : FieldError := { e with field := place ++ "." ++ e.field }

namespace Validation

variable {c : Catalogue}

/-- The errors of a record that is found behind a way; what is noted is noted all the same. -/
def behind (place : String) (errors : Action (List FieldError)) : Action (List FieldError) :=
  List.map (FieldError.under place) <$> errors

/-- What the records in a row report, each behind the way to it. A value that is no row holds none; one that
cannot be gone through is a fault, unless it is nothing. -/
def itemReports (c : Catalogue) (place : String) (v : Value) : Action (List FieldError) :=
  match v.items? with
  | some xs => do
    let reports ← xs.zipIdx.mapM fun (x, i) => behind (indexed place i) (validate c x)
    return reports.flatten
  | none =>
    if isFalsy v then pure []
    else do
      discard (itemsOf v : Except Fault (List Value))
      return []

/-- What the records inside the value of a field report: the record that it is, or those in a row. -/
def recordReports (c : Catalogue) (d : Descriptor) (v : Value) : Action (List FieldError) :=
  match d.kind, d.elementKind with
  | .record, _ => behind d.wireName (validate c v)
  | .array, some .record => itemReports c d.wireName v
  | _, _ => pure []

/-- What a field reports that holds a value: the errors of its rules in their order, those of its empty items,
and those of the records inside it. -/
def fieldReport (c : Catalogue) (m : Model) (d : Descriptor) (v : Value) : Action (List FieldError) := do
  let rules ← applicableRules m d
  let errors ← rules.mapM (applyRule c m d d.wireName v)
  let empty ← (emptyItemErrors d d.wireName v : Except Fault (List FieldError))
  return errors.flatten ++ empty ++ (← recordReports c d v)

/-! ### Operations whose errors are behind a way -/

@[simp] theorem behind_pure (p : String) (errors : List FieldError) :
    behind p (pure errors) = pure (errors.map (FieldError.under p)) := rfl

theorem behind_bind {α : Type} (p : String) (a : Action α) (f : α → Action (List FieldError)) :
    behind p (a >>= f) = a >>= fun v => behind p (f v) := by
  simp only [behind, map_bind]

/-- The ways from one place are the ways from another, behind a way. -/
def IsBehind (p place base : String) : Prop := ∀ name, join place name = p ++ "." ++ join base name

theorem isBehind_top {p : String} (hp : p ≠ "") : IsBehind p p "" := by
  intro name
  simp [join, String.isEmpty_iff, hp]

theorem isBehind_below {p base : String} (hbase : base ≠ "") : IsBehind p (p ++ "." ++ base) base := by
  intro name
  simp [join, String.isEmpty_iff, hbase, String.append_assoc]

theorem join_ne_empty {base name : String} (hname : name ≠ "") : join base name ≠ "" := by
  unfold join
  split
  · exact hname
  · simp [String.append_eq_empty_iff]

theorem IsBehind.join {p place base name : String} (h : IsBehind p place base) (hname : name ≠ "") :
    IsBehind p (join place name) (join base name) := by
  rw [h name]
  exact isBehind_below (join_ne_empty hname)

theorem isBehind_indexed (p path : String) (i : Nat) :
    IsBehind p (indexed (p ++ "." ++ path) i) (indexed path i) := by
  have hway : indexed (p ++ "." ++ path) i = p ++ "." ++ indexed path i := by
    simp [indexed, String.append_assoc]
  rw [hway]
  exact isBehind_below (by simp [indexed, String.append_eq_empty_iff])

/-! ### The errors of a field itself -/

variable {m : Model} {d : Descriptor} {p path : String} {v : Value}

/-- A rule finds the same wherever its field is. -/
theorem applyRule_behind (r : Rule) :
    applyRule c m d (p ++ "." ++ path) v r = behind p (applyRule c m d path v r) := by
  unfold applyRule
  split
  · rw [behind_bind]
    congr 1
    funext zero
    cases zero <;> rfl
  · split
    · rfl
    · split
      · split
        · rw [behind_bind]
          rfl
        · rfl
      · split
        · rfl
        · rfl
        · rw [behind_bind]
          rfl
        · rfl

theorem emptyItemErrors_behind :
    emptyItemErrors d (p ++ "." ++ path) v = List.map (FieldError.under p) <$> emptyItemErrors d path v := by
  unfold emptyItemErrors
  split
  · split
    · rfl
    · simp only [map_eq_pure_bind, bind_assoc, pure_bind, List.map_map]
      rfl
  · rfl

/-- A field finds the same in itself wherever it is. -/
theorem fieldErrors_behind :
    fieldErrors c m d (p ++ "." ++ path) v = behind p (fieldErrors c m d path v) := by
  have hrules (rules : List Rule) : rules.mapM (applyRule c m d (p ++ "." ++ path) v) =
      List.map (List.map (FieldError.under p)) <$> rules.mapM (applyRule c m d path v) := by
    induction rules with
    | nil => rfl
    | cons r rest ih =>
        simp only [List.mapM_cons, ih, applyRule_behind, behind, map_eq_pure_bind, bind_assoc, pure_bind,
          List.map_cons]
  simp only [fieldErrors, hrules, emptyItemErrors_behind, behind, map_eq_pure_bind, bind_assoc, pure_bind,
    List.map_append, List.map_flatten, liftM_bind]
  rfl

/-! ### The records inside a value -/

/-- Every field of every model has a name. -/
def IsNamed (c : Catalogue) : Prop := ∀ m ∈ c.models, ∀ f ∈ m.fields, f.name ≠ ""

theorem wireName_ne_empty (hnamed : IsNamed c) {name : String} {fields : List Descriptor}
    (hm : c.model? name = some m) (hfields : c.describe m = .ok fields) (hd : d ∈ fields) : d.wireName ≠ "" := by
  obtain ⟨f, hf, hdescribed⟩ := Catalogue.exists_field_of_mem_describe hfields hd
  have hname := hnamed m (List.mem_of_find?_eq_some hm) f hf
  rw [(Catalogue.names_of_describeField hdescribed).2.1, Field.wireName]
  split
  · split
    · exact hname
    · rename_i hkey
      simpa using hkey
  · exact hname

/-- What is inside a value is found wherever the value is: in the same order, with the same notes and faults, and
behind the way to the value. -/
structure Inside.Moves (i : Inside) : Prop where
  whole {p place base : String} (h : IsBehind p place base) : i.whole place = behind p (i.whole base)
  items (p path : String) : i.items (p ++ "." ++ path) = behind p (i.items path)

theorem moves_nothing : Inside.nothing.Moves := ⟨fun _ => rfl, fun _ _ => rfl⟩

theorem moves_ofOther (v : Value) : (Inside.ofOther v).Moves := by
  refine ⟨fun _ => rfl, fun p path => ?_⟩
  simp only [Inside.ofOther]
  split
  · rfl
  · rw [behind_bind]
    rfl

theorem insideErrors_behind {i : Inside} (hi : i.Moves) (hpath : path ≠ "") :
    insideErrors d (p ++ "." ++ path) i = behind p (insideErrors d path i) := by
  unfold insideErrors
  split
  · exact hi.whole (isBehind_below hpath)
  · exact hi.items p path
  · rfl

/-- The fields of a record find the same wherever the record is, if what is inside them does. -/
theorem validateFields_behind {place base : String} {attributes : List (String × Value)}
    {insides : List (String × Inside)} (hinsides : ∀ i ∈ insides, i.2.Moves) (hplace : IsBehind p place base)
    {ds : List Descriptor} (hnames : ∀ d ∈ ds, d.wireName ≠ "") :
    validateFields c m place attributes insides ds = behind p (validateFields c m base attributes insides ds) := by
  induction ds with
  | nil => rfl
  | cons d rest ih =>
      have hrest := ih fun e he => hnames e (List.mem_cons_of_mem d he)
      have hpath : join base d.wireName ≠ "" := join_ne_empty (hnames d List.mem_cons_self)
      have hinside : ((insides.lookup d.name).getD .nothing).Moves := by
        cases hfound : insides.lookup d.name with
        | none => exact moves_nothing
        | some i =>
            obtain ⟨before, after, hall, -⟩ := List.lookup_eq_some_iff.mp hfound
            exact hinsides (d.name, i) (by simp [hall])
      simp only [validateFields, hplace d.wireName, fieldErrors_behind, insideErrors_behind hinside hpath, hrest,
        behind, map_eq_pure_bind, bind_assoc, pure_bind, List.map_append]

theorem moves_insideEach {attributes : List (String × Value)} (hattributes : ∀ a ∈ attributes, (inside c a.2).Moves) :
    ∀ i ∈ insideEach c attributes, i.2.Moves := by
  induction attributes with
  | nil => simp [insideEach]
  | cons a rest ih =>
      obtain ⟨ha, hrest⟩ := List.forall_mem_cons.mp hattributes
      rw [insideEach]
      exact List.forall_mem_cons.mpr ⟨ha, ih hrest⟩

theorem insideItems_behind {xs : List Value} (hxs : ∀ x ∈ xs, (inside c x).Moves) (i : Nat) (p path : String) :
    insideItems c i xs (p ++ "." ++ path) = behind p (insideItems c i xs path) := by
  induction xs generalizing i with
  | nil => rfl
  | cons x rest ih =>
      obtain ⟨hx, hrest⟩ := List.forall_mem_cons.mp hxs
      have hfirst := hx.whole (isBehind_indexed p path i)
      have hlater := ih hrest (i + 1)
      simp only [insideItems, hfirst, hlater, behind, map_eq_pure_bind, bind_assoc, pure_bind, List.map_append]

/-- What is inside a value is found wherever the value is. -/
theorem moves_inside (hnamed : IsNamed c) (v : Value) : (inside c v).Moves := by
  induction v using Value.madeOf_induction with
  | step v hinside =>
      cases v with
      | record name attributes =>
          have hattributes := moves_insideEach fun a ha => hinside a.2 (Value.mem_madeOf_record ha)
          refine ⟨fun {p place base} hplace => ?_, fun _ _ => by simp [inside]⟩
          simp only [inside]
          split
          · rfl
          · rename_i m hm
            cases hfields : Action.describe c m with
            | error fault => rfl
            | ok fields =>
                exact validateFields_behind hattributes hplace fun d hd =>
                  wireName_ne_empty hnamed hm (Action.of_describe_eq_ok hfields) hd
      | list xs | tuple xs | set _ xs => exact ⟨fun _ => rfl, insideItems_behind hinside 0⟩
      | _ => exact moves_ofOther _

/-- A record in a place reports what it reports by itself, behind the way to the place. -/
theorem whole_behind (hnamed : IsNamed c) {place : String} (hplace : place ≠ "") (y : Value) :
    (inside c y).whole place = behind place (validate c y) :=
  (moves_inside hnamed y).whole (isBehind_top hplace)

theorem insideItems_eq (hnamed : IsNamed c) (place : String) (xs : List Value) (first : Nat) :
    insideItems c first xs place = do
      let reports ← (xs.zipIdx first).mapM fun (x, i) => behind (indexed place i) (validate c x)
      return reports.flatten := by
  induction xs generalizing first with
  | nil => rfl
  | cons x rest ih =>
      have hplace : indexed place first ≠ "" := by simp [indexed, String.append_eq_empty_iff]
      simp only [insideItems, whole_behind hnamed hplace x, ih (first + 1), List.zipIdx_cons, List.mapM_cons,
        bind_assoc, pure_bind, List.flatten_cons]

theorem items_eq_itemReports (hnamed : IsNamed c) (place : String) (v : Value) :
    (inside c v).items place = itemReports c place v := by
  cases v with
  | list xs | tuple xs | set _ xs => exact insideItems_eq hnamed place xs 0
  | _ => rfl

theorem insideErrors_eq (hnamed : IsNamed c) (hname : d.wireName ≠ "") (v : Value) :
    insideErrors d d.wireName (inside c v) = recordReports c d v := by
  rw [insideErrors, whole_behind hnamed hname, items_eq_itemReports hnamed]
  rfl

/-- The fields of a record report one after the other. -/
theorem validateFields_eq (hnamed : IsNamed c) (attributes : List (String × Value)) {ds : List Descriptor}
    (hnames : ∀ d ∈ ds, d.wireName ≠ "") :
    validateFields c m "" attributes (insideEach c attributes) ds = do
      let reports ← ds.mapM fun d => fieldReport c m d (held attributes d)
      return reports.flatten := by
  induction ds with
  | nil => rfl
  | cons d rest ih =>
      have hrest := ih fun e he => hnames e (List.mem_cons_of_mem d he)
      have htop : join "" d.wireName = d.wireName := rfl
      have hinside := insideErrors_eq hnamed (hnames d List.mem_cons_self) (held attributes d)
      simp only [validateFields, hrest, inside_held, htop, hinside, fieldReport, fieldErrors, List.mapM_cons,
        List.flatten_cons, bind_assoc, pure_bind]
      rfl

/-- Validation is put together from its parts. A record reports what its fields report, in their order; and in
any place, a value reports what it reports by itself, behind the way to the place. -/
theorem validate_compositional (hnamed : IsNamed c) :
    (∀ name attributes m, c.model? name = some m →
      validate c (.record name attributes) = do
        let fields ← (Action.describe c m : Except Fault (List Descriptor))
        let reports ← fields.mapM fun d => fieldReport c m d (held attributes d)
        return reports.flatten) ∧
    ∀ place y, place ≠ "" → validateUnder c place y = behind place (validate c y) := by
  constructor
  · intro name attributes m hm
    simp only [validate, validateUnder, inside, hm]
    cases hfields : Action.describe c m with
    | error fault => rfl
    | ok fields =>
        exact validateFields_eq hnamed attributes fun d hd =>
          wireName_ne_empty hnamed hm (Action.of_describe_eq_ok hfields) hd
  · intro place y hplace
    exact whole_behind hnamed hplace y

/-! ### An invoice -/

/-- An invoice has a buyer and lines; buyers and lines have a name that is needed. -/
def invoiceCatalogue : Catalogue :=
  ⟨[plainModel "Party" [ruledField "name" .str "required"],
    plainModel "Invoice" [plainField "buyer" (.record "Party"),
      plainField "lines" (.list (.record "Party"))]], []⟩

def nameless : Value := .record "Party" [("name", .text "")]

def invoice : Value :=
  .record "Invoice" [("buyer", nameless), ("lines", .list [.record "Party" [("name", .text "ink")], nameless])]

/-- Two names are missing in an invoice; behind a way to the invoice, the same two are. -/
theorem validate_compositional_invoice :
    IsNamed invoiceCatalogue ∧
      ((validate invoiceCatalogue invoice).outcome Journal.empty).1 =
        .ok [⟨"buyer.name", "is required"⟩, ⟨"lines[1].name", "is required"⟩] ∧
      validateUnder invoiceCatalogue "orders[0]" invoice = behind "orders[0]" (validate invoiceCatalogue invoice) := by
  have hnamed : IsNamed invoiceCatalogue := by
    unfold IsNamed
    decide
  exact ⟨hnamed, by cbv, (validate_compositional hnamed).2 "orders[0]" invoice (by decide)⟩

end Validation
end Intake
