import Intake.Proofs.Schema.Example
import Intake.Proofs.Value.Entries
import Mathlib.Data.List.Nodup
import Mathlib.Data.String.Basic

/-!
The components of models for documentation are a table of the models that are reached, in both dialects.
It does not matter in which order or how often the models are named.
-/

namespace Intake

namespace Registry

/-- Registries in which the same is found under every name are the same document. -/
theorem toValue_eq {r r' : Registry} (hnodup : r.names.Nodup) (hnodup' : r'.names.Nodup)
    (hsame : ∀ name, r.get? name = r'.get? name) : r.toValue = r'.toValue := by
  have hperm : r.components.Perm r'.components := by
    apply (List.perm_ext_iff_of_nodup hnodup.of_map hnodup'.of_map).mpr
    rintro ⟨name, s⟩
    rw [← lookup_eq_some_iff_mem hnodup, ← lookup_eq_some_iff_mem hnodup']
    exact iff_of_eq (congrArg (· = some s) (hsame name))
  have hsorted : ∀ components : List (String × Schema),
      (components.mergeSort fun a b => !(b.1 < a.1)).Pairwise fun a b => !(b.1 < a.1) := by
    refine List.pairwise_mergeSort (fun a b c hab hbc => ?_) fun a b => ?_
    · simp only [Bool.not_eq_true', decide_eq_false_iff_not, not_lt] at *
      exact le_trans hab hbc
    · simp only [Bool.or_eq_true, Bool.not_eq_true', decide_eq_false_iff_not, not_lt]
      exact le_total a.1 b.1
  have heq : r.sorted = r'.sorted := by
    refine List.Perm.eq_of_pairwise (fun a b ha hb hab hba => ?_) (hsorted r.components)
      (hsorted r'.components)
      ((List.mergeSort_perm _ _).trans (hperm.trans (List.mergeSort_perm _ _).symm))
    -- Names that are not in either order are the same, and then so are the entries.
    simp only [Bool.not_eq_true', decide_eq_false_iff_not, not_lt] at hab hba
    exact List.inj_on_of_nodup_map hnodup (List.mem_mergeSort.mp ha)
      (hperm.mem_iff.mpr (List.mem_mergeSort.mp hb)) (le_antisymm hab hba)
  rw [toValue, toValue, heq]

end Registry

namespace Schema

open Registering (Yields)

variable {c : Catalogue} {roots : List String}

/-- What makes documentation of models possible: every model that is reached has a description and a
component name of its own, and its mock record, if it is accepted, can be written. -/
structure Documentable (c : Catalogue) (roots : List String) : Prop where
  described : ∀ m, Reaches c .json roots m → ∃ fields, c.describe m = .ok fields
  written : ∀ m, Reaches c .xml roots m → ∀ v, Mock.record? c m.name = .ok (.ok v) →
    ∃ text, Markup.encode c v none true = .ok text
  distinct : ∀ dialect m dialect' m', Reaches c dialect roots m → Reaches c dialect' roots m' →
    dialect.componentName m = dialect'.componentName m' → dialect = dialect' ∧ m = m'

/-- A model that is reached is the one of its name. -/
theorem model?_of_reaches {dialect : Dialect} {m : Model} (hm : Reaches c dialect roots m) :
    c.model? m.name = some m := by
  have hfound : ∃ name, c.model? name = some m := by
    cases hm with
    | root hroot hmodel => exact ⟨_, hmodel⟩
    | field hm hfields hd hname hmodel => exact ⟨_, hmodel⟩
  obtain ⟨name, hname⟩ := hfound
  have hsame : m.name = name := by simpa using List.find?_some hname
  rw [hsame, hname]

theorem Documentable.hasExample (hdoc : Documentable c roots) {m : Model} (hm : Reaches c .xml roots m) :
    HasExample c m :=
  hasExample_of_written hdoc.described (model?_of_reaches hm) (reaches_json_of_reaches hm)
    (hdoc.written m hm)

/-- The round of one model: its component in plain documents, and in documents of elements. -/
def registerOne (c : Catalogue) (model : String) : Registering (ForInStep PUnit) := do
  discard (ofJson c (.record model))
  discard (ofXml c (.record model) none)
  return .yield PUnit.unit

theorem missing_lt (c : Catalogue) (dialect : Dialect) (r : Registry) :
    missing c dialect r < c.models.length + 1 :=
  Nat.lt_succ_of_le List.countP_le_length

/-- Putting one model into the registry puts its component in both dialects. -/
theorem exists_registerOne (hdoc : Documentable c roots) {model : String} (hroot : model ∈ roots)
    {r : Registry} (hopen : r.frozen = false) :
    ∃ r', Yields (registerOne c model) r (.yield PUnit.unit) r' ∧ Grows c roots r r' ∧
      ∀ m, c.model? model = some m → ∀ dialect : Dialect,
        r'.contains (dialect.componentName m) = true := by
  have hreach : ∀ dialect m, c.model? model = some m → Reaches c dialect roots m :=
    fun dialect m hmodel => Reaches.root hroot hmodel
  have hvisits := fun dialect => visitsWell_component? hdoc.described (fun m => hdoc.hasExample)
    dialect (c.models.length + 1)
  obtain ⟨r₁, hjson, hgrows₁, hthere₁⟩ :=
    hvisits .json model r hopen (missing_lt c .json r) (hreach .json)
  obtain ⟨r₂, hxml, hgrows₂, hthere₂⟩ :=
    hvisits .xml model r₁ (hgrows₁.frozen.trans hopen) (missing_lt c .xml r₁) (hreach .xml)
  refine ⟨r₂, ?_, hgrows₁.trans hgrows₂, ?_⟩
  · exact (hjson.bind (Yields.pure _ r₁)).discard.bind (hxml.discard.bind (Yields.pure _ r₂))
  · intro m hmodel dialect
    cases dialect with
    | json => exact hgrows₂.contains (hthere₁ m hmodel)
    | xml => exact hthere₂ m hmodel

/-- Putting models into the registry one after another puts the components of them all. -/
theorem exists_registerEach (hdoc : Documentable c roots) (models : List String)
    (hroots : ∀ model ∈ models, model ∈ roots) {r : Registry} (hopen : r.frozen = false) :
    ∃ r', Yields (forIn models PUnit.unit fun model _ => registerOne c model) r PUnit.unit r' ∧
      Grows c roots r r' ∧
      ∀ model ∈ models, ∀ m, c.model? model = some m → ∀ dialect : Dialect,
        r'.contains (dialect.componentName m) = true := by
  induction models generalizing r with
  | nil => exact ⟨r, Yields.pure _ r, Grows.refl r, by simp⟩
  | cons model rest ih =>
      obtain ⟨r₁, hone, hgrows₁, hthere₁⟩ :=
        exists_registerOne hdoc (hroots model List.mem_cons_self) hopen
      obtain ⟨r₂, hrest, hgrows₂, hthere₂⟩ :=
        ih (fun other hother => hroots other (List.mem_cons_of_mem model hother))
          (hgrows₁.frozen.trans hopen)
      refine ⟨r₂, ?_, hgrows₁.trans hgrows₂, ?_⟩
      · rw [List.forIn_cons]
        exact hone.bind hrest
      · intro other hother m hmodel dialect
        rcases List.mem_cons.mp hother with rfl | hother
        · exact hgrows₂.contains (hthere₁ m hmodel dialect)
        · exact hthere₂ other hother m hmodel dialect

/-- The registry of a documentation: every model that is reached has its finished component there, and
nothing else is there. -/
structure IsTable (c : Catalogue) (roots : List String) (r : Registry) : Prop where
  frozen : r.frozen = true
  nodup : r.names.Nodup
  entries : ∀ name s, r.get? name = some s ↔
    ∃ dialect m, Reaches c dialect roots m ∧ name = dialect.componentName m ∧
      s = finished c dialect m

/-- Putting models into a fresh registry makes the table of the models that are reached from them. -/
theorem exists_table (hdoc : Documentable c roots) (models : List String)
    (hsame : ∀ model, model ∈ models ↔ model ∈ roots) :
    ∃ r, Yields (registerAll c models false) (startingFrom none) () r ∧ IsTable c roots r := by
  obtain ⟨r, heach, hgrows, hthere⟩ :=
    exists_registerEach hdoc models (fun model => (hsame model).mp) (r := Registry.empty) rfl
  have hfound : ∀ dialect m, Reaches c dialect roots m →
      r.contains (dialect.componentName m) = true →
      r.get? (dialect.componentName m) = some (finished c dialect m) ∧ IsClosedAt c dialect r m := by
    intro dialect m hm hname
    obtain ⟨s, hs⟩ := Option.isSome_iff_exists.mp hname
    rcases hgrows.added _ s hs with hnone | ⟨dialect', m', hm', hname', rfl, hclosed⟩
    · cases hnone
    · obtain ⟨rfl, rfl⟩ := hdoc.distinct dialect m dialect' m' hm hm' hname'
      exact ⟨hs, hclosed⟩
  have hall : ∀ dialect m, Reaches c dialect roots m →
      r.contains (dialect.componentName m) = true := by
    intro dialect m hm
    induction hm with
    | root hroot hmodel => exact hthere _ ((hsame _).mpr hroot) _ hmodel dialect
    | field hm hfields hd hname hmodel ih =>
        exact (hfound dialect _ hm ih).2 _ hfields _ (mem_namesInside.mpr ⟨_, hd, hname⟩) _ hmodel
  refine ⟨{ r with frozen := true }, ?_, rfl, hgrows.nodup List.nodup_nil, ?_⟩
  · rw [registerAll]
    simp only [Bool.false_eq_true, if_false]
    exact heach.bind fun j => ⟨_, rfl⟩
  · intro name s
    constructor
    · intro hs
      rcases hgrows.added name s hs with hnone | ⟨dialect, m, hm, hname, hs, -⟩
      · cases hnone
      · exact ⟨dialect, m, hm, hname, hs⟩
    · rintro ⟨dialect, m, hm, rfl, rfl⟩
      exact (hfound dialect m hm (hall dialect m hm)).1

/-- What stands in the table refers to what stands in the table. -/
theorem IsTable.contains_of_reference (hdoc : Documentable c roots) {r : Registry}
    (htable : IsTable c roots r) {name target : String} {s : Schema} (hs : r.get? name = some s)
    (htarget : target ∈ s.references) :
    ∃ inner, target = componentsPath ++ inner ∧ r.contains inner = true := by
  obtain ⟨dialect, m, hm, -, rfl⟩ := (htable.entries name s).mp hs
  obtain ⟨fields, hfields⟩ := hdoc.described m (reaches_json_of_reaches hm)
  obtain ⟨⟨hrefer, -⟩, -⟩ := derives_finished hfields fun hxml => hdoc.hasExample (hxml ▸ hm)
  obtain ⟨inner, hinner, next, hnext, rfl⟩ := hrefer target htarget
  obtain ⟨d, hd, hleads⟩ := mem_namesInside.mp hinner
  refine ⟨_, rfl, Option.isSome_iff_exists.mpr ⟨finished c dialect next, ?_⟩⟩
  exact (htable.entries _ _).mpr ⟨dialect, next, Reaches.field hm hfields hd hleads hnext, rfl, rfl⟩

/-- What stands in the table is finished. -/
theorem IsTable.ne_placeholder (hdoc : Documentable c roots) {r : Registry}
    (htable : IsTable c roots r) {name : String} {s : Schema} (hs : r.get? name = some s) :
    s ≠ Registry.placeholder name := by
  obtain ⟨dialect, m, hm, -, rfl⟩ := (htable.entries name s).mp hs
  obtain ⟨fields, hfields⟩ := hdoc.described m (reaches_json_of_reaches hm)
  obtain ⟨-, facts, properties, hnode⟩ :=
    derives_finished hfields fun hxml => hdoc.hasExample (hxml ▸ hm)
  rw [hnode]
  intro hsame
  cases hsame

/-- The models that are reached determine the table. -/
theorem IsTable.unique {r r' : Registry} (htable : IsTable c roots r) (htable' : IsTable c roots r') :
    (∀ name, r.get? name = r'.get? name) ∧ r.toValue = r'.toValue := by
  have hsame : ∀ name, r.get? name = r'.get? name := by
    intro name
    apply Option.ext
    intro s
    rw [htable.entries, htable'.entries]
  exact ⟨hsame, Registry.toValue_eq htable.nodup htable'.nodup hsame⟩

/-- A documentation holds the finished component of every model that is reached, in both dialects, and
nothing else; every reference in it leads to one of its entries; and other lists of the same models make
the same documentation. -/
theorem registerAll_makes_table (hdoc : Documentable c roots) :
    ∃ r, Yields (registerAll c roots false) (startingFrom none) () r ∧ IsTable c roots r ∧
      (∀ name s, r.get? name = some s → s ≠ Registry.placeholder name ∧
        ∀ target ∈ s.references, ∃ inner, target = componentsPath ++ inner ∧
          r.contains inner = true) ∧
      ∀ models : List String, (∀ model, model ∈ models ↔ model ∈ roots) →
        ∃ r', Yields (registerAll c models false) (startingFrom none) () r' ∧
          (∀ name, r'.get? name = r.get? name) ∧ r'.toValue = r.toValue := by
  obtain ⟨r, hyields, htable⟩ := exists_table hdoc roots fun model => Iff.rfl
  refine ⟨r, hyields, htable, ?_, ?_⟩
  · intro name s hs
    exact ⟨htable.ne_placeholder hdoc hs, fun target => htable.contains_of_reference hdoc hs⟩
  · intro models hmodels
    obtain ⟨r', hyields', htable'⟩ := exists_table hdoc models hmodels
    exact ⟨r', hyields', htable'.unique htable⟩

/-- A model of texts that leads to itself, in lists and where it may be absent. -/
def treeModel : Model :=
  ⟨"Tree", "app", "Tree", none, .strict, [],
    [⟨"label", .str, none, none, Annotations.none, none, ⟨none, none, none⟩⟩,
      ⟨"kids", .list (.record "Tree"), some .emptyList, none, Annotations.none, none,
        ⟨none, none, none⟩⟩,
      ⟨"next", .union [.record "Tree", .null], some (.value .null), none, Annotations.none, none,
        ⟨none, none, none⟩⟩]⟩

/-- A model that leads to itself and has a default that no array could be. -/
def loopModel : Model :=
  ⟨"Loop", "app", "Loop", none, .strict, [],
    [⟨"inner", .record "Loop", some (.value .null), none, Annotations.none, none,
        ⟨none, none, none⟩⟩,
      ⟨"tags", .list .str, some (.value (.int 5)), none, Annotations.none, none,
        ⟨none, none, none⟩⟩]⟩

/-- In a catalogue of one model only that model is reached. -/
theorem eq_of_reaches_single {m m' : Model} {dialect : Dialect}
    (hm : Reaches ⟨[m], []⟩ dialect roots m') : m' = m := by
  have hfound := List.mem_of_find?_eq_some (model?_of_reaches hm)
  simpa using hfound

/-- The names of one model in the two dialects differ. -/
theorem distinct_of_single {m : Model} (hm : Dialect.json.componentName m ≠ Dialect.xml.componentName m)
    (dialect : Dialect) (first : Model) (dialect' : Dialect) (second : Model)
    (hfirst : Reaches ⟨[m], []⟩ dialect roots first)
    (hsecond : Reaches ⟨[m], []⟩ dialect' roots second)
    (hname : dialect.componentName first = dialect'.componentName second) :
    dialect = dialect' ∧ first = second := by
  rw [eq_of_reaches_single hfirst, eq_of_reaches_single hsecond] at hname ⊢
  cases dialect <;> cases dialect'
  · exact ⟨rfl, rfl⟩
  · exact absurd hname hm
  · exact absurd hname.symm hm
  · exact ⟨rfl, rfl⟩

/-- Whether an example can be written. -/
def isWritten (c : Catalogue) (name : String) : Bool :=
  match Mock.record? c name with
  | .ok (.ok v) => (Markup.encode c v none true).isOk
  | _ => true

theorem documentable_tree : Documentable ⟨[treeModel], []⟩ ["Tree"] := by
  refine ⟨?_, ?_, distinct_of_single (by decide +kernel)⟩
  · intro m hm
    rw [eq_of_reaches_single hm]
    exact ⟨_, rfl⟩
  · intro m hm v hv
    have hwritten : isWritten ⟨[treeModel], []⟩ "Tree" = true := by decide +kernel
    rw [eq_of_reaches_single hm] at hv
    change Mock.record? _ "Tree" = _ at hv
    rw [isWritten, hv] at hwritten
    dsimp only at hwritten
    cases htext : Markup.encode ⟨[treeModel], []⟩ v none true with
    | ok text => exact ⟨text, rfl⟩
    | error fault =>
        rw [htext] at hwritten
        cases hwritten

/-- A model that leads to itself is documented. -/
theorem registerAll_makes_table_tree :
    Documentable ⟨[treeModel], []⟩ ["Tree"] ∧
      ∃ r, Yields (registerAll ⟨[treeModel], []⟩ ["Tree"] false) (startingFrom none) () r ∧
        IsTable ⟨[treeModel], []⟩ ["Tree"] r := by
  obtain ⟨r, hyields, htable, -⟩ := registerAll_makes_table documentable_tree
  exact ⟨documentable_tree, r, hyields, htable⟩

/-- A default that is not validated can stand in the way: the model has a description, its names
differ and its mock record is accepted, but the record inside takes the default, which no array
could be. -/
theorem registerAll_fails_on_default :
    (∀ m, Reaches ⟨[loopModel], []⟩ .json ["Loop"] m →
        ∃ fields, Catalogue.describe ⟨[loopModel], []⟩ m = .ok fields) ∧
      (∀ dialect m dialect' m', Reaches ⟨[loopModel], []⟩ dialect ["Loop"] m →
        Reaches ⟨[loopModel], []⟩ dialect' ["Loop"] m' →
        dialect.componentName m = dialect'.componentName m' → dialect = dialect' ∧ m = m') ∧
      Registering.fault? (registerAll ⟨[loopModel], []⟩ ["Loop"] false) (startingFrom none)
        Journal.empty = some (.noItems "int") ∧
      ¬ ∃ r, Yields (registerAll ⟨[loopModel], []⟩ ["Loop"] false) (startingFrom none) () r := by
  have hfault : Registering.fault? (registerAll ⟨[loopModel], []⟩ ["Loop"] false) (startingFrom none)
      Journal.empty = some (.noItems "int") := by decide +kernel
  refine ⟨?_, distinct_of_single (by decide +kernel), hfault, ?_⟩
  · intro m hm
    rw [eq_of_reaches_single hm]
    exact ⟨_, rfl⟩
  · rintro ⟨r, hyields⟩
    obtain ⟨later, hlater⟩ := hyields Journal.empty
    rw [Registering.fault?, hlater] at hfault
    cases hfault

end Schema
end Intake
