import Intake.Proofs.Schema.Filling
import Intake.Proofs.Uuid

/-!
What the names of components tell apart. A name spells the module and the qualified name of a model, without the
marks of functions and with the ending of the dialect, but one underscore stands for all characters that are
neither letters nor digits of ASCII, dots or hyphens. So models that are spelled alike share one component, and in
a documentation a model is referred to by its own schema if no other model, in either dialect, is spelled like it.
-/

namespace Intake

/-! ### Characters and spellings -/

/-- Whether a character stands for itself alone in the names of components. -/
def standsAlone (c : Char) : Bool := c.isAlphanum || c == '.' || c == '-'

/-- Whether the names of components do not tell two characters apart. -/
def LooksLike (a b : Char) : Prop := a = b ∨ (standsAlone a = false ∧ standsAlone b = false)

theorem nameChar_of_standsAlone {c : Char} (hc : standsAlone c = true) : nameChar c = c := by
  have hkept : (c.isAlphanum || c == '.' || c == '_' || c == '-') = true := by
    simp only [standsAlone, Bool.or_eq_true] at hc ⊢
    tauto
  rw [nameChar, if_pos hkept]

theorem nameChar_of_not_standsAlone {c : Char} (hc : standsAlone c = false) : nameChar c = '_' := by
  rw [nameChar]
  split
  · rename_i hkept
    simp only [standsAlone, Bool.or_eq_false_iff] at hc
    simpa [hc.1.1, hc.1.2, hc.2] using hkept
  · rfl

theorem standsAlone_nameChar_iff {c : Char} : standsAlone (nameChar c) = standsAlone c := by
  cases hc : standsAlone c with
  | true => rw [nameChar_of_standsAlone hc, hc]
  | false =>
      rw [nameChar_of_not_standsAlone hc]
      rfl

theorem nameChar_eq_iff {a b : Char} : nameChar a = nameChar b ↔ LooksLike a b := by
  constructor
  · intro hsame
    have halone : standsAlone a = standsAlone b := by
      rw [← standsAlone_nameChar_iff, hsame, standsAlone_nameChar_iff]
    cases ha : standsAlone a with
    | true =>
        rw [nameChar_of_standsAlone ha, nameChar_of_standsAlone (halone.symm.trans ha)] at hsame
        exact Or.inl hsame
    | false => exact Or.inr ⟨ha, halone.symm.trans ha⟩
  · rintro (rfl | ⟨ha, hb⟩)
    · rfl
    · rw [nameChar_of_not_standsAlone ha, nameChar_of_not_standsAlone hb]

/-- Whether two texts have characters that look like each other, one by one. -/
def SpelledAlike (s t : String) : Prop := List.Forall₂ LooksLike s.toList t.toList

/-- The module of a model and its qualified name without the marks of functions. -/
def Model.path (m : Model) : String := m.moduleName ++ "." ++ Text.remove "<locals>." m.qualifiedName

/-- Whether module and qualified name have only characters that the names of components keep. -/
structure Model.IsPlain (m : Model) : Prop where
  moduleName : ∀ c ∈ m.moduleName.toList, nameChar c = c
  qualifiedName : ∀ c ∈ m.qualifiedName.toList, nameChar c = c

theorem Model.isPlain_iff {m : Model} :
    m.IsPlain ↔ (m.moduleName.toList.all (fun c => nameChar c == c) = true ∧
      m.qualifiedName.toList.all (fun c => nameChar c == c) = true) := by
  simp only [List.all_eq_true, beq_iff_eq]
  exact ⟨fun h => ⟨h.moduleName, h.qualifiedName⟩, fun h => ⟨h.1, h.2⟩⟩

instance (m : Model) : Decidable m.IsPlain := decidable_of_iff _ Model.isPlain_iff.symm

namespace Schema

open Registering (Yields)

variable {c : Catalogue} {dialect dialect' : Dialect} {m m' : Model}

/-- What the name of a component spells. -/
def Dialect.spelling (dialect : Dialect) (m : Model) : String := m.path ++ dialect.ending

/-- Every character of an ending stands for itself. -/
theorem map_nameChar_ending (dialect : Dialect) : dialect.ending.toList.map nameChar = dialect.ending.toList := by
  cases dialect <;> decide

theorem toList_componentName (dialect : Dialect) (m : Model) :
    (dialect.componentName m).toList = (dialect.spelling m).toList.map nameChar := by
  rw [Dialect.spelling, String.toList_append, List.map_append, map_nameChar_ending, Dialect.componentName,
    String.toList_append, Model.componentName, String.toList_ofList]
  rfl

/-- Names of components are the same exactly if they spell what looks the same. -/
theorem componentName_eq_iff :
    dialect.componentName m = dialect'.componentName m' ↔
      SpelledAlike (dialect.spelling m) (dialect'.spelling m') := by
  rw [← String.toList_inj, toList_componentName, toList_componentName, SpelledAlike, ← List.forall₂_eq_eq_eq,
    List.forall₂_map_left_iff, List.forall₂_map_right_iff]
  simp only [nameChar_eq_iff]

/-- The component of a plain model bears the names of the model as they are. -/
theorem componentName_of_isPlain (hplain : m.IsPlain) (dialect : Dialect) :
    dialect.componentName m = m.moduleName ++ "." ++ m.qualifiedName ++ dialect.ending := by
  have hmark : '<' ∉ m.qualifiedName.toList := fun hin => absurd (hplain.qualifiedName _ hin) (by decide)
  have hpath : m.path = m.moduleName ++ "." ++ m.qualifiedName := by
    rw [Model.path, Text.remove_of_not_mem (by rfl) hmark]
  have hkept : (dialect.spelling m).toList.map nameChar = (dialect.spelling m).toList := by
    rw [Dialect.spelling, hpath, String.toList_append, List.map_append, map_nameChar_ending, String.toList_append,
      String.toList_append, List.map_append, List.map_append, List.map_congr_left hplain.moduleName,
      List.map_congr_left hplain.qualifiedName, List.map_id', List.map_id']
    rfl
  rw [← String.toList_inj, toList_componentName, hkept, Dialect.spelling, hpath]

/-! ### What a reference leads to -/

/-- Whether a schema was derived from what a model declares. -/
def IsDerivedFrom (c : Catalogue) (dialect : Dialect) (m : Model) (s : Schema) : Prop :=
  ∃ (root : Option String) (fuel : Nat) (r r' : Registry) (j later : Journal),
    (nodeOf c dialect (component? c dialect fuel none) root m).outcome r j = ((.ok s, r'), later)

theorem isComponent_iff {name : String} {s : Schema} :
    IsComponent c name s ↔
      ∃ dialect, ∃ m ∈ c.models, name = Dialect.componentName dialect m ∧ IsDerivedFrom c dialect m s := by
  constructor
  · rintro ⟨dialect, m, root, fuel, r, r', j, later, hm, hname, hnode⟩
    exact ⟨dialect, m, hm, hname, root, fuel, r, r', j, later, hnode⟩
  · rintro ⟨dialect, m, hm, hname, root, fuel, r, r', j, later, hnode⟩
    exact ⟨dialect, m, root, fuel, r, r', j, later, hm, hname, hnode⟩

/-- What stands in a documentation under the name of a model was derived from a model that is spelled like it. -/
theorem exists_spelledAlike {models : List String} {check : Bool} {j later : Journal} {done : Registry}
    (hdone : (registerAll c models check).outcome (startingFrom none) j = ((.ok (), done), later)) {s : Schema}
    (hs : done.get? (dialect.componentName m) = some s) :
    ∃ dialect', ∃ m' ∈ c.models, SpelledAlike (dialect.spelling m) (Dialect.spelling dialect' m') ∧
      IsDerivedFrom c dialect' m' s := by
  obtain ⟨result, next, last, hrun, hends⟩ := outcome_registerAll c models check (startingFrom none) j
  rw [hdone] at hrun
  cases hrun
  rcases hends with ⟨fault, hfault, -⟩ | ⟨-, hfilled⟩
  · cases hfault
  rcases hfilled.added _ s hs with hbefore | hmade
  · cases hbefore
  · obtain ⟨dialect', m', hm', hname, hderived⟩ := isComponent_iff.mp hmade
    exact ⟨dialect', m', hm', componentName_eq_iff.mp hname, hderived⟩

/-- The names of components tell apart exactly what is not spelled alike, and plain models bear their names as they
are. In a documentation what stands under the name of a model was derived from a model in a dialect that is spelled
like it, so from the model itself in its own dialect if no other is; and where two are spelled alike, the one that
comes later is referred to by the component of the other. -/
theorem componentName_tells_spellings_apart (c : Catalogue) :
    (∀ dialect m dialect' m', Dialect.componentName dialect m = Dialect.componentName dialect' m' ↔
        SpelledAlike (Dialect.spelling dialect m) (Dialect.spelling dialect' m')) ∧
      (∀ m : Model, m.IsPlain → ∀ dialect : Dialect,
        dialect.componentName m = m.moduleName ++ "." ++ m.qualifiedName ++ dialect.ending) ∧
      (∀ models check j done later,
        (registerAll c models check).outcome (startingFrom none) j = ((.ok (), done), later) →
          ∀ (dialect : Dialect) m s, done.get? (dialect.componentName m) = some s →
            (∃ dialect', ∃ m' ∈ c.models, SpelledAlike (dialect.spelling m) (Dialect.spelling dialect' m') ∧
              IsDerivedFrom c dialect' m' s) ∧
            ((∀ dialect', ∀ m' ∈ c.models, SpelledAlike (dialect.spelling m) (Dialect.spelling dialect' m') →
              dialect' = dialect ∧ m' = m) → IsDerivedFrom c dialect m s)) ∧
      ∀ (dialect : Dialect) (m : Model) (r : Registry), r.contains (dialect.componentName m) = true →
        ∀ (dialect' : Dialect) (name : String) (m' : Model), c.model? name = some m' →
          SpelledAlike (dialect.spelling m) (dialect'.spelling m') →
            ∀ root, Yields (ofRecord c dialect' root name) r (component (dialect.componentName m)) r := by
  refine ⟨fun dialect m dialect' m' => componentName_eq_iff,
    fun m hplain dialect => componentName_of_isPlain hplain dialect,
    fun models check j done later hdone dialect m s hs => ?_,
    fun dialect m r hthere dialect' name m' hmodel halike root => ?_⟩
  · obtain ⟨dialect', m', hm', halike, hderived⟩ := exists_spelledAlike hdone hs
    refine ⟨⟨dialect', m', hm', halike, hderived⟩, fun honly => ?_⟩
    obtain ⟨rfl, rfl⟩ := honly dialect' m' hm' halike
    exact hderived
  · have hname := componentName_eq_iff.mpr halike
    rw [hname] at hthere ⊢
    exact yields_ofRecord_of_contains hmodel hthere root

/-- The one model of `labelCatalogue`. -/
def labelModel : Model := plainModel "Label" [plainField "text" .str]

/-- The one model of a catalogue bears its name as it is, is referred to by its own schema, and is not derived
again. -/
theorem componentName_tells_spellings_apart_label :
    ∃ done later s, labelCatalogue.model? "Label" = some labelModel ∧
      Dialect.xml.componentName labelModel = "app.Label.XML" ∧
      (registerAll labelCatalogue ["Label"] false).outcome (startingFrom none) Journal.empty = ((.ok (), done), later) ∧
      done.get? (Dialect.json.componentName labelModel) = some s ∧ IsDerivedFrom labelCatalogue .json labelModel s ∧
      Yields (ofRecord labelCatalogue .json none "Label") done (component (Dialect.json.componentName labelModel))
        done := by
  have hplain : labelModel.IsPlain := by decide
  have hnames : (registerAll labelCatalogue ["Label"] false).fault? (startingFrom none) Journal.empty = none ∧
      ((registerAll labelCatalogue ["Label"] false).outcome (startingFrom none) Journal.empty).1.2.contains
        (Dialect.json.componentName labelModel) = true := by decide +kernel
  obtain ⟨halike, hname, hderived, hshared⟩ := componentName_tells_spellings_apart labelCatalogue
  obtain ⟨_, done, later, hdone⟩ := Registering.fault?_eq_none_iff.mp hnames.1
  rw [hdone] at hnames
  obtain ⟨s, hs⟩ := Option.isSome_iff_exists.mp hnames.2
  refine ⟨done, later, s, rfl, hname labelModel hplain .xml, hdone, hs, ?_, ?_⟩
  · refine (hderived _ _ _ _ _ hdone .json labelModel s hs).2 fun dialect' m' hm' hsame => ?_
    obtain rfl : m' = labelModel := List.mem_singleton.mp hm'
    cases dialect' with
    | json => exact ⟨rfl, rfl⟩
    | xml => exact absurd hsame.length_eq (by decide +kernel)
  · exact hshared .json labelModel done hnames.2 .json "Label" labelModel rfl ((halike _ _ _ _).mp rfl) none

/-- A model of a number, with letters beyond ASCII in its name. -/
def sizeModel : Model := { plainModel "Size" [plainField "size" .int] with qualifiedName := "Größe" }

/-- A model of a text, with other letters beyond ASCII in its name. -/
def greetingModel : Model := { plainModel "Greeting" [plainField "text" .str] with qualifiedName := "Grüße" }

/-- A model of both. -/
def boxModel : Model :=
  plainModel "Box" [plainField "size" (.record "Size"), plainField "greeting" (.record "Greeting")]

def boxCatalogue : Catalogue := ⟨[sizeModel, greetingModel, boxModel], []⟩

/-- Two models of different names share a component: the documentation of a model with both has no schema of the
second, which is referred to by that of the first. -/
theorem componentName_shared :
    sizeModel.qualifiedName ≠ greetingModel.qualifiedName ∧
      Dialect.json.componentName sizeModel = "app.Gr__e" ∧ Dialect.json.componentName greetingModel = "app.Gr__e" ∧
      ((ofJson boxCatalogue (.record "Box")).outcome Registry.empty Journal.empty).1.2.names =
        ["app.Box", "app.Gr__e"] ∧
      ¬ ∀ (m m' : Model) (dialect dialect' : Dialect),
        (m.moduleName, m.qualifiedName) ≠ (m'.moduleName, m'.qualifiedName) →
          dialect.componentName m ≠ dialect'.componentName m' := by
  have hsize : Dialect.json.componentName sizeModel = "app.Gr__e" := by decide +kernel
  have hgreeting : Dialect.json.componentName greetingModel = "app.Gr__e" := by decide +kernel
  refine ⟨by decide, hsize, hgreeting, by decide +kernel, fun hall => ?_⟩
  exact hall sizeModel greetingModel .json .json (by decide) (hsize.trans hgreeting.symm)

end Schema
end Intake
