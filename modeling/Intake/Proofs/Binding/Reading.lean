import Intake.Proofs.Binding.Keys
import Intake.Proofs.Model.Description
import Intake.Proofs.Validation.Composition
import Intake.Proofs.Value.Entries
import Mathlib.Data.List.Perm.Subperm
import Mathlib.Logic.Relation

/-!
What reading fields comes to. The texts of a field are read without faults other than those that are
declared: a part of a request that there is not, a layout that is none, or a name that no header has. The
errors of a field are told at its place or at one inside it, and the entries of a record are what was read
for its fields.
-/

namespace Intake

/-- A fault that a declaration brings with it, whatever is offered. -/
def Fault.IsDeclared : Fault → Prop
  | .unknownSource _ | .pattern _ | .unencodable _ => True
  | _ => False

namespace Binding

variable {α β : Type} {c : Catalogue} {root : String}

/-- What a part of a request offers by names and texts. -/
def offering (source : Source) (pairs : List (String × String)) : Offer :=
  ⟨source, Request.valuesOf pairs, Request.namesOf pairs⟩

/-- An operation that gives something of a kind, or a fault of a kind. -/
def Gives (bad : Fault → Prop) (post : α → Prop) : Except Fault α → Prop
  | .ok v => post v
  | .error fault => bad fault

section Gives

variable {bad : Fault → Prop} {post : α → Prop} {x : Except Fault α}

theorem Gives.mono {bad' : Fault → Prop} {post' : α → Prop} (hx : Gives bad post x)
    (hbad : ∀ fault, bad fault → bad' fault) (hpost : ∀ v, post v → post' v) : Gives bad' post' x := by
  cases x with
  | error fault => exact hbad fault hx
  | ok v => exact hpost v hx

theorem Gives.bind {f : α → Except Fault β} {post' : β → Prop} (hx : Gives bad post x)
    (hf : ∀ v, post v → Gives bad post' (f v)) : Gives bad post' (x >>= f) := by
  cases x with
  | error fault => exact hx
  | ok v => exact hf v hx

/-- What fails by no fault at all gives something. -/
theorem Gives.exists_eq_ok (hx : Gives (fun _ => False) post x) : ∃ v, x = .ok v ∧ post v := by
  cases x with
  | error fault => exact hx.elim
  | ok v => exact ⟨v, rfl, hx⟩

/-- What is gone through one by one comes to things of a kind, if each step comes to one. -/
theorem gives_mapM {each : β → Prop} {f : α → Except Fault β} {xs : List α} (hf : ∀ x ∈ xs, Gives bad each (f x)) :
    Gives bad (fun ys => ∀ y ∈ ys, each y) (xs.mapM f) := by
  induction xs with
  | nil => exact fun y hy => absurd hy List.not_mem_nil
  | cons x rest ih =>
      obtain ⟨hx, hrest⟩ := List.forall_mem_cons.mp hf
      rw [List.mapM_cons]
      exact hx.bind fun y hy => (ih hrest).bind fun ys hys => List.forall_mem_cons.mpr ⟨hy, hys⟩

theorem gives_filterMapM {f : α → Except Fault (Option β)} (each : β → Prop)
    (hf : ∀ x, Gives bad (fun found => ∀ y ∈ found, each y) (f x)) (xs : List α) :
    Gives bad (fun found => ∀ y ∈ found, each y) (xs.filterMapM f) := by
  induction xs with
  | nil => exact fun y hy => absurd hy List.not_mem_nil
  | cons x rest ih =>
      rw [List.filterMapM_cons]
      refine (hf x).bind fun found hfound => ?_
      cases found with
      | none => exact ih
      | some v => exact ih.bind fun vs hvs => List.forall_mem_cons.mpr ⟨hfound v rfl, hvs⟩

end Gives

/-- Texts that are read without a layout are read, whatever they say. -/
theorem gives_readText_none {bad : Fault → Prop} (kind : Kind) (raw : String) :
    Gives bad (fun _ => True) (readText kind raw none) := by
  cases kind <;> trivial

/-- What is offered for a field is read without faults other than those of a kind. -/
structure ReadsBy (bad : Fault → Prop) (d : Descriptor) (offers : List Offer) : Prop where
  offered : ∀ o ∈ offers, ∀ key, Gives bad (fun raws => raws = o.values key) (o.read key)
  whole : ∀ raw, Gives bad (fun _ => True) (readText d.kind raw (layoutOf d))
  item : ∀ raw, Gives bad (fun _ => True) (readText (d.elementKind.getD .string) raw (layoutOf d))

theorem gives_read (o : Offer) (key : String) :
    Gives Fault.IsDeclared (fun raws => raws = o.values key) (o.read key) := by
  rw [Offer.read]
  split
  · trivial
  · rfl

/-- Whatever is offered is read without faults other than those that are declared. -/
theorem readsBy_declared (d : Descriptor) (offers : List Offer) : ReadsBy Fault.IsDeclared d offers := by
  have htext (kind : Kind) (raw : String) :
      Gives Fault.IsDeclared (fun _ => True) (readText kind raw (layoutOf d)) := by
    unfold readText
    cases kind.read raw (layoutOf d) <;> trivial
  exact ⟨fun o _ key => gives_read o key, htext d.kind, htext _⟩

theorem gives_describe (m : Model) :
    Gives Fault.IsDeclared (fun fields => c.describe m = .ok fields) (Action.describe c m) := by
  unfold Action.describe
  cases c.describe m with
  | ok fields => exact rfl
  | error e => trivial

section ReadsBy

variable {bad : Fault → Prop} {d : Descriptor} {offers : List Offer}

theorem ReadsBy.mono {bad' : Fault → Prop} (h : ReadsBy bad d offers) (hbad : ∀ fault, bad fault → bad' fault) :
    ReadsBy bad' d offers :=
  ⟨fun o ho key => (h.offered o ho key).mono hbad fun _ h => h, fun raw => (h.whole raw).mono hbad fun _ h => h,
    fun raw => (h.item raw).mono hbad fun _ h => h⟩

theorem ReadsBy.subset {some : List Offer} (h : ReadsBy bad d offers) (hsome : some ⊆ offers) :
    ReadsBy bad d some :=
  ⟨fun o ho => h.offered o (hsome ho), h.whole, h.item⟩

theorem ReadsBy.tail {o : Offer} (h : ReadsBy bad d (o :: offers)) : ReadsBy bad d offers :=
  h.subset (List.subset_cons_self o offers)

theorem gives_firstTexts (h : ReadsBy bad d offers) (base : String) :
    Gives bad (fun _ => True) (firstTexts d base offers) := by
  induction offers with
  | nil => trivial
  | cons o rest ih =>
      rw [firstTexts]
      refine (h.offered o List.mem_cons_self _).bind fun raws _ => ?_
      split
      · exact ih h.tail
      · trivial

/-- Errors that are told at a place. -/
def ToldAt (place : String) (errors : List FieldError) : Prop := ∀ e ∈ errors, e.field = place

theorem toldAt_nil (place : String) : ToldAt place [] := fun _ he => absurd he List.not_mem_nil

theorem toldAt_single (place why : String) : ToldAt place [⟨place, why⟩] :=
  fun _ he => congrArg FieldError.field (List.mem_singleton.mp he)

theorem gives_readItems (h : ReadsBy bad d offers) (path : String) (raws : List String) :
    Gives bad (fun found => ToldAt path found.2) (readItems d path raws) := by
  unfold readItems
  dsimp only
  split
  · exact toldAt_nil path
  · refine (gives_mapM fun raw _ => h.item raw).bind fun outcomes _ => ?_
    intro e he
    obtain ⟨outcome, -, rfl⟩ := List.mem_map.mp he
    rfl

/-- What is read from texts that are offered is told at the place of the field. -/
theorem gives_readLeaf_of_firstTexts (h : ReadsBy bad d []) {base : String}
    (htexts : Gives bad (fun _ => True) (firstTexts d base offers)) (path : String) :
    Gives bad (fun found => ToldAt path found.errors) (readLeaf d base path offers) := by
  unfold readLeaf
  refine htexts.bind fun raws _ => ?_
  cases raws with
  | nil => exact toldAt_nil path
  | cons raw rest =>
      dsimp only
      split
      · exact (gives_readItems h path _).bind fun found hfound => hfound
      · split
        · exact toldAt_nil path
        · refine (h.whole raw).bind fun outcome _ => ?_
          cases outcome with
          | error why => exact toldAt_single path _
          | ok value => exact toldAt_nil path

theorem gives_readLeaf (h : ReadsBy bad d offers) (base path : String) :
    Gives bad (fun found => ToldAt path found.errors) (readLeaf d base path offers) :=
  gives_readLeaf_of_firstTexts (h.subset (List.nil_subset offers)) (gives_firstTexts h base) path

theorem gives_readMember (h : ReadsBy bad d offers) (path entry : String) (raws : List String) :
    Gives bad (fun found => ToldAt path found.2) (readMember c d path entry raws) := by
  unfold readMember
  dsimp only
  refine (gives_readText_none _ entry).bind fun outcome _ => ?_
  cases outcome with
  | error why => exact toldAt_single path _
  | ok key =>
      cases raws with
      | nil => exact toldAt_nil path
      | cons raw rest =>
          dsimp only
          split
          · exact toldAt_nil path
          · refine (h.item raw).bind fun outcome _ => ?_
            cases outcome with
            | error why => exact toldAt_single path _
            | ok value => exact toldAt_nil path

theorem gives_readMap {o : Offer} (h : ReadsBy bad d (o :: offers)) (name path : String) :
    Gives bad (fun found => ToldAt path found.2) (readMap c d name path o) := by
  unfold readMap
  refine (gives_filterMapM (fun member => ToldAt path member.2) (fun key => ?_) o.keys).bind
    fun members hall => ?_
  · split
    · exact fun y hy => absurd hy (by simp)
    · rename_i entry _
      refine (h.offered o List.mem_cons_self key).bind fun raws _ => ?_
      refine (gives_readMember h path entry raws).bind fun found hfound => ?_
      rintro _ ⟨⟩
      exact hfound
  intro e he
  obtain ⟨found, hfound, hmem⟩ := List.mem_flatMap.mp he
  exact hall found hfound e hmem

/-- What is read from brackets is told at the place of the field. -/
theorem gives_readMaps (h : ReadsBy bad d offers) (base path : String) :
    Gives bad (fun found => ToldAt path found.errors) (readMaps c d base path offers) := by
  induction offers with
  | nil => exact toldAt_nil path
  | cons o rest ih =>
      rw [readMaps]
      refine (gives_readMap h _ path).bind fun found hfound => ?_
      dsimp only
      split
      · refine (ih h.tail).bind fun later hlater e he => ?_
        rcases List.mem_append.mp he with hfirst | hrest
        · exact hfound e hfirst
        · exact hlater e hrest
      · exact hfound

end ReadsBy

/-- A place that is another one or inside it. -/
def Below (path place : String) : Prop :=
  ∃ rest : List Char, place.toList = path.toList ++ rest ∧ (rest = [] ∨ ∃ more, rest = '.' :: more)

theorem below_refl (path : String) : Below path path := ⟨[], by simp, .inl rfl⟩

theorem Below.of_join {path name place : String} (hpath : path ≠ "") (h : Below (Validation.join path name) place) :
    Below path place := by
  obtain ⟨rest, hrest, -⟩ := h
  have hnotEmpty : path.isEmpty = false := by simpa using hpath
  refine ⟨'.' :: (name.toList ++ rest), ?_, .inr ⟨_, rfl⟩⟩
  simpa [Validation.join, hnotEmpty] using hrest

/-- A name without points is what stands before the first point. -/
theorem takeWhile_of_not_mem {name rest : List Char} (hname : '.' ∉ name)
    (hrest : rest = [] ∨ ∃ more, rest = '.' :: more) :
    (name ++ rest).takeWhile (· != '.') = name := by
  rw [List.takeWhile_append_of_pos fun c hc => by simpa using ne_of_mem_of_not_mem hc hname]
  rcases hrest with rfl | ⟨more, rfl⟩ <;> simp

/-- No place is below those of two fields of a record. -/
theorem eq_of_below {path name name' place : String} (hname : '.' ∉ name.toList) (hname' : '.' ∉ name'.toList)
    (h : Below (Validation.join path name) place) (h' : Below (Validation.join path name') place) : name = name' := by
  obtain ⟨rest, hrest, hpoint⟩ := h
  obtain ⟨rest', hrest', hpoint'⟩ := h'
  have hsame : name.toList ++ rest = name'.toList ++ rest' := by
    rw [hrest] at hrest'
    unfold Validation.join at hrest'
    by_cases hpath : path.isEmpty
    · simpa [hpath] using hrest'
    · simpa [hpath] using hrest'
  apply String.toList_inj.mp
  rw [← takeWhile_of_not_mem hname hpoint, hsame, takeWhile_of_not_mem hname' hpoint']

/-- Errors that are told at a place or inside it. -/
def ToldBelow (path : String) (errors : List FieldError) : Prop := ∀ e ∈ errors, Below path e.field

theorem ToldAt.below {path : String} {errors : List FieldError} (h : ToldAt path errors) : ToldBelow path errors := by
  intro e he
  rw [h e he]
  exact below_refl path

theorem ToldAt.forall {path : String} {errors : List FieldError} {each : FieldError → Prop} (h : ToldAt path errors)
    (heach : ∀ why, each ⟨path, why⟩) : ∀ e ∈ errors, each e := by
  rintro ⟨place, why⟩ he
  obtain rfl : place = path := h _ he
  exact heach why

/-- The offers that the record in a field is read from. -/
def offersInside (d : Descriptor) (offers : List Offer) : List Offer :=
  (admitted d offers).filter fun o => o.source.isNested

/-- What holds of errors at the place of a field, and of those of its record, holds of all its errors. -/
theorem gives_readField {bad : Fault → Prop} {each : FieldError → Prop} {d : Descriptor} {offers : List Offer}
    {path : String} (h : ReadsBy bad d offers) (heach : ∀ why, each ⟨Validation.join path d.wireName, why⟩)
    {record : String → List Offer → String → String → Except Fault Decoded}
    (hrecord : ∀ model, d.kind = .record → d.model = some model → offersInside d offers ≠ [] → ∀ base,
      Gives bad (fun found => ∀ e ∈ found.errors, each e)
        (record model (offersInside d offers) base (Validation.join path d.wireName))) (base : String) :
    Gives bad (fun found => ∀ e ∈ found.errors, each e) (readField c record offers base path d) := by
  have hadmitted : ReadsBy bad d (admitted d offers) := h.subset (List.filter_subset_self offers)
  unfold readField
  dsimp only
  split
  · exact (toldAt_nil _).forall heach
  · rename_i model hkind hmodel
    split
    · exact (toldAt_nil _).forall heach
    · rename_i hnested
      exact (hrecord model hkind hmodel (by simpa [offersInside] using hnested) _).bind fun inner hinner => hinner
  · refine (gives_readMaps (hadmitted.subset (List.filter_subset_self _)) base _).mono (fun _ h => h) ?_
    exact fun found hfound => hfound.forall heach
  · exact (gives_readLeaf hadmitted base _).mono (fun _ h => h) fun found hfound => hfound.forall heach

/-- Every error of a record is one of a field. -/
theorem gives_readFields {bad : Fault → Prop} {each : Descriptor → FieldError → Prop}
    {read : Descriptor → Except Fault Reading} {fields : List Descriptor}
    (hread : ∀ d ∈ fields, d.formSkip = false → Gives bad (fun found => ∀ e ∈ found.errors, each d e) (read d)) :
    Gives bad (fun found => ∀ e ∈ found.errors, ∃ d ∈ fields, each d e) (readFields read fields) := by
  induction fields with
  | nil => exact fun e he => absurd he List.not_mem_nil
  | cons d rest ih =>
      have hrest : Gives bad (fun found => ∀ e ∈ found.errors, ∃ other ∈ d :: rest, each other e)
          (readFields read rest) := by
        refine (ih fun other hother => hread other (List.mem_cons_of_mem d hother)).mono (fun _ h => h) ?_
        intro found hfound e he
        obtain ⟨other, hother, hetold⟩ := hfound e he
        exact ⟨other, List.mem_cons_of_mem d hother, hetold⟩
      rw [readFields]
      split
      · exact hrest
      · rename_i hskip
        refine (hread d List.mem_cons_self (by simpa using hskip)).bind fun first hfirst => ?_
        refine hrest.bind fun others hothers e he => ?_
        rcases List.mem_append.mp he with hown | hlater
        · exact ⟨d, List.mem_cons_self, hfirst e hown⟩
        · exact hothers e hlater

/-- A model whose records have records of another model in them. -/
def Encloses (c : Catalogue) (outer inner : String) : Prop :=
  ∃ m f, c.model? outer = some m ∧ f ∈ m.fields ∧ f.type.unwrap.1 = .record inner

theorem encloses_of_describe {name model : String} {m : Model} {fields : List Descriptor} {d : Descriptor}
    (hm : c.model? name = some m) (hfields : c.describe m = .ok fields) (hd : d ∈ fields)
    (hkind : d.kind = .record) (hmodel : d.model = some model) : Encloses c name model := by
  obtain ⟨f, hf, hd⟩ := Catalogue.exists_field_of_mem_describe hfields hd
  obtain ⟨inner, ht⟩ := Catalogue.exists_record_of_kindOf ((Catalogue.kinds_of_field hd).1.symm.trans hkind)
  have hnamed := Catalogue.model_of_describeField hd
  rw [ht, hmodel] at hnamed
  exact ⟨m, f, hm, hf, by rw [ht, Option.some.inj hnamed]⟩

/-- Every field of a model, and of the records inside its records, has a name of its own in documents, without
points in it. -/
def HasPlainNames (c : Catalogue) (root : String) : Prop :=
  ∀ name m, Relation.ReflTransGen (Encloses c) root name → c.model? name = some m →
    (m.fields.map Field.wireName).Nodup ∧ ∀ f ∈ m.fields, f.wireName ≠ "" ∧ '.' ∉ f.wireName.toList

theorem HasPlainNames.of_describe {name : String} {m : Model} {fields : List Descriptor}
    (h : HasPlainNames c root) (hreach : Relation.ReflTransGen (Encloses c) root name)
    (hm : c.model? name = some m) (hfields : c.describe m = .ok fields) :
    (fields.map Descriptor.wireName).Nodup ∧ ∀ d ∈ fields, d.wireName ≠ "" ∧ '.' ∉ d.wireName.toList := by
  obtain ⟨hnodup, hnames⟩ := h name m hreach hm
  obtain ⟨rfl, hdescribed⟩ := Catalogue.describe_eq_map hfields
  have hwire : ∀ f ∈ m.fields, (c.descriptorOf f).wireName = f.wireName := fun f hf =>
    (Catalogue.names_of_describeField (hdescribed f hf)).2.1
  constructor
  · have hsame : m.fields.map (Descriptor.wireName ∘ c.descriptorOf) = m.fields.map Field.wireName :=
      List.map_congr_left hwire
    rwa [List.map_map, hsame]
  · intro d hd
    obtain ⟨f, hf, rfl⟩ := List.mem_map.mp hd
    rw [hwire f hf]
    exact hnames f hf

/-- What is read for a field is told at its place or inside it, as far as that holds for records. -/
theorem toldBelow_readField (hnames : HasPlainNames c root) {name : String} {m : Model} {fields : List Descriptor}
    {d : Descriptor} (hreach : Relation.ReflTransGen (Encloses c) root name) (hm : c.model? name = some m)
    (hfields : c.describe m = .ok fields) (hd : d ∈ fields)
    {record : String → List Offer → String → String → Except Fault Decoded}
    (hrecord : ∀ model, Relation.ReflTransGen (Encloses c) root model → ∀ offers base path,
      Gives (fun _ => True) (fun found => path ≠ "" → ToldBelow path found.errors) (record model offers base path))
    (offers : List Offer) (base path : String) :
    Gives (fun _ => True) (fun found => ToldBelow (Validation.join path d.wireName) found.errors)
      (readField c record offers base path d) := by
  have hname := ((hnames.of_describe hreach hm hfields).2 d hd).1
  have hreads : ReadsBy (fun _ => True) d offers := (readsBy_declared d offers).mono fun _ _ => trivial
  refine gives_readField hreads (fun _ => below_refl _) (fun model hkind hmodel _ base => ?_) base
  have hinner := hrecord model (hreach.tail (encloses_of_describe hm hfields hd hkind hmodel)) (offersInside d offers)
    base (Validation.join path d.wireName)
  exact hinner.mono (fun _ _ => trivial) fun found hfound => hfound (Validation.join_ne_empty hname)

/-- What is read for a record inside another is told inside its place. -/
theorem toldBelow_readRecord (hnames : HasPlainNames c root) (depth : Nat) {name : String}
    (hreach : Relation.ReflTransGen (Encloses c) root name) (offers : List Offer) (base path : String) :
    Gives (fun _ => True) (fun found => path ≠ "" → ToldBelow path found.errors)
      (readRecord c depth name offers base path) := by
  induction depth generalizing name offers base path with
  | zero => trivial
  | succ depth ih =>
      rw [readRecord]
      cases hm : c.model? name with
      | none => exact fun _ => (toldAt_nil path).below
      | some m =>
          refine ((gives_describe m).mono (fun _ _ => trivial) fun _ h => h).bind fun fields hfields => ?_
          have hread := fun d hd (_ : d.formSkip = false) => toldBelow_readField hnames hreach hm hfields (d := d) hd
            (fun model hmodel => ih hmodel) offers base path
          refine (gives_readFields hread).bind fun found hfound hpath e he => ?_
          obtain ⟨d, -, hbelow⟩ := hfound e he
          exact hbelow.of_join hpath

/-- What is read for a field, and nothing where the field is left out. -/
def readingOf (read : Descriptor → Except Fault Reading) (d : Descriptor) : Reading :=
  if d.formSkip then .nothing
  else match read d with
    | .ok found => found
    | .error _ => .nothing

/-- What is read for the fields of a record is what is read for each. -/
theorem eq_of_readFields {read : Descriptor → Except Fault Reading} {fields : List Descriptor} {found : Decoded}
    (hread : readFields read fields = .ok found) :
    found.entries = Value.textEntries (fields.filterMap fun d =>
        (readingOf read d).value.map fun v => (d.wireName, v)) ∧
      found.errors = (fields.flatMap fun d => (readingOf read d).errors) ∧
      ∀ d ∈ fields, d.formSkip = false → read d = .ok (readingOf read d) := by
  induction fields generalizing found with
  | nil =>
      cases hread
      simp
  | cons d rest ih =>
      rw [readFields] at hread
      by_cases hskip : d.formSkip
      · obtain ⟨hentries, herrors, hall⟩ := ih (by simpa [hskip] using hread)
        have hnothing : readingOf read d = .nothing := by simp [readingOf, hskip]
        refine ⟨?_, ?_, ?_⟩
        · simpa [hnothing, Reading.nothing] using hentries
        · simpa [hnothing, Reading.nothing] using herrors
        · intro other hother hshown
          rcases List.mem_cons.mp hother with rfl | hlater
          · simp [hskip] at hshown
          · exact hall other hlater hshown
      · rw [if_neg hskip] at hread
        obtain ⟨first, hfirst, hread⟩ := exists_of_bind_eq_ok hread
        obtain ⟨others, hothers, hread⟩ := exists_of_bind_eq_ok hread
        obtain ⟨hentries, herrors, hall⟩ := ih hothers
        have hown : readingOf read d = first := by simp [readingOf, hskip, hfirst]
        cases hread
        refine ⟨?_, ?_, ?_⟩
        · rw [List.filterMap_cons, hown]
          cases first.value with
          | none => exact hentries
          | some v => simp [hentries]
        · rw [List.flatMap_cons, hown, ← herrors]
        · intro other hother hshown
          rcases List.mem_cons.mp hother with rfl | hlater
          · rw [hfirst, hown]
          · exact hall other hlater hshown

/-- What is read for a record is what is read for its fields. -/
theorem exists_readings {name : String} {m : Model} {fields : List Descriptor} {depth : Nat} {offers : List Offer}
    {base path : String} {found : Decoded} (hm : c.model? name = some m) (hfields : c.describe m = .ok fields)
    (hnodup : (fields.map Descriptor.wireName).Nodup)
    (hread : readRecord c (depth + 1) name offers base path = .ok found) :
    ∃ reading : Descriptor → Reading,
      found.entries = Value.textEntries (fields.filterMap fun d => (reading d).value.map (d.wireName, ·)) ∧
      found.errors = (fields.flatMap fun d => (reading d).errors) ∧
      (∀ d ∈ fields, d.formSkip = true → reading d = .nothing) ∧
      ∀ d ∈ fields, d.formSkip = false →
        readField c (readRecord c depth) offers base path d = .ok (reading d) := by
  rw [readRecord] at hread
  simp only [hm, Action.describe_eq_ok hfields, ok_bind] at hread
  cases hinner : readFields (readField c (readRecord c depth) offers base path) fields with
  | error fault =>
      rw [hinner] at hread
      cases hread
  | ok inner =>
      rw [hinner, ok_bind] at hread
      cases hread
      obtain ⟨hentries, herrors, hall⟩ := eq_of_readFields hinner
      refine ⟨readingOf _, ?_, herrors, fun d _ hskip => by simp [readingOf, hskip], hall⟩
      dsimp only
      rw [hentries]
      exact Value.dictOf_textEntries (sublist_keys_filterMap.nodup hnodup)

/-- A record without records in it is read field by field. -/
theorem readRecord_of_readFields {name : String} {m : Model} {fields : List Descriptor} {depth : Nat}
    {offers : List Offer} {base path : String} {es : List (String × Value)} {errors : List FieldError}
    (hm : c.model? name = some m) (hfields : c.describe m = .ok fields) (hnodup : (es.map Prod.fst).Nodup)
    (hread : readFields (readField c (readRecord c depth) offers base path) fields =
      .ok ⟨Value.textEntries es, errors⟩) :
    readRecord c (depth + 1) name offers base path = .ok ⟨Value.textEntries es, errors⟩ := by
  rw [readRecord]
  simp only [hm, Action.describe_eq_ok hfields, ok_bind, hread, pure_eq_ok]
  rw [Value.dictOf_textEntries hnodup]

end Binding
end Intake
