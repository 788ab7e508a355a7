import Intake.Proofs.Markup.RoundTrip

/-!
Edits that no field sees. An element is read field by field: a field sees the attribute of its name, or the
elements of its name inside, and of an element for entries nothing but its entries. Whatever else is put into the
element of a record, taken out of it or moved inside it, at any depth, the record is read the same.
-/

namespace Intake.Markup

variable {c : Catalogue} {root name : String} {d : Descriptor} {fields : List Descriptor}

/-- A field that is an attribute of a name. -/
def IsAttributeAt (d : Descriptor) (name : String) : Prop :=
  d.xmlSkip = false ∧ d.xmlAttribute = true ∧ d.xmlName = name

/-- A field that is in elements of a name. -/
def IsElementAt (d : Descriptor) (name : String) : Prop :=
  d.xmlSkip = false ∧ d.xmlAttribute = false ∧ d.xmlName = name

instance (d : Descriptor) (name : String) : Decidable (IsAttributeAt d name) :=
  inferInstanceAs (Decidable (_ ∧ _ ∧ _))

instance (d : Descriptor) (name : String) : Decidable (IsElementAt d name) :=
  inferInstanceAs (Decidable (_ ∧ _ ∧ _))

/-- Two entries of a map that are read the same: the same entry, or scalars with the same key and the same text. -/
def EntryAlike (d : Descriptor) (e e' : Element) : Prop :=
  e = e' ∨ d.model = none ∧ e.attribute? keyName = e'.attribute? keyName ∧ e.text = e'.text

/-- Two elements of a field that are read the same: with entries that are, for a map, and with the same text, for a
scalar. -/
def SeenAlike (d : Descriptor) (e e' : Element) : Prop :=
  e'.name = e.name ∧
    if d.kind = .map then List.Forall₂ (EntryAlike d) (e.childrenNamed entryName) (e'.childrenNamed entryName)
    else d.model = none ∧ e.text = e'.text

/-- One edit of the element of a record of a model that no field of it sees, nor a field of a record inside it. -/
inductive Edit (c : Catalogue) : String → Element → Element → Prop where
  /-- An attribute is put in that is none of a field. -/
  | strayAttribute {name tag text tail key value : String} {m : Model} {fields : List Descriptor}
      {before after : List (String × String)} {children : List Element} (hm : c.model? name = some m)
      (hfields : c.describe m = .ok fields) (hkey : ∀ d ∈ fields, ¬ IsAttributeAt d key) :
      Edit c name (.mk tag (before ++ after) text children tail)
        (.mk tag (before ++ (key, value) :: after) text children tail)
  /-- An element is put in that is none of a field. -/
  | strayElement {name tag text tail : String} {m : Model} {fields : List Descriptor}
      {attributes : List (String × String)} {before after : List Element} {stray : Element}
      (hm : c.model? name = some m) (hfields : c.describe m = .ok fields)
      (hstray : ∀ d ∈ fields, ¬ IsElementAt d stray.name) :
      Edit c name (.mk tag attributes text (before ++ after) tail)
        (.mk tag attributes text (before ++ stray :: after) tail)
  /-- The text in front of the elements inside, and the one behind the element, are others. -/
  | texts {name tag text text' tail tail' : String} {attributes : List (String × String)} {children : List Element} :
      Edit c name (.mk tag attributes text children tail) (.mk tag attributes text' children tail')
  /-- The elements inside are in another order, but those of each name are in the same. -/
  | order {name tag text tail : String} {attributes : List (String × String)} {children children' : List Element}
      (hsame : ∀ x, children.filter (fun e => e.name == x) = children'.filter fun e => e.name == x) :
      Edit c name (.mk tag attributes text children tail) (.mk tag attributes text children' tail)
  /-- The element of a scalar or of a map is another one that is read the same. -/
  | unseen {name tag text tail : String} {m : Model} {fields : List Descriptor} {d : Descriptor}
      {attributes : List (String × String)} {before after : List Element} {child child' : Element}
      (hm : c.model? name = some m) (hfields : c.describe m = .ok fields) (hd : d ∈ fields)
      (hplace : IsElementAt d child.name) (hseen : SeenAlike d child child') :
      Edit c name (.mk tag attributes text (before ++ child :: after) tail)
        (.mk tag attributes text (before ++ child' :: after) tail)
  /-- A record is edited that is the value of a field, or an item of it. -/
  | inside {name inner tag text tail : String} {m : Model} {fields : List Descriptor} {d : Descriptor}
      {attributes : List (String × String)} {before after : List Element} {child child' : Element}
      (hm : c.model? name = some m) (hfields : c.describe m = .ok fields) (hd : d ∈ fields)
      (hplace : IsElementAt d child.name) (hkind : d.kind ≠ .map) (hmodel : d.model = some inner)
      (hedit : Edit c inner child child') :
      Edit c name (.mk tag attributes text (before ++ child :: after) tail)
        (.mk tag attributes text (before ++ child' :: after) tail)
  /-- A record is edited that is in an entry of a map, but not the key of the entry. -/
  | entry {name inner tag text tail place mapText mapTail : String} {m : Model} {fields : List Descriptor}
      {d : Descriptor} {attributes mapAttributes : List (String × String)} {before after front behind : List Element}
      {child child' : Element} (hm : c.model? name = some m) (hfields : c.describe m = .ok fields) (hd : d ∈ fields)
      (hplace : IsElementAt d place) (hkind : d.kind = .map) (hmodel : d.model = some inner)
      (hkey : child.attribute? keyName = child'.attribute? keyName) (hedit : Edit c inner child child') :
      Edit c name
        (.mk tag attributes text (before ++ .mk place mapAttributes mapText (front ++ child :: behind) mapTail :: after)
          tail)
        (.mk tag attributes text (before ++ .mk place mapAttributes mapText (front ++ child' :: behind) mapTail :: after)
          tail)

/-- Another element that an edit leads to has the same name. -/
theorem Edit.name_eq {e e' : Element} (h : Edit c name e e') : e'.name = e.name := by
  cases h <;> rfl

/-- In no model that is read, two fields are in elements of the same name. -/
def HasOwnElements (c : Catalogue) (root : String) : Prop :=
  ∀ name m fields, Within c root name → c.model? name = some m → c.describe m = .ok fields →
    ((fields.filter fun d => !d.xmlSkip && !d.xmlAttribute).map Descriptor.xmlName).Nodup

theorem hasOwnElements_of_forall (hall : ∀ m ∈ c.models, (((m.fields.map c.descriptorOf).filter fun d =>
    !d.xmlSkip && !d.xmlAttribute).map Descriptor.xmlName).Nodup) : HasOwnElements c root := by
  intro name m fields _ hm hfields
  rw [(Catalogue.describe_eq_map hfields).1]
  exact hall m (List.mem_of_find?_eq_some hm)

theorem HasOwnElements.eq_of_isElementAt (hplaces : HasOwnElements c root) {m : Model} (hname : Within c root name)
    (hm : c.model? name = some m) (hfields : c.describe m = .ok fields) {d d' : Descriptor} (hd : d ∈ fields)
    (hd' : d' ∈ fields) {tag : String} (hplace : IsElementAt d tag) (hplace' : IsElementAt d' tag) : d' = d := by
  have hmem : ∀ {e : Descriptor}, e ∈ fields → IsElementAt e tag →
      e ∈ fields.filter fun d => !d.xmlSkip && !d.xmlAttribute := by
    intro e he hat
    exact List.mem_filter.mpr ⟨he, by simp [hat.1, hat.2.1]⟩
  exact List.inj_on_of_nodup_map (hplaces name m fields hname hm hfields) (hmem hd' hplace') (hmem hd hplace)
    (hplace'.2.2.trans hplace.2.2.symm)

/-! ### What a field sees -/

/-- Two elements that are read the same for a field: as the entries of a map, or as a value. -/
def ReadsAlike (c : Catalogue) (d : Descriptor) (e e' : Element) : Prop :=
  if d.kind = .map then (part c e).entries d = (part c e').entries d else (part c e).value d = (part c e').value d

theorem readsAlike_refl (d : Descriptor) (e : Element) : ReadsAlike c d e e := by
  unfold ReadsAlike
  split <;> rfl

theorem forall₂_readsAlike_refl (d : Descriptor) (es : List Element) : List.Forall₂ (ReadsAlike c d) es es :=
  List.forall₂_same.mpr fun e _ => readsAlike_refl d e

theorem filter_partsOf (tag : String) (es : List Element) :
    (partsOf c es).filter (fun p => p.name == tag) = (es.filter fun e => e.name == tag).map (part c) := by
  rw [partsOf_eq_map, List.filter_map]
  simp only [Function.comp_def, name_part]

/-- Items that are read the same make the same row. -/
theorem mapM_value_congr {es es' : List Element} (hkind : d.kind ≠ .map)
    (hall : List.Forall₂ (ReadsAlike c d) es es') :
    (es.map (part c)).mapM (fun p => p.value d) = (es'.map (part c)).mapM fun p => p.value d := by
  induction hall with
  | nil => rfl
  | @cons e e' rest rest' hfirst _ ih =>
      rw [ReadsAlike, if_neg hkind] at hfirst
      rw [List.map_cons, List.map_cons, List.mapM_cons, List.mapM_cons, hfirst, ih]

/-- A field is read from its attribute, or from its elements. -/
theorem readPlace_congr {attributes attributes' : List (String × String)} {es es' : List Element}
    (hattribute : IsAttributeAt d d.xmlName → attributes.lookup d.xmlName = attributes'.lookup d.xmlName)
    (helements : IsElementAt d d.xmlName → List.Forall₂ (ReadsAlike c d) (es.filter fun e => e.name == d.xmlName)
      (es'.filter fun e => e.name == d.xmlName)) :
    readPlace attributes (partsOf c es) d = readPlace attributes' (partsOf c es') d := by
  unfold readPlace
  cases hskip : d.xmlSkip with
  | true => rfl
  | false =>
      cases hplace : d.xmlAttribute with
      | true =>
          rw [hattribute ⟨hskip, hplace, rfl⟩]
          rfl
      | false =>
          have hall := helements ⟨hskip, hplace, rfl⟩
          rw [filter_partsOf, filter_partsOf]
          simp only [Bool.false_eq_true, ↓reduceIte]
          generalize (es.filter fun e => e.name == d.xmlName) = xs at hall
          generalize (es'.filter fun e => e.name == d.xmlName) = ys at hall
          cases hall with
          | nil => rfl
          | @cons x y xs ys hfirst hrest =>
              cases hkind : d.kind with
              | array =>
                  have hrow := mapM_value_congr (by rw [hkind]; decide) (.cons hfirst hrest)
                  rw [List.map_cons, List.map_cons] at hrow ⊢
                  simp only [hrow]
              | map =>
                  rw [ReadsAlike, if_pos hkind] at hfirst
                  simp only [List.map_cons, hfirst]
              | _ =>
                  rw [ReadsAlike, if_neg (by rw [hkind]; decide)] at hfirst
                  simp only [List.map_cons, hfirst]

/-- Two elements from which every field of a model is read the same are read the same. -/
theorem entries_congr {e e' : Element} (h : ∀ m fields, c.model? name = some m → c.describe m = .ok fields →
    ∀ d ∈ fields, readPlace e.attributes (partsOf c e.children) d = readPlace e'.attributes (partsOf c e'.children) d) :
    e.entries c name = e'.entries c name := by
  unfold Element.entries readPlaces
  cases hm : c.model? name with
  | none => rfl
  | some m =>
      dsimp only
      cases hdescribe : Action.describe c m with
      | error fault => rfl
      | ok fields =>
          have hfields := h m fields hm (Action.of_describe_eq_ok hdescribe)
          rw [ok_bind, ok_bind, filterMapM_congr fun d hd => by rw [hfields d hd]]

/-! ### Edits are not seen -/

/-- An element that is replaced by one of the same name, from which the field of that name is read the same. -/
theorem forall₂_readsAlike_replaced {before after : List Element} {child child' : Element}
    (hname : child'.name = child.name) (halike : child.name = d.xmlName → ReadsAlike c d child child') :
    List.Forall₂ (ReadsAlike c d) ((before ++ child :: after).filter fun e => e.name == d.xmlName)
      ((before ++ child' :: after).filter fun e => e.name == d.xmlName) := by
  rw [List.filter_append, List.filter_append, List.filter_cons, List.filter_cons, hname]
  refine List.rel_append (forall₂_readsAlike_refl d _) ?_
  split
  · rename_i hsame
    exact .cons (halike (eq_of_beq hsame)) (forall₂_readsAlike_refl d _)
  · exact forall₂_readsAlike_refl d _

/-- A record is read the same if one element in it is replaced from which its field is read the same. -/
theorem entries_replaced (hplaces : HasOwnElements c root) (hname : Within c root name) {m : Model}
    (hm : c.model? name = some m) (hfields : c.describe m = .ok fields) (hd : d ∈ fields) {child child' : Element}
    (hplace : IsElementAt d child.name) (hsame : child'.name = child.name) (halike : ReadsAlike c d child child')
    (tag text tail : String) (attributes : List (String × String)) (before after : List Element) :
    (Element.mk tag attributes text (before ++ child :: after) tail).entries c name =
      (Element.mk tag attributes text (before ++ child' :: after) tail).entries c name := by
  refine entries_congr fun m' fields' hm' hfields' d' hd' => ?_
  obtain rfl := Option.some.inj (hm.symm.trans hm')
  obtain rfl := Except.ok.inj (hfields.symm.trans hfields')
  refine readPlace_congr (fun _ => rfl) fun hplace' => forall₂_readsAlike_replaced hsame fun htag => ?_
  rw [← htag] at hplace'
  rw [hplaces.eq_of_isElementAt hname hm hfields hd hd' hplace hplace']
  exact halike

/-- What is read from the element around the entries of a map. -/
theorem entries_part (e : Element) : (part c e).entries d = ((e.childrenNamed entryName).map (part c)).mapM fun p => do
    return (Value.text p.key, ← p.value d) := by
  cases e with
  | mk tag attributes text children tail =>
      simp only [part, Element.childrenNamed, Element.children, filter_partsOf]

theorem key_part (e : Element) : (part c e).key = (e.attribute? keyName).getD "" := by
  cases e
  rfl

/-- Entries that are read one by one to the same keys and values make the same map. -/
theorem entries_part_congr {e e' : Element} (h : List.Forall₂ (fun x y => x.attribute? keyName = y.attribute? keyName ∧
    (part c x).value d = (part c y).value d) (e.childrenNamed entryName) (e'.childrenNamed entryName)) :
    (part c e).entries d = (part c e').entries d := by
  rw [entries_part, entries_part]
  generalize e.childrenNamed entryName = es at h ⊢
  generalize e'.childrenNamed entryName = es' at h ⊢
  induction h with
  | nil => rfl
  | cons hfirst _ ih =>
      rw [List.map_cons, List.map_cons, List.mapM_cons, List.mapM_cons, ih, key_part, key_part, hfirst.1, hfirst.2]

/-- What is read the same for a field that is no record. -/
theorem SeenAlike.readsAlike {e e' : Element} (h : SeenAlike d e e') : ReadsAlike c d e e' := by
  obtain ⟨-, h⟩ := h
  unfold ReadsAlike
  split at h
  · rename_i hkind
    rw [if_pos hkind]
    refine entries_part_congr (h.imp fun x y hxy => ?_)
    rcases hxy with rfl | ⟨hmodel, hkey, htext⟩
    · exact ⟨rfl, rfl⟩
    · rw [value_part_of_no_model hmodel, value_part_of_no_model hmodel, htext]
      exact ⟨hkey, rfl⟩
  · rename_i hkind
    rw [if_neg hkind, value_part_of_no_model h.1, value_part_of_no_model h.1, h.2]

/-- A model that a field of a model that is read leads to is read. -/
theorem Within.of_describe {inner : String} {m : Model} (hname : Within c root name) (hm : c.model? name = some m)
    (hfields : c.describe m = .ok fields) (hd : d ∈ fields) (hmodel : d.model = some inner) : Within c root inner := by
  rw [(Catalogue.describe_eq_map hfields).1] at hd
  obtain ⟨f, hf, rfl⟩ := List.mem_map.mp hd
  exact .inside hname hm hf hmodel

theorem lookup_insert {before after : List (String × String)} {key x : String} (hkey : key ≠ x) (value : String) :
    (before ++ (key, value) :: after).lookup x = (before ++ after).lookup x := by
  have hother : (x == key) = false := beq_false_of_ne hkey.symm
  rw [List.lookup_append, List.lookup_append, List.lookup_cons, hother]

/-- A map is read the same if a record in one of its entries is, and the key of the entry. -/
theorem readsAlike_of_entry {inner place mapText mapTail : String} {mapAttributes : List (String × String)}
    {front behind : List Element} {child child' : Element} (hkind : d.kind = .map) (hmodel : d.model = some inner)
    (hname : child'.name = child.name) (hkey : child.attribute? keyName = child'.attribute? keyName)
    (hentries : child.entries c inner = child'.entries c inner) :
    ReadsAlike c d (.mk place mapAttributes mapText (front ++ child :: behind) mapTail)
      (.mk place mapAttributes mapText (front ++ child' :: behind) mapTail) := by
  rw [ReadsAlike, if_pos hkind]
  refine entries_part_congr ?_
  have hrefl : ∀ es : List Element, List.Forall₂ (fun x y : Element => x.attribute? keyName = y.attribute? keyName ∧
      (part c x).value d = (part c y).value d) es es := fun es => List.forall₂_same.mpr fun _ _ => ⟨rfl, rfl⟩
  unfold Element.childrenNamed Element.children
  rw [List.filter_append, List.filter_append, List.filter_cons, List.filter_cons, hname]
  refine List.rel_append (hrefl _) ?_
  split
  · refine .cons ⟨hkey, ?_⟩ (hrefl _)
    rw [value_part_of_model hmodel, value_part_of_model hmodel, hentries]
  · exact hrefl _

/-- An edit makes no difference to what a record is read as. -/
theorem entries_eq_of_edit (hplaces : HasOwnElements c root) (hname : Within c root name) {e e' : Element}
    (hedit : Edit c name e e') : e.entries c name = e'.entries c name := by
  induction hedit with
  | strayAttribute hm hfields hkey =>
      refine entries_congr fun m' fields' hm' hfields' d hd => readPlace_congr (fun hplace => ?_) fun _ => ?_
      · obtain rfl := Option.some.inj (hm.symm.trans hm')
        obtain rfl := Except.ok.inj (hfields.symm.trans hfields')
        refine (lookup_insert (fun hsame => ?_) _).symm
        rw [← hsame] at hplace
        exact hkey d hd ⟨hplace.1, hplace.2.1, hsame.symm⟩
      · exact forall₂_readsAlike_refl d _
  | strayElement hm hfields hstray =>
      refine entries_congr fun m' fields' hm' hfields' d hd => readPlace_congr (fun _ => rfl) fun hplace => ?_
      obtain rfl := Option.some.inj (hm.symm.trans hm')
      obtain rfl := Except.ok.inj (hfields.symm.trans hfields')
      have hother : ¬ (_ == d.xmlName) = true := fun hsame => hstray d hd ⟨hplace.1, hplace.2.1, (eq_of_beq hsame).symm⟩
      rw [Element.children, Element.children, List.filter_append, List.filter_append, List.filter_cons, if_neg hother]
      exact forall₂_readsAlike_refl d _
  | texts => rfl
  | order hsame =>
      refine entries_congr fun m fields _ _ d _ => readPlace_congr (fun _ => rfl) fun _ => ?_
      rw [Element.children, Element.children, hsame]
      exact forall₂_readsAlike_refl d _
  | unseen hm hfields hd hplace hseen =>
      exact entries_replaced hplaces hname hm hfields hd hplace hseen.1 hseen.readsAlike _ _ _ _ _ _
  | inside hm hfields hd hplace hkind hmodel hedit ih =>
      refine entries_replaced hplaces hname hm hfields hd hplace hedit.name_eq ?_ _ _ _ _ _ _
      rw [ReadsAlike, if_neg hkind, value_part_of_model hmodel, value_part_of_model hmodel,
        ih (hname.of_describe hm hfields hd hmodel)]
  | entry hm hfields hd hplace hkind hmodel hkey hedit ih =>
      have hentries := ih (hname.of_describe hm hfields hd hmodel)
      refine entries_replaced hplaces hname hm hfields hd ?_ ?_ ?_ _ _ _ _ _ _
      · exact hplace
      · rfl
      · exact readsAlike_of_entry hkind hmodel hedit.name_eq hkey hentries

/-- Nor do any number of edits, and taking back of edits. -/
theorem entries_eq_of_edits (hplaces : HasOwnElements c root) {e e' : Element}
    (hedits : Relation.EqvGen (Edit c root) e e') : e.entries c root = e'.entries c root := by
  induction hedits with
  | rel e e' hedit => exact entries_eq_of_edit hplaces .root hedit
  | refl e => rfl
  | symm e e' _ ih => exact ih.symm
  | trans e e' e'' _ _ ih ih' => exact ih.trans ih'

end Intake.Markup
