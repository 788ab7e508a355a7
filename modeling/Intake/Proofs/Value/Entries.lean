import Intake.Value.Basic
import Mathlib.Data.List.Nodup

/-!
Entries under textual keys. Such keys are equal as texts, so a dictionary of them is an association list
of texts, and one without repetition is a dictionary as it stands.
-/

namespace Intake

/-- Without repetition of names, what is found under a name is what stands under it. -/
theorem lookup_eq_some_iff_mem {β : Type} {entries : List (String × β)}
    (hnodup : (entries.map Prod.fst).Nodup) {name : String} {v : β} :
    entries.lookup name = some v ↔ (name, v) ∈ entries := by
  induction entries with
  | nil => simp
  | cons entry rest ih =>
      obtain ⟨n, w⟩ := entry
      rw [List.map_cons, List.nodup_cons] at hnodup
      by_cases hsame : name = n
      · subst hsame
        have hother : (name, v) ∉ rest := fun hv =>
          hnodup.1 (List.mem_map.mpr ⟨_, hv, rfl⟩)
        simp [hother, eq_comm]
      · rw [List.lookup_cons, beq_false_of_ne hsame]
        simp [hsame, ih hnodup.2]

section keyed

variable {α β : Type} {key : α → String} {found : α → Option β} {xs : List α}

/-- What is found for some of many stands under their keys, in their order. -/
theorem sublist_keys_filterMap :
    ((xs.filterMap fun x => (found x).map (key x, ·)).map Prod.fst).Sublist (xs.map key) := by
  induction xs with
  | nil => simp
  | cons x rest ih =>
      rw [List.filterMap_cons]
      cases found x with
      | none => exact ih.cons (key x)
      | some v => exact ih.cons_cons (key x)

/-- Under the key of one of many, if it is no other's, stands what is found for it. -/
theorem lookup_filterMap {x : α} (hnodup : (xs.map key).Nodup) (hx : x ∈ xs) :
    (xs.filterMap fun x => (found x).map (key x, ·)).lookup (key x) = found x := by
  have hkeys : ((xs.filterMap fun x => (found x).map (key x, ·)).map Prod.fst).Nodup :=
    sublist_keys_filterMap.nodup hnodup
  apply Option.ext
  intro v
  rw [lookup_eq_some_iff_mem hkeys, List.mem_filterMap]
  constructor
  · rintro ⟨y, hy, hpair⟩
    obtain ⟨w, hw, hsame⟩ := Option.map_eq_some_iff.mp hpair
    obtain ⟨hkey, rfl⟩ := Prod.mk.inj hsame
    rwa [List.inj_on_of_nodup_map hnodup hy hx hkey] at hw
  · intro hv
    exact ⟨x, hx, by rw [hv, Option.map_some]⟩

end keyed

/-- What one of many contributes stands together, between what the others contribute. -/
theorem exists_flatMap_eq {α β : Type} {xs : List α} {write : α → List β} {x : α} (hnodup : xs.Nodup)
    (hx : x ∈ xs) :
    ∃ before after, xs.flatMap write = before ++ write x ++ after ∧
      ∀ y ∈ before ++ after, ∃ other ∈ xs, other ≠ x ∧ y ∈ write other := by
  obtain ⟨front, behind, rfl⟩ := List.append_of_mem hx
  have hapart : ∀ other ∈ front ++ behind, other ≠ x := by
    rw [List.nodup_middle, List.nodup_cons] at hnodup
    rintro other hother rfl
    exact hnodup.1 hother
  refine ⟨front.flatMap write, behind.flatMap write, by simp, ?_⟩
  intro y hy
  rw [← List.flatMap_append] at hy
  obtain ⟨other, hother, hwrite⟩ := List.mem_flatMap.mp hy
  refine ⟨other, ?_, hapart other hother, hwrite⟩
  rcases List.mem_append.mp hother with hfront | hbehind
  · exact List.mem_append_left _ hfront
  · exact List.mem_append_right _ (List.mem_cons_of_mem x hbehind)

namespace Value

@[simp] theorem same_text (s t : String) : same (.text s) (.text t) = (s == t) := by
  simp [same, sameScalar, size?, text?]

/-- Values are compared with texts as scalars. -/
theorem sameScalar_of_same {k : Value} {key : String} (h : same k (.text key) = true) :
    sameScalar k (.text key) = true := by
  cases k <;> simp only [same] at h <;> exact h

/-- Only a text is equal to a text. -/
theorem text?_of_same {k : Value} {key : String} (h : same k (.text key) = true) : k.text? = some key := by
  have hscalar := sameScalar_of_same h
  have hsize : (Value.text key).size? = none := by rw [size?] <;> exact nofun
  have htext : (Value.text key).text? = some key := rfl
  unfold sameScalar at hscalar
  rw [hsize, htext] at hscalar
  cases hk : k.size? with
  | some n =>
      rw [hk] at hscalar
      cases hscalar
  | none =>
      rw [hk] at hscalar
      cases hs : k.text? with
      | some s =>
          rw [hs] at hscalar
          rw [eq_of_beq hscalar]
      | none =>
          rw [hs] at hscalar
          cases hscalar

/-- What stands under a key is the value of an entry with the key. -/
theorem exists_mem_of_lookupText {key : String} {es : List (Value × Value)} {v : Value}
    (h : lookupText key es = some v) : ∃ e ∈ es, e.1.text? = some key ∧ e.2 = v := by
  obtain ⟨e, he, hv⟩ := Option.map_eq_some_iff.mp h
  have hsame : same e.1 (.text key) = true :=
    List.find?_some (p := fun e : Value × Value => same e.1 (.text key)) he
  exact ⟨e, List.mem_of_find?_eq_some he, text?_of_same hsame, hv⟩

/-- Among entries that are worked on one by one, what is under a key is what comes of the value that stands there. -/
theorem find?_each {α : Type} {work : Value → α} {each : List (Value × Value) → List (Value × α)}
    (hnil : each [] = []) (hcons : ∀ k v rest, each ((k, v) :: rest) = (k, work v) :: each rest) (key : String)
    (es : List (Value × Value)) :
    ((each es).find? fun e => e.1.same (.text key)).map (·.2) = (lookupText key es).map work := by
  unfold lookupText lookupKey
  induction es with
  | nil => rw [hnil]; rfl
  | cons e rest ih =>
      obtain ⟨k, v⟩ := e
      rw [hcons, List.find?_cons, List.find?_cons]
      cases k.same (.text key) with
      | true => rfl
      | false => exact ih

/-- Entries under textual keys. -/
def textEntries (es : List (String × Value)) : List (Value × Value) :=
  es.map fun e => (.text e.1, e.2)

@[simp] theorem textEntries_nil : textEntries [] = [] := rfl

@[simp] theorem textEntries_cons (e : String × Value) (es : List (String × Value)) :
    textEntries (e :: es) = (.text e.1, e.2) :: textEntries es := rfl

theorem textEntries_injective : Function.Injective textEntries := by
  apply List.map_injective_iff.mpr
  rintro ⟨key, v⟩ ⟨other, w⟩ hsame
  obtain ⟨hkey, hvalue⟩ := Prod.mk.inj hsame
  exact Prod.ext (Value.text.inj hkey) hvalue

theorem textEntries_append (xs ys : List (String × Value)) :
    textEntries (xs ++ ys) = textEntries xs ++ textEntries ys := by
  simp [textEntries]

/-- What stands under a key in two dictionaries is what stands there in the first, or else in the second. -/
theorem lookupText_append (key : String) (es fs : List (Value × Value)) :
    lookupText key (es ++ fs) = (lookupText key es).or (lookupText key fs) := by
  rw [lookupText, lookupText, lookupText, lookupKey, lookupKey, lookupKey, List.find?_append, Option.map_or]

theorem lookupText_textEntries (key : String) (es : List (String × Value)) :
    lookupText key (textEntries es) = es.lookup key := by
  induction es with
  | nil => rfl
  | cons e rest ih =>
      unfold lookupText lookupKey at ih ⊢
      rw [textEntries_cons, List.find?_cons, List.lookup_cons]
      by_cases hkey : key = e.1
      · simp [hkey]
      · have hother : (e.1 == key) = false := beq_false_of_ne fun h => hkey h.symm
        simpa [beq_false_of_ne hkey, hother] using ih

theorem putEntry_textEntries {key : String} {v : Value} {es : List (String × Value)}
    (hnew : key ∉ es.map Prod.fst) :
    putEntry (.text key) v (textEntries es) = textEntries (es ++ [(key, v)]) := by
  induction es with
  | nil => rfl
  | cons e rest ih =>
      rw [List.map_cons, List.mem_cons, not_or] at hnew
      have hother : e.1 ≠ key := fun h => hnew.1 h.symm
      simp [putEntry, hother, ih hnew.2]

/-- What is put under a key changes neither the kind of the keys nor that of the values. -/
theorem forall_mem_putEntry {p q : Value → Prop} {k v : Value} {es : List (Value × Value)} (hk : p k)
    (hv : q v) (hes : ∀ e ∈ es, p e.1 ∧ q e.2) :
    ∀ e ∈ putEntry k v es, p e.1 ∧ q e.2 := by
  induction es with
  | nil => exact List.forall_mem_singleton.mpr ⟨hk, hv⟩
  | cons e rest ih =>
      obtain ⟨hfirst, hrest⟩ := List.forall_mem_cons.mp hes
      rw [putEntry]
      split
      · exact List.forall_mem_cons.mpr ⟨⟨hfirst.1, hv⟩, hrest⟩
      · exact List.forall_mem_cons.mpr ⟨hfirst, ih hrest⟩

/-- A dictionary has keys and values of the kinds that its entries have. -/
theorem forall_mem_dictOf {p q : Value → Prop} {es : List (Value × Value)}
    (hes : ∀ e ∈ es, p e.1 ∧ q e.2) : ∀ e ∈ dictOf es, p e.1 ∧ q e.2 := by
  have hput : ∀ before : List (Value × Value), (∀ e ∈ before, p e.1 ∧ q e.2) →
      ∀ e ∈ es.foldl (fun all e => putEntry e.1 e.2 all) before, p e.1 ∧ q e.2 := by
    induction es with
    | nil => exact fun _ hbefore => hbefore
    | cons e rest ih =>
        obtain ⟨he, hrest⟩ := List.forall_mem_cons.mp hes
        exact fun before hbefore => ih hrest _ (forall_mem_putEntry he.1 he.2 hbefore)
  exact hput [] (List.forall_mem_nil _)

/-- Entries under different textual keys are a dictionary as they are. -/
theorem dictOf_textEntries {es : List (String × Value)} (hkeys : (es.map Prod.fst).Nodup) :
    dictOf (textEntries es) = textEntries es := by
  have hput : ∀ xs ys : List (String × Value), ((ys ++ xs).map Prod.fst).Nodup →
      (textEntries xs).foldl (fun all e => putEntry e.1 e.2 all) (textEntries ys) = textEntries (ys ++ xs) := by
    intro xs
    induction xs with
    | nil => simp
    | cons x rest ih =>
        intro ys hys
        have hnew : x.1 ∉ ys.map Prod.fst := by
          rw [List.map_append, List.nodup_append] at hys
          intro hx
          exact hys.2.2 x.1 hx x.1 (by simp) rfl
        rw [textEntries_cons, List.foldl_cons, putEntry_textEntries hnew]
        have hnext := ih (ys ++ [x]) (by simpa using hys)
        simpa using hnext
  exact hput es [] (by simpa using hkeys)

/-- Under a textual key stands what was put there last. -/
theorem lookupText_putEntry (key k : String) (v : Value) (es : List (Value × Value)) :
    lookupText key (putEntry (.text k) v es) = if k = key then some v else lookupText key es := by
  induction es with
  | nil => by_cases hkey : k = key <;> simp [putEntry, lookupText, lookupKey, hkey]
  | cons e rest ih =>
      obtain ⟨k', w⟩ := e
      unfold lookupText lookupKey at ih ⊢
      rw [putEntry]
      by_cases hput : same k' (.text k) = true
      · rw [if_pos hput, List.find?_cons, List.find?_cons]
        by_cases hkey : k = key
        · subst hkey
          simp [hput]
        · have hother : same k' (.text key) = false := by
            refine Bool.eq_false_iff.mpr fun hsame => hkey ?_
            exact Option.some.inj ((text?_of_same hput).symm.trans (text?_of_same hsame))
          simp [hother, hkey]
      · rw [if_neg hput, List.find?_cons, List.find?_cons]
        by_cases hkey : k = key
        · subst hkey
          simpa [Bool.eq_false_iff.mpr hput] using ih
        · cases hsame : same k' (.text key) with
          | true => simp [hkey]
          | false => simpa [hkey] using ih

/-- In a dictionary that is made of many, under a textual key stands the value of the last that has the key. -/
theorem lookupText_dictOf_map {α : Type} (name : α → String) (value : α → Value) (key : String) (xs : List α) :
    lookupText key (dictOf (xs.map fun x => (.text (name x), value x))) =
      (xs.reverse.find? fun x => name x == key).map value := by
  have hput : ∀ start, lookupText key ((xs.map fun x => (Value.text (name x), value x)).foldl
      (fun all e => putEntry e.1 e.2 all) start) =
        ((xs.reverse.find? fun x => name x == key).map value).or (lookupText key start) := by
    induction xs with
    | nil => intro start; rfl
    | cons x rest ih =>
        intro start
        rw [List.map_cons, List.foldl_cons, ih, lookupText_putEntry, List.reverse_cons, List.find?_append,
          Option.map_or, Option.or_assoc, List.find?_singleton]
        by_cases hkey : name x = key <;> simp [hkey]
  exact (hput []).trans Option.or_none

end Value
end Intake
