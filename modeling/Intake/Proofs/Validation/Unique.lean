import Intake.Proofs.Json.Tree
import Intake.Proofs.Validation.Safety
import Intake.Proofs.Value.Entries
import Intake.Validation.Record

/-!
Items that differ. The rule that asks for unique items is broken by twins, which are items at different places with
the same structure. Scalars are compared themselves. Lists and dictionaries are compared by their documents, in
which the two halves of a character cannot be told from the character; without such halves the rule is broken by
twins alone.
-/

namespace Intake.Validation

open Json

/-- Items at different places that have the same structure. -/
def HasTwins (xs : List Value) : Prop :=
  ∃ (i j : Nat) (hi : i < xs.length) (hj : j < xs.length), i ≠ j ∧ Alike xs[i] xs[j]

/-- Items of one type of scalars, or lists and dictionaries with texts that are allowed. -/
inductive IsUniform (allowed : List Nat → Prop) : List Value → Prop where
  | texts {xs : List Value} (hxs : ∀ x ∈ xs, IsText (fun _ => True) x) : IsUniform allowed xs
  | ints {xs : List Value} (hxs : ∀ x ∈ xs, ∃ i, x = .int i) : IsUniform allowed xs
  | bools {xs : List Value} (hxs : ∀ x ∈ xs, ∃ b, x = .bool b) : IsUniform allowed xs
  | uuids {xs : List Value} (hxs : ∀ x ∈ xs, ∃ u, x = .uuid u) : IsUniform allowed xs
  | branches {xs : List Value} (hxs : ∀ x ∈ xs, isBranch x = true ∧ IsTree allowed x) : IsUniform allowed xs

/-- What stands for an item in the comparison: the item, or its document. -/
def keyOf (v : Value) : Value := if isBranch v then .text (document v) else v

/-- Scalars that are compared as they are. -/
inductive IsPlain : Value → Prop where
  | text {v : Value} (hv : IsText (fun _ => True) v) : IsPlain v
  | int (i : Int) : IsPlain (.int i)
  | bool (b : Bool) : IsPlain (.bool b)
  | uuid (u : Uuid) : IsPlain (.uuid u)

/-! ### Keys -/

section keys

variable {allowed : List Nat → Prop} {v w : Value} {xs : List Value}

theorem IsPlain.isBranch_eq_false (hv : IsPlain v) : isBranch v = false := by
  cases hv with
  | text hv => exact isBranch_of_isText hv
  | _ => rfl

theorem keyOf_of_isPlain (hv : IsPlain v) : keyOf v = v := by
  rw [keyOf, hv.isBranch_eq_false, if_neg Bool.false_ne_true]

theorem uniqueKey_of_isPlain (hv : IsPlain v) : uniqueKey v = .ok (keyOf v) := by
  have hhashable : v.isHashable = true := by
    cases hv with
    | text hv => cases hv <;> rfl
    | _ => rfl
  rw [uniqueKey.eq_def, if_pos hhashable, keyOf_of_isPlain hv]

theorem uniqueKey_of_isBranch (hv : isBranch v = true) (htree : IsTree allowed v) : uniqueKey v = .ok (keyOf v) := by
  have hhashable : v.isHashable = false := by
    cases v with
    | list _ | dict _ => rfl
    | _ => cases hv
  rw [uniqueKey.eq_def, hhashable, if_neg Bool.false_ne_true, keyOf, if_pos hv]
  cases v with
  | list _ | dict _ =>
      simp only [dump_eq_ok htree]
      rfl
  | _ => cases hv

/-- Uniform items are scalars that are compared as they are, or trees that are compared by their documents. -/
theorem IsUniform.plain_or_branch (hxs : IsUniform allowed xs) :
    (∀ x ∈ xs, IsPlain x) ∨ ∀ x ∈ xs, isBranch x = true ∧ IsTree allowed x := by
  cases hxs with
  | texts hxs => exact Or.inl fun x hx => .text (hxs x hx)
  | ints hxs =>
      refine Or.inl fun x hx => ?_
      obtain ⟨i, rfl⟩ := hxs x hx
      exact .int i
  | bools hxs =>
      refine Or.inl fun x hx => ?_
      obtain ⟨b, rfl⟩ := hxs x hx
      exact .bool b
  | uuids hxs =>
      refine Or.inl fun x hx => ?_
      obtain ⟨u, rfl⟩ := hxs x hx
      exact .uuid u
  | branches hxs => exact Or.inr hxs

theorem uniqueKey_of_isUniform (hxs : IsUniform allowed xs) : ∀ x ∈ xs, uniqueKey x = .ok (keyOf x) := by
  rcases hxs.plain_or_branch with hplain | hbranch
  · exact fun x hx => uniqueKey_of_isPlain (hplain x hx)
  · exact fun x hx => uniqueKey_of_isBranch (hbranch x hx).1 (hbranch x hx).2

/-- Keys of uniform items are the same if they are equal: no truth value stands among integers. -/
theorem same_keyOf_iff (hxs : IsUniform allowed xs) (hv : v ∈ xs) (hw : w ∈ xs) :
    (keyOf v).same (keyOf w) = true ↔ keyOf v = keyOf w := by
  cases hxs with
  | texts hxs =>
      rw [keyOf_of_isPlain (.text (hxs v hv)), keyOf_of_isPlain (.text (hxs w hw))]
      cases hxs v hv <;> cases hxs w hw <;> simp [Value.same, Value.sameScalar, Value.size?, Value.text?]
  | ints hxs =>
      obtain ⟨i, rfl⟩ := hxs v hv
      obtain ⟨k, rfl⟩ := hxs w hw
      simp [keyOf, isBranch, Value.same, Value.sameScalar, Value.size?, Value.Size.same]
  | bools hxs =>
      obtain ⟨b, rfl⟩ := hxs v hv
      obtain ⟨d, rfl⟩ := hxs w hw
      cases b <;> cases d <;> simp [keyOf, isBranch, Value.same, Value.sameScalar, Value.size?, Value.Size.same]
  | uuids hxs =>
      obtain ⟨u, rfl⟩ := hxs v hv
      obtain ⟨t, rfl⟩ := hxs w hw
      simp [keyOf, isBranch, Value.same, Value.sameScalar, Value.size?, Value.text?]
  | branches hxs =>
      rw [keyOf, keyOf, if_pos (hxs v hv).1, if_pos (hxs w hw).1, Value.same_text, beq_iff_eq, Value.text.injEq]

theorem alike_iff_eq_of_isPlain (hv : IsPlain v) : Alike v w ↔ v = w := by
  constructor
  · intro h
    cases h with
    | scalar _ => rfl
    | list _ _ => cases hv.isBranch_eq_false
    | dict _ _ _ _ => cases hv.isBranch_eq_false
  · rintro rfl
    exact .scalar hv.isBranch_eq_false

/-- Items that are alike have one key. -/
theorem keyOf_eq_of_alike (hxs : IsUniform allowed xs) (hv : v ∈ xs) (hw : w ∈ xs) (h : Alike v w) :
    keyOf v = keyOf w := by
  rcases hxs.plain_or_branch with hplain | hbranch
  · rw [(alike_iff_eq_of_isPlain (hplain v hv)).mp h]
  · rw [keyOf, keyOf, if_pos (hbranch v hv).1, if_pos (hbranch w hw).1,
      document_eq_of_alike h (hbranch v hv).2 (hbranch w hw).2]

/-- Items with one key are alike, if no halves of a character stand next to each other. -/
theorem alike_of_keyOf_eq (hxs : IsUniform IsJoined xs) (hv : v ∈ xs) (hw : w ∈ xs) (h : keyOf v = keyOf w) :
    Alike v w := by
  rcases hxs.plain_or_branch with hplain | hbranch
  · rw [keyOf_of_isPlain (hplain v hv), keyOf_of_isPlain (hplain w hw)] at h
    exact (alike_iff_eq_of_isPlain (hplain v hv)).mpr h
  · rw [keyOf, keyOf, if_pos (hbranch v hv).1, if_pos (hbranch w hw).1, Value.text.injEq] at h
    exact (document_eq_iff_alike (hbranch v hv).2 (hbranch w hw).2).mp h

end keys

/-! ### Comparing -/

section compare

variable {allowed : List Nat → Prop} {xs : List Value}

/-- All items differ, from each other and from those before, exactly if their keys do. -/
theorem allUnique_iff {key : Value → Value} (hkey : ∀ x ∈ xs, uniqueKey x = .ok (key x)) (seen : List Value) :
    ∃ unique, allUnique seen xs = .ok unique ∧
      (unique = true ↔ (∀ x ∈ xs, ∀ k ∈ seen, (key x).same k = false) ∧
        xs.Pairwise fun x y => (key y).same (key x) = false) := by
  induction xs generalizing seen with
  | nil => exact ⟨true, rfl, by simp⟩
  | cons x rest ih =>
      obtain ⟨hx, hrest⟩ := List.forall_mem_cons.mp hkey
      rw [allUnique, hx, ok_bind]
      by_cases hseen : seen.any (key x).same = true
      · refine ⟨false, by rw [if_pos hseen]; rfl, ?_⟩
        obtain ⟨k, hk, hsame⟩ := List.any_eq_true.mp hseen
        constructor
        · exact fun h => absurd h Bool.false_ne_true
        · rintro ⟨hapart, -⟩
          rw [hapart x List.mem_cons_self k hk] at hsame
          cases hsame
      · obtain ⟨unique, hunique, hiff⟩ := ih hrest (key x :: seen)
        have hnew : ∀ k ∈ seen, (key x).same k = false := by
          intro k hk
          rw [Bool.eq_false_iff]
          exact fun hsame => hseen (List.any_eq_true.mpr ⟨k, hk, hsame⟩)
        refine ⟨unique, by rw [if_neg hseen]; exact hunique, ?_⟩
        rw [hiff, List.pairwise_cons, List.forall_mem_cons]
        constructor
        · rintro ⟨hapart, hpairs⟩
          exact ⟨⟨hnew, fun y hy k hk => hapart y hy k (List.mem_cons_of_mem _ hk)⟩,
            fun y hy => hapart y hy _ List.mem_cons_self, hpairs⟩
        · rintro ⟨⟨-, hapart⟩, hfirst, hpairs⟩
          refine ⟨fun y hy k hk => ?_, hpairs⟩
          rcases List.mem_cons.mp hk with rfl | hk
          · exact hfirst y hy
          · exact hapart y hy k hk

/-- Uniform items differ exactly if no two of them, at different places, have one key. -/
theorem allUnique_of_isUniform (hxs : IsUniform allowed xs) :
    ∃ unique, allUnique [] xs = .ok unique ∧
      (unique = false ↔ ∃ (i j : Nat) (hi : i < xs.length) (hj : j < xs.length), i ≠ j ∧ keyOf xs[i] = keyOf xs[j]) := by
  obtain ⟨unique, hunique, hiff⟩ := allUnique_iff (uniqueKey_of_isUniform hxs) []
  refine ⟨unique, hunique, ?_⟩
  have hpair : ∀ (i j : Nat) (hi : i < xs.length) (hj : j < xs.length),
      (keyOf xs[j]).same (keyOf xs[i]) = false ↔ keyOf xs[i] ≠ keyOf xs[j] := by
    intro i j hi hj
    rw [Bool.eq_false_iff, ne_eq, same_keyOf_iff hxs (List.getElem_mem hj) (List.getElem_mem hi), ne_eq, eq_comm]
  rw [← Bool.not_eq_true, hiff, List.pairwise_iff_getElem]
  simp only [hpair, List.not_mem_nil, false_imp_iff, implies_true, true_and]
  constructor
  · intro hsome
    by_contra hnone
    exact hsome fun i j hi hj hlt hsame => hnone ⟨i, j, hi, hj, Nat.ne_of_lt hlt, hsame⟩
  · rintro ⟨i, j, hi, hj, hne, hsame⟩ hall
    rcases Nat.lt_or_gt_of_ne hne with hlt | hgt
    · exact hall i j hi hj hlt hsame
    · exact hall j i hj hi hgt hsame.symm

theorem keys_of_hasTwins (hxs : IsUniform allowed xs) (h : HasTwins xs) :
    ∃ (i j : Nat) (hi : i < xs.length) (hj : j < xs.length), i ≠ j ∧ keyOf xs[i] = keyOf xs[j] := by
  obtain ⟨i, j, hi, hj, hne, halike⟩ := h
  exact ⟨i, j, hi, hj, hne, keyOf_eq_of_alike hxs (List.getElem_mem hi) (List.getElem_mem hj) halike⟩

theorem hasTwins_of_keys (hxs : IsUniform IsJoined xs)
    (h : ∃ (i j : Nat) (hi : i < xs.length) (hj : j < xs.length), i ≠ j ∧ keyOf xs[i] = keyOf xs[j]) :
    HasTwins xs := by
  obtain ⟨i, j, hi, hj, hne, hkeys⟩ := h
  exact ⟨i, j, hi, hj, hne, alike_of_keyOf_eq hxs (List.getElem_mem hi) (List.getElem_mem hj) hkeys⟩

end compare

/-! ### The rule -/

/-- The rule that asks for items that differ. -/
def uniqueRule : String := "uniqueItems"

/-- The message about items that do not differ. -/
def uniqueMessage : String := "must have unique items"

/-- The rule asks whether the items differ. -/
theorem applyRule_unique (c : Catalogue) (m : Model) {d : Descriptor} (path : String) {v : Value} {xs : List Value}
    {r : Rule} {unique : Bool} (j : Journal) (hd : d.kind = .array) (hr : r.name = uniqueRule)
    (hv : v.items? = some xs) (hunique : allUnique [] xs = .ok unique) :
    (applyRule c m d path v r).outcome j =
      (.ok (if unique then [] else [⟨path, d.messages.resolve uniqueRule uniqueMessage⟩]), j) := by
  have hjudge : judge d r v = .ok (messageUnless unique uniqueMessage) := by
    have hitems : itemsOf v = .ok xs := by rw [itemsOf, traverse?_of_items? hv]
    have hcount : countRules.contains r.name = false := by rw [hr]; decide
    have hname : (r.name == "uniqueItems") = true := by rw [hr]; decide
    simp only [judge, hd, hcount, hname, hitems, Bool.false_eq_true, if_false, if_true]
    rw [lift, Except.mapError, ok_bind, hunique]
    rfl
  have hnull : v.isNull = false := by
    cases v with
    | null => cases hv
    | _ => rfl
  have hrequired : (r.name == "required") = false := by rw [hr]; decide
  have hempty : (r.name == emptyItemsRule || v.isNull) = false := by rw [hr, hnull]; decide
  have hformat : (r.name == "format" && r.arg != some "email") = false := by
    rw [hr, show (uniqueRule == "format") = false by decide, Bool.false_and]
  rw [applyRule, hrequired, hempty, hformat, hjudge, hr]
  cases unique <;> rfl

/-- The rule that asks for items that differ is broken by twins, among the items of an array that are all texts, all
integers, all truth values, all identifiers, or all lists and dictionaries. It is broken by nothing else where
lists and dictionaries have no halves of a character next to each other. As much holds of documents: trees that are
alike have one document, and trees with one document are alike if they have no such halves. -/
theorem uniqueItems_exact (c : Catalogue) (m : Model) (d : Descriptor) (path : String) (j : Journal)
    (hd : d.kind = .array) :
    (∀ (r : Rule) (v : Value) (xs : List Value), r.name = uniqueRule → v.items? = some xs →
      IsUniform (fun _ => True) xs → ∃ errors,
        (applyRule c m d path v r).outcome j = (.ok errors, j) ∧
        (errors = [] ∨ errors = [⟨path, d.messages.resolve uniqueRule uniqueMessage⟩]) ∧
        (HasTwins xs → errors ≠ []) ∧ (IsUniform IsJoined xs → errors ≠ [] → HasTwins xs)) ∧
    ∀ v w : Value, IsTree (fun _ => True) v → IsTree (fun _ => True) w →
      ∃ s t, dump v = .ok s ∧ dump w = .ok t ∧ (Alike v w → s = t) ∧
        (IsTree IsJoined v → IsTree IsJoined w → s = t → Alike v w) := by
  refine ⟨fun r v xs hr hv hxs => ?_, fun v w hv hw => ?_⟩
  · obtain ⟨unique, hunique, hiff⟩ := allUnique_of_isUniform hxs
    refine ⟨_, applyRule_unique c m path j hd hr hv hunique, ?_, fun htwins => ?_, fun hjoined herrors => ?_⟩
    · cases unique <;> simp
    · rw [hiff.mpr (keys_of_hasTwins hxs htwins)]
      exact List.cons_ne_nil _ _
    · refine hasTwins_of_keys hjoined (hiff.mp ?_)
      cases unique
      · rfl
      · exact absurd rfl herrors
  · exact ⟨document v, document w, dump_eq_ok hv, dump_eq_ok hw, fun h => document_eq_of_alike h hv hw,
      fun hv hw h => (document_eq_iff_alike hv hw).mp h⟩

/-- A field with a list in which items must differ. -/
def listField : Descriptor :=
  { (default : Descriptor) with name := "f", wireName := "f", kind := .array, rules := [⟨uniqueRule, none⟩] }

/-- A dictionary of two texts. -/
def pair (first second : String) : Value := .dict [(.text first, .int 1), (.text second, .null)]

theorem isTree_pair {allowed : List Nat → Prop} {first second : String} (hne : first ≠ second)
    (hfirst : allowed (codesOf first)) (hsecond : allowed (codesOf second)) : IsTree allowed (pair first second) := by
  refine .dict ?_ ?_ (by simp [hne])
  · exact List.forall_mem_cons.mpr ⟨.whole hfirst, List.forall_mem_singleton.mpr (.whole hsecond)⟩
  · exact List.forall_mem_cons.mpr ⟨.int 1, List.forall_mem_singleton.mpr .null⟩

/-- Of two items both are twins, in some order. -/
theorem alike_of_hasTwins {v w : Value} (h : HasTwins [v, w]) : Alike v w ∨ Alike w v := by
  obtain ⟨i, j, hi, hj, hne, halike⟩ := h
  simp only [List.length_cons, List.length_nil] at hi hj
  match i, j, hi, hj with
  | 0, 0, _, _ | 1, 1, _, _ => exact absurd rfl hne
  | 0, 1, _, _ => exact Or.inl halike
  | 1, 0, _, _ => exact Or.inr halike

/-- Lists of one item are alike by that item. -/
theorem alike_of_alike_list {v w : Value} (h : Alike (.list [v]) (.list [w])) : Alike v w := by
  cases h with
  | scalar hv => cases hv
  | list _ hitems => exact hitems 0 (Nat.one_pos) (Nat.one_pos)

/-- Dictionaries that are alike have the same keys. -/
theorem exists_of_alike_dict {es fs : List (Value × Value)} (h : Alike (.dict es) (.dict fs)) :
    ∀ e ∈ es, ∃ u, (e.1, u) ∈ fs := by
  cases h with
  | scalar hv => cases hv
  | dict partner _ hin _ => exact fun e he => ⟨partner e, hin e he⟩

/-- The order of entries does not count, and a truth value is no integer. -/
theorem uniqueItems_exact_pairs :
    (∃ errors, (applyRule default default listField "f" (.list [pair "a" "b", .dict [(.text "b", .null),
        (.text "a", .int 1)]]) ⟨uniqueRule, none⟩).outcome .empty = (.ok errors, .empty) ∧ errors ≠ []) ∧
    (∃ errors, (applyRule default default listField "f" (.list [.list [.int 1], .list [.bool true]])
        ⟨uniqueRule, none⟩).outcome .empty = (.ok errors, .empty) ∧ errors = []) ∧
    ∃ s t, dump (pair "a" "b") = .ok s ∧ dump (pair "a" "c") = .ok t ∧ s ≠ t := by
  obtain ⟨hrule, hdocument⟩ := uniqueItems_exact default default listField "f" .empty rfl
  have hjoined : IsJoined (codesOf "a") ∧ IsJoined (codesOf "b") ∧ IsJoined (codesOf "c") := by
    unfold IsJoined
    decide
  refine ⟨?_, ?_, ?_⟩
  · have hturned : IsTree (fun _ => True) (.dict [(.text "b", .null), (.text "a", .int 1)]) := by
      refine .dict ?_ ?_ (by simp)
      · exact List.forall_mem_cons.mpr ⟨.whole trivial, List.forall_mem_singleton.mpr (.whole trivial)⟩
      · exact List.forall_mem_cons.mpr ⟨.null, List.forall_mem_singleton.mpr (.int 1)⟩
    have hpair : IsTree (fun _ => True) (pair "a" "b") := isTree_pair (by decide) trivial trivial
    obtain ⟨errors, hrun, -, htwins, -⟩ := hrule ⟨uniqueRule, none⟩ (.list _) _ rfl rfl
      (.branches (List.forall_mem_cons.mpr ⟨⟨rfl, hpair⟩, List.forall_mem_singleton.mpr ⟨rfl, hturned⟩⟩))
    refine ⟨errors, hrun, htwins ⟨0, 1, by decide, by decide, by decide, .dict Prod.snd rfl ?_ ?_⟩⟩
    · exact List.forall_mem_cons.mpr ⟨by simp, List.forall_mem_singleton.mpr (by simp)⟩
    · exact List.forall_mem_cons.mpr ⟨.scalar rfl, List.forall_mem_singleton.mpr (.scalar rfl)⟩
  · have hlists : ∀ allowed, IsUniform allowed [.list [.int 1], .list [.bool true]] := fun allowed =>
      .branches (List.forall_mem_cons.mpr ⟨⟨rfl, .list (List.forall_mem_singleton.mpr (.int 1))⟩,
        List.forall_mem_singleton.mpr ⟨rfl, .list (List.forall_mem_singleton.mpr (.bool true))⟩⟩)
    obtain ⟨errors, hrun, -, -, hnone⟩ := hrule ⟨uniqueRule, none⟩ (.list _) _ rfl rfl (hlists _)
    refine ⟨errors, hrun, ?_⟩
    by_contra hsome
    rcases alike_of_hasTwins (hnone (hlists _) hsome) with halike | halike
    · cases alike_of_alike_list halike
    · cases alike_of_alike_list halike
  · obtain ⟨s, t, hs, ht, -, hsame⟩ := hdocument _ _ (isTree_pair (by decide) trivial trivial : IsTree _ (pair "a" "b"))
      (isTree_pair (by decide) trivial trivial : IsTree _ (pair "a" "c"))
    refine ⟨s, t, hs, ht, fun heq => ?_⟩
    have halike := hsame (isTree_pair (by decide) hjoined.1 hjoined.2.1) (isTree_pair (by decide) hjoined.1 hjoined.2.2) heq
    obtain ⟨u, hu⟩ := exists_of_alike_dict halike (.text "b", .null) (by simp)
    simp at hu

/-- A list with the two halves of a character, and one with the character. -/
def halved : List Value := [.list [.brokenText [0xD83D, 0xDE00]], .list [.text "😀"]]

/-- The halves of a character and the character itself are not alike, but their documents are the same, so the rule
is broken. -/
theorem uniqueItems_confuses_halves :
    IsUniform (fun _ => True) halved ∧ ¬ HasTwins halved ∧
      (applyRule default default listField "f" (.list halved) ⟨uniqueRule, none⟩).outcome .empty =
        (.ok [⟨"f", listField.messages.resolve uniqueRule uniqueMessage⟩], .empty) ∧
      (applyRule default default listField "f" (.list [.brokenText [0xD83D, 0xDE00], .text "😀"])
        ⟨uniqueRule, none⟩).outcome .empty = (.ok [], .empty) := by
  have hunique : ∀ {xs : List Value} {unique : Bool}, (allUnique [] xs).toOption = some unique →
      allUnique [] xs = .ok unique := by
    intro xs unique h
    cases hfound : allUnique [] xs with
    | error fault =>
        rw [hfound] at h
        cases h
    | ok found =>
        rw [hfound] at h
        rw [Option.some.inj h]
  refine ⟨.branches ?_, fun htwins => ?_, ?_, ?_⟩
  · refine List.forall_mem_cons.mpr ⟨⟨rfl, .list (List.forall_mem_singleton.mpr (.text (.broken ?_ rfl trivial)))⟩,
      List.forall_mem_singleton.mpr ⟨rfl, .list (List.forall_mem_singleton.mpr (.text (.whole trivial)))⟩⟩
    decide
  · rcases alike_of_hasTwins htwins with halike | halike
    · cases alike_of_alike_list halike
    · cases alike_of_alike_list halike
  · have hsame : (allUnique [] halved).toOption = some false := by decide +kernel
    exact applyRule_unique default default "f" .empty rfl rfl rfl (hunique hsame)
  · have hother : (allUnique [] [.brokenText [0xD83D, 0xDE00], .text "😀"]).toOption = some true := by decide +kernel
    exact applyRule_unique default default "f" .empty rfl rfl rfl (hunique hother)

end Intake.Validation
