import Intake.Proofs.Outcome

/-!
Remarks: notices that are made once for their occasion. An operation that makes nothing but remarks comes
to one result and tells one row of remarks, whatever was noted before; a journal takes those of them that
are new to it.
-/

namespace Intake

/-- A notice with the occasion that it is made for once. -/
structure Remark where
  occasion : Occasion
  notice : Notice

namespace Journal

/-- Takes a remark, unless its occasion was noted before. -/
def take (j : Journal) (remark : Remark) : Journal := j.noteOnce remark.occasion remark.notice

/-- The remarks of a row that are new where some occasions were noted. -/
def unseen : List Occasion → List Remark → List Remark
  | _, [] => []
  | seen, remark :: rest =>
    if seen.contains remark.occasion then unseen seen rest
    else remark :: unseen (seen ++ [remark.occasion]) rest

theorem foldl_take (remarks : List Remark) (j : Journal) :
    remarks.foldl take j =
      ⟨j.notices ++ (unseen j.seen remarks).map Remark.notice,
        j.seen ++ (unseen j.seen remarks).map Remark.occasion⟩ := by
  induction remarks generalizing j with
  | nil => simp [unseen]
  | cons remark rest ih =>
      rw [List.foldl_cons, ih, take, noteOnce, unseen]
      split <;> simp

theorem mem_unseen {seen : List Occasion} {remarks : List Remark} {remark : Remark}
    (hremark : remark ∈ unseen seen remarks) : remark ∈ remarks ∧ remark.occasion ∉ seen := by
  induction remarks generalizing seen with
  | nil => simp [unseen] at hremark
  | cons first rest ih =>
      rw [unseen] at hremark
      split at hremark
      · obtain ⟨hrest, hnew⟩ := ih hremark
        exact ⟨List.mem_cons_of_mem first hrest, hnew⟩
      · rename_i hfirst
        rcases List.mem_cons.mp hremark with rfl | hremark
        · exact ⟨List.mem_cons_self, fun hseen => hfirst (List.contains_iff_mem.mpr hseen)⟩
        · obtain ⟨hrest, hnew⟩ := ih hremark
          exact ⟨List.mem_cons_of_mem first hrest, fun hseen => hnew (List.mem_append_left _ hseen)⟩

/-- An occasion is noted if a remark is made for it and it was not noted before. -/
theorem occasion_mem_unseen_iff {seen : List Occasion} {remarks : List Remark} {o : Occasion} :
    o ∈ (unseen seen remarks).map Remark.occasion ↔
      o ∉ seen ∧ ∃ remark ∈ remarks, remark.occasion = o := by
  constructor
  · intro ho
    obtain ⟨remark, hremark, rfl⟩ := List.mem_map.mp ho
    obtain ⟨hmem, hnew⟩ := mem_unseen hremark
    exact ⟨hnew, remark, hmem, rfl⟩
  · rintro ⟨hnew, remark, hremark, rfl⟩
    induction remarks generalizing seen with
    | nil => cases hremark
    | cons first rest ih =>
        rw [unseen]
        rcases List.mem_cons.mp hremark with rfl | hrest
        · rw [if_neg (by simpa using hnew)]
          exact List.mem_cons_self
        · split
          · exact ih hrest hnew
          · by_cases hsame : remark.occasion = first.occasion
            · rw [hsame]
              exact List.mem_cons_self
            · exact List.mem_cons_of_mem _ (ih hrest (by simp [hnew, hsame]))

/-- No occasion is noted twice. -/
theorem nodup_unseen (seen : List Occasion) (remarks : List Remark) :
    ((unseen seen remarks).map Remark.occasion).Nodup := by
  induction remarks generalizing seen with
  | nil => exact List.nodup_nil
  | cons first rest ih =>
      rw [unseen]
      split
      · exact ih seen
      · refine List.nodup_cons.mpr ⟨?_, ih _⟩
        rw [occasion_mem_unseen_iff]
        simp

end Journal

namespace Action

variable {α β : Type}

/-- An operation that tells a row of remarks and comes to a result, whatever was noted before. -/
def Tells (a : Action α) (remarks : List Remark) (result : Except Fault α) : Prop :=
  ∀ j, a.outcome j = (result, remarks.foldl Journal.take j)

theorem tells_pure (v : α) : Tells (pure v : Action α) [] (.ok v) := fun _ => rfl

theorem tells_liftM (x : Except Fault α) : Tells (liftM x : Action α) [] x := fun _ => rfl

theorem Tells.bind {a : Action α} {f : α → Action β} {first second : List Remark} {v : α}
    {result : Except Fault β} (ha : Tells a first (.ok v)) (hf : Tells (f v) second result) :
    Tells (a >>= f) (first ++ second) result := by
  intro j
  rw [outcome_bind, ha j, List.foldl_append]
  exact hf _

theorem Tells.bind_error {a : Action α} {remarks : List Remark} {fault : Fault}
    (ha : Tells a remarks (.error fault)) (f : α → Action β) : Tells (a >>= f) remarks (.error fault) := by
  intro j
  rw [outcome_bind, ha j]

theorem Tells.bind_pure {a : Action α} {remarks : List Remark} {result : Except Fault α}
    (ha : Tells a remarks result) (f : α → β) : Tells (a >>= fun v => pure (f v)) remarks (result.map f) := by
  intro j
  rw [outcome_bind, ha j]
  cases result <;> rfl

/-- An operation that tells of nothing but what there is to remark, and of all of it if it comes to an end
without a fault. -/
def Reports (a : Action α) (there : Remark → Prop) : Prop :=
  ∃ remarks result, Tells a remarks result ∧ (∀ remark ∈ remarks, there remark) ∧
    ∀ v, result = .ok v → ∀ remark, there remark → remark ∈ remarks

variable {there elsewhere : Remark → Prop}

theorem Reports.congr {a : Action α} (ha : Reports a there) (hsame : ∀ remark, there remark ↔ elsewhere remark) :
    Reports a elsewhere := by
  obtain ⟨remarks, result, htells, hsound, hall⟩ := ha
  exact ⟨remarks, result, htells, fun remark hremark => (hsame remark).mp (hsound remark hremark),
    fun v hv remark hremark => hall v hv remark ((hsame remark).mpr hremark)⟩

theorem reports_pure (v : α) : Reports (pure v : Action α) fun _ => False :=
  ⟨[], .ok v, tells_pure v, by simp, fun _ _ _ hnothing => hnothing.elim⟩

/-- Where there is nothing to remark, all of it is told at once. -/
theorem reports_none (v : α) (hnone : ∀ remark, ¬there remark) : Reports (pure v : Action α) there :=
  (reports_pure v).congr fun remark => ⟨False.elim, hnone remark⟩

theorem reports_liftM (x : Except Fault α) : Reports (liftM x : Action α) fun _ => False :=
  ⟨[], x, tells_liftM x, by simp, fun _ _ _ hnothing => hnothing.elim⟩

/-- What fails at once tells nothing of what there would be to remark. -/
theorem reports_of_fault (a : Action α) (fault : Fault) (ha : Tells a [] (.error fault)) (there : Remark → Prop) :
    Reports a there :=
  ⟨[], .error fault, ha, by simp, by simp⟩

/-- One operation after another tells of what there is to remark for either. -/
theorem Reports.bind {a : Action α} {f : α → Action β} (ha : Reports a there) (hf : ∀ v, Reports (f v) elsewhere) :
    Reports (a >>= f) fun remark => there remark ∨ elsewhere remark := by
  obtain ⟨first, result, htells, hsound, hall⟩ := ha
  rcases result with fault | v
  · exact ⟨first, .error fault, htells.bind_error f, fun remark hremark => Or.inl (hsound remark hremark), by simp⟩
  · obtain ⟨second, result, htells', hsound', hall'⟩ := hf v
    refine ⟨first ++ second, result, htells.bind htells', ?_, ?_⟩
    · intro remark hremark
      exact (List.mem_append.mp hremark).imp (hsound remark) (hsound' remark)
    · intro w hw remark hremark
      exact List.mem_append.mpr (hremark.imp (hall v rfl remark) (hall' w hw remark))

/-- What follows without remarks changes nothing about them. -/
theorem Reports.bind_pure {a : Action α} {f : α → Action β} (ha : Reports a there)
    (hf : ∀ v, Reports (f v) fun _ => False) : Reports (a >>= f) there :=
  (ha.bind hf).congr fun remark => by simp

theorem reports_mapM {f : α → Action β} {there : α → Remark → Prop} {xs : List α}
    (hxs : ∀ x ∈ xs, Reports (f x) (there x)) : Reports (xs.mapM f) fun remark => ∃ x ∈ xs, there x remark := by
  induction xs with
  | nil => exact reports_none [] (by simp)
  | cons x rest ih =>
      rw [List.mapM_cons]
      have hrest := ih fun y hy => hxs y (List.mem_cons_of_mem x hy)
      have hlast : ∀ v, Reports (do return v :: (← rest.mapM f) : Action (List β)) _ := fun v =>
        hrest.bind_pure fun w => reports_pure (v :: w)
      exact ((hxs x List.mem_cons_self).bind hlast).congr fun remark => by simp

theorem reports_forM {f : α → Action PUnit} {there : α → Remark → Prop} {xs : List α}
    (hxs : ∀ x ∈ xs, Reports (f x) (there x)) : Reports (xs.forM f) fun remark => ∃ x ∈ xs, there x remark := by
  induction xs with
  | nil => exact reports_none PUnit.unit (by simp)
  | cons x rest ih =>
      have hrest := ih fun y hy => hxs y (List.mem_cons_of_mem x hy)
      exact ((hxs x List.mem_cons_self).bind fun _ => hrest).congr fun remark => by simp

end Action
end Intake
