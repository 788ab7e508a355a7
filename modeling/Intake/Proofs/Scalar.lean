import Intake.Proofs.Calendar.Stamp
import Intake.Proofs.Uuid
import Intake.Scalar
import Intake.Shape.Build

/-!
Scalars as plain text, and back. The text of a scalar is read as that scalar by its kind, and fits its
type as that scalar, as long as the value is one that its text says all about.
-/

namespace Intake

/-- What the scalars of a kind are: a moment is one that the calendar has, and an identifier a number of
128 bits. -/
inductive IsScalar : Kind → Value → Prop where
  | text (s : String) : IsScalar .string (.text s)
  | int (i : Int) : IsScalar .integer (.int i)
  | bool (b : Bool) : IsScalar .boolean (.bool b)
  | moment {m : Calendar.Moment} (hm : m.isValid = true) : IsScalar .moment (.moment m)
  | uuid {u : Uuid} (hu : u.value < 2 ^ 128) : IsScalar .uuid (.uuid u)

namespace Value

/-- Scalars that reading by the kind gives back: an integer has no more digits than are read, and the
offset of a moment is known, and none or at least one second. -/
def IsReadable : Value → Prop
  | .int i => Number.digitCount i ≤ Number.maxDigits
  | .moment m => ∃ offset, m.offset = some offset ∧ (offset = 0 ∨ 1000000 ≤ offset.natAbs)
  | _ => True

/-- Scalars that fitting a text to the type gives back: the text of an integer, with its sign, is no
longer than what is read, and the offset of a moment, if it has one, is of whole minutes. -/
def IsSpellable : Value → Prop
  | .int i => (toString i).length ≤ Number.maxDigits
  | .moment m => ∀ offset ∈ m.offset, offset.natAbs % 60000000 = 0
  | _ => True

theorem scalarText_moment (m : Calendar.Moment) : (Value.moment m).scalarText = m.written := rfl

end Value

/-- Reading by the kind inverts writing; a layout matters for moments only. -/
theorem read_scalarText {kind : Kind} {v : Value} {layout : Option String} (hv : IsScalar kind v)
    (hread : v.IsReadable) (hlayout : kind = .moment → layout = none) :
    kind.read v.scalarText layout = .ok (.ok v) := by
  cases hv with
  | text s => rfl
  | int i =>
      have hi := Number.int?_toString hread
      simp only [Kind.read, Value.scalarText, Value.display, Value.innerText]
      rw [hi]
  | bool b =>
      have hword : ∀ b, trueTexts.contains (Text.lower (Text.strip (Value.bool b).scalarText)) = b := by
        decide +kernel
      simp only [Kind.read]
      rw [hword b]
  | moment hm =>
      obtain ⟨offset, hknown, hoffset⟩ := hread
      have hfound := Calendar.Moment.ofIso?_written hm hknown hoffset
      rw [Value.scalarText_moment, hlayout rfl]
      simp only [Kind.read, readMoment, Option.filter_none, hfound, ok_bind, pure_eq_ok, Except.map]
      rw [Calendar.Moment.orUniversal, hknown, Option.getD_some, ← hknown]
  | uuid hu =>
      have hfound := Uuid.ofLenient?_text hu
      simp only [Kind.read, Value.scalarText, Value.display]
      rw [hfound]

/-- The text of a moment with an offset is read as that day and time, with the offset that is read. -/
theorem read_scalarText_moment {m : Calendar.Moment} {offset : Int} (hm : m.isValid = true)
    (hknown : m.offset = some offset) :
    Kind.moment.read (Value.moment m).scalarText none =
      .ok (.ok (.moment { m with offset := some (Calendar.Iso.offsetRead offset) })) := by
  have hfound := Calendar.Moment.ofIso?_written_eq hm hknown
  rw [Value.scalarText_moment]
  simp only [Kind.read, readMoment, Option.filter_none, hfound, ok_bind, pure_eq_ok, Except.map]
  rfl

theorem isSome_offset_of_readMoment {layout : Option String} {raw : String} {m : Calendar.Moment}
    (hread : readMoment layout raw = .ok (.ok m)) : m.offset.isSome = true := by
  rw [readMoment] at hread
  split at hread
  all_goals
    obtain ⟨found, -, hfound⟩ := exists_of_bind_eq_ok hread
    cases found with
    | none => cases hfound
    | some n =>
        obtain rfl : n.orUniversal = m := Except.ok.inj (Except.ok.inj hfound)
        rfl

/-- A moment that is read has an offset. -/
theorem isSome_offset_of_read {kind : Kind} {raw : String} {layout : Option String} {m : Calendar.Moment}
    (hread : kind.read raw layout = .ok (.ok (.moment m))) : m.offset.isSome = true := by
  cases kind with
  | moment =>
      rw [Kind.read] at hread
      cases hfound : readMoment layout raw with
      | error flaw => simp [hfound, Except.map] at hread
      | ok outcome =>
          cases outcome with
          | error why => simp [hfound, Except.map] at hread
          | ok n =>
              obtain rfl : n = m := by simpa [hfound, Except.map] using hread
              exact isSome_offset_of_readMoment hfound
  | integer | float | uuid =>
      simp only [Kind.read, Except.ok.injEq] at hread
      split at hread <;> cases hread
  | boolean | string | array | map | record | any => cases hread

/-- Reading by the kind inverts writing, without a layout: an integer of up to 4300 digits, a truth value, an
identifier, a text, and a moment whose offset is zero or at least one second come back as they were. A moment
with another offset comes back with its day and time in universal time. Every moment that is read has an
offset, whatever the text and the layout. -/
theorem read_inverts_scalarText :
    (∀ kind v, IsScalar kind v → v.IsReadable → kind.read v.scalarText none = .ok (.ok v)) ∧
    (∀ (m : Calendar.Moment) (offset : Int), m.isValid = true → m.offset = some offset → offset.natAbs < 1000000 →
      Kind.moment.read (Value.moment m).scalarText none = .ok (.ok (.moment { m with offset := some 0 }))) ∧
    ∀ (kind : Kind) (raw : String) (layout : Option String) (m : Calendar.Moment),
      kind.read raw layout = .ok (.ok (.moment m)) → m.offset.isSome = true := by
  refine ⟨fun kind v hv hread => read_scalarText hv hread fun _ => rfl, fun m offset hm hknown hsmall => ?_,
    fun kind raw layout m hread => isSome_offset_of_read hread⟩
  rw [read_scalarText_moment hm hknown, Calendar.Iso.offsetRead, if_pos hsmall]

/-- A moment with an offset of one microsecond. -/
def barelyEast : Calendar.Moment := ⟨⟨2024, 1, 15⟩, ⟨10, 30, 0, 0⟩, some 1⟩

/-- An integer, a moment with a fraction in its offset, and a moment by a layout. -/
theorem read_inverts_scalarText_barelyEast :
    Kind.integer.read (Value.int (-42)).scalarText none = .ok (.ok (.int (-42))) ∧
    Kind.moment.read (Value.moment { barelyEast with offset := some (-1000001) }).scalarText none =
      .ok (.ok (.moment { barelyEast with offset := some (-1000001) })) ∧
    Kind.moment.read (Value.moment barelyEast).scalarText none =
      .ok (.ok (.moment { barelyEast with offset := some 0 })) ∧
    ∃ m, Kind.moment.read "15.01.2024" (some "%d.%m.%Y") = .ok (.ok (.moment m)) ∧ m.offset.isSome = true := by
  obtain ⟨hback, hsmall, haware⟩ := read_inverts_scalarText
  refine ⟨hback _ _ (.int (-42)) ?_, hback _ _ (.moment ?_) ⟨-1000001, rfl, ?_⟩, hsmall barelyEast 1 ?_ rfl ?_, ?_⟩
  · show Number.digitCount (-42) ≤ Number.maxDigits
    decide +kernel
  · decide +kernel
  · decide
  · decide +kernel
  · decide
  · have hday : (readMoment (some "%d.%m.%Y") "15.01.2024").toOption.bind Except.toOption =
        some ⟨⟨2024, 1, 15⟩, Calendar.midnight, some 0⟩ := by decide +kernel
    have hread : Kind.moment.read "15.01.2024" (some "%d.%m.%Y") =
        .ok (.ok (.moment ⟨⟨2024, 1, 15⟩, Calendar.midnight, some 0⟩)) := by
      rw [Kind.read]
      rcases hfound : readMoment (some "%d.%m.%Y") "15.01.2024" with flaw | why | m
      · simp [hfound, Except.toOption] at hday
      · simp [hfound, Except.toOption] at hday
      · simp only [hfound, Except.toOption, Option.bind_some, Option.some.injEq] at hday
        rw [hday]
        rfl
    exact ⟨_, hread, haware _ _ _ _ hread⟩

/-- A moment whose offset is one microsecond is written with it and read without: another instant at another
offset. -/
theorem scalarText_of_barelyEast :
    IsScalar .moment (.moment barelyEast) ∧
      (Value.moment barelyEast).scalarText = "2024-01-15T10:30:00+00:00:00.000001" ∧
      ¬ ∃ m, Kind.moment.read (Value.moment barelyEast).scalarText none = .ok (.ok (.moment m)) ∧
        m.instant = barelyEast.instant ∧ m.offset = barelyEast.offset := by
  refine ⟨.moment (by decide +kernel), by decide +kernel, ?_⟩
  rintro ⟨m, hread, -, hoffset⟩
  rw [read_scalarText_moment (by decide +kernel) rfl] at hread
  obtain rfl : _ = m := by simpa using hread
  cases hoffset

/-- No scalar but the empty text is written as nothing. -/
theorem eq_text_of_scalarText_eq_empty {kind : Kind} {v : Value} (hv : IsScalar kind v) (hread : v.IsReadable)
    (hempty : v.scalarText = "") : kind = .string ∧ v = .text "" := by
  have hback : kind.read "" none = .ok (.ok v) := by
    rw [← hempty]
    exact read_scalarText hv hread fun _ => rfl
  cases hv with
  | text s => exact ⟨rfl, by rw [← hempty]; rfl⟩
  | int i => cases hback
  | bool b => cases b <;> simp [Value.scalarText] at hempty
  | moment hm =>
      have hchars := Calendar.Moment.toList_written hm
      rw [← Value.scalarText_moment, hempty] at hchars
      simp [Calendar.Moment.chars] at hchars
  | uuid hu => cases hback

/-- The types of scalars that have a plain text. -/
def Ty.scalarKind? : Ty → Option Kind
  | .str => some .string
  | .int => some .integer
  | .bool => some .boolean
  | .moment => some .moment
  | .uuid => some .uuid
  | _ => none

theorem kindOf_of_scalarKind? (c : Catalogue) {t : Ty} {kind : Kind} (ht : t.scalarKind? = some kind) :
    c.kindOf t = kind := by
  cases t <;> cases ht <;> rfl

/-- Kinds of scalars are no kinds of collections or records. -/
theorem isPlain_of_scalarKind? {t : Ty} {kind : Kind} (ht : t.scalarKind? = some kind) :
    kind ≠ .array ∧ kind ≠ .map ∧ kind ≠ .record ∧ kind ≠ .any := by
  cases t <;> cases ht <;> decide

theorem IsScalar.isNull_eq_false {kind : Kind} {v : Value} (hv : IsScalar kind v) : v.isNull = false := by
  cases hv <;> rfl

theorem IsScalar.same_self {kind : Kind} {v : Value} (hv : IsScalar kind v) : v.same v = true := by
  cases hv <;> simp [Value.same, Value.sameScalar, Value.size?, Value.text?, Value.Size.same,
    Calendar.Moment.same]

namespace Shape

/-- A scalar fits its type as it is. -/
theorem fit_of_isScalar (c : Catalogue) (record : String → Value → Fitted) {t : Ty} {kind : Kind} {v : Value}
    (ht : t.scalarKind? = some kind) (hv : IsScalar kind v) :
    fit c record t v = .ok ⟨v, .exact, none⟩ := by
  cases t <;> simp only [Ty.scalarKind?, Option.some.injEq, reduceCtorEq] at ht
  all_goals
    subst ht
    cases hv
    rfl

/-- The text of a scalar fits the type of the scalar as the scalar. -/
theorem fit_scalarText (c : Catalogue) (record : String → Value → Fitted) {t : Ty} {kind : Kind} {v : Value}
    (ht : t.scalarKind? = some kind) (hv : IsScalar kind v) (hspelt : v.IsSpellable) :
    ∃ fitness, fit c record t (.text v.scalarText) = .ok ⟨v, fitness, none⟩ := by
  cases t <;> simp only [Ty.scalarKind?, Option.some.injEq, reduceCtorEq] at ht
  all_goals
    subst ht
    cases hv
  case str.text s => exact ⟨.exact, rfl⟩
  case int.int i =>
    have hi := intOfText_toString hspelt
    refine ⟨.loose, ?_⟩
    simp only [fit, fitInt, spelling?, Value.text?, Value.scalarText, Value.display, Value.innerText, ok_bind, hi]
    rfl
  case bool.bool b =>
    have hword : ∀ b, boolOfText (Value.bool b).scalarText = .ok b := by decide +kernel
    refine ⟨.loose, ?_⟩
    simp only [fit, fitBool, spelling?, Value.text?]
    simp [hword b, ofScalar]
  case moment.moment m hm =>
    have hm' := Calendar.Stamp.moment_written hm hspelt
    refine ⟨.loose, ?_⟩
    simp [fit, fitMoment, momentOf, spelling?, Value.text?, Value.scalarText_moment, hm', ofScalar]
  case uuid.uuid u hu =>
    have hu' := Uuid.ofText?_text hu
    refine ⟨.loose, ?_⟩
    simp only [fit, fitUuid, Value.scalarText, Value.display, hu', ofScalar]

end Shape
end Intake
