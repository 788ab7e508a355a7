import Intake.Model.Descriptor

/-!
Zero values: what a missing key stands for. A document is completed with the zero values of the fields
that have no default and that it names neither by key nor by attribute.
-/

namespace Intake

/-- The zero value of a kind; none where there is no such value. -/
def Kind.zero? : Kind → Option Value
  | .string => some (.text "")
  | .integer => some (.int 0)
  | .float => some (.float Binary64.zero)
  | .boolean => some (.bool false)
  | .moment => some (.moment Calendar.Moment.first)
  | .uuid => some (.uuid Uuid.nil)
  | .array => some (.list [])
  | .map | .record => some (.dict [])
  | .any => none

namespace Descriptor

/-- What a missing key of the field stands for. -/
def zero (d : Descriptor) : Value :=
  if d.optional then .null else d.kind.zero?.getD .null

/-- Whether a missing key of the field is filled. -/
def isFilled (d : Descriptor) : Bool :=
  !d.hasDefault && (d.optional || d.kind != .any)

/-- Whether a document names the field. -/
def isGiven (d : Descriptor) (entries : List (Value × Value)) : Bool :=
  (Value.lookupText d.wireName entries).isSome || (Value.lookupText d.name entries).isSome

end Descriptor

/-- A document completed with zero values, in the order of the fields. -/
def withZeroValues (fields : List Descriptor) (entries : List (Value × Value)) :
    List (Value × Value) :=
  fields.foldl (fun filled d =>
    if d.isFilled && !d.isGiven filled then filled ++ [(.text d.wireName, d.zero)] else filled) entries

end Intake
