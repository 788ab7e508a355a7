/-!
White space. Two notions are in use: the wide one, by which annotations and patterns skip blanks,
counts the four information separators as blank; the narrow one, by which numbers and lax coercion
trim their texts, does not.
-/

namespace Intake.Text

/-- Code points beyond ASCII that count as white space, as closed ranges. -/
def blankRanges : List (Nat × Nat) :=
  [(0x85, 0x85), (0xA0, 0xA0), (0x1680, 0x1680), (0x2000, 0x200A), (0x2028, 0x2029), (0x202F, 0x202F), (0x205F, 0x205F), (0x3000, 0x3000)]

/-- White space that separates words, whatever its script. -/
def isWhiteSpace (c : Char) : Bool :=
  let n := c.toNat
  if n < 128 then n == 32 || (9 ≤ n && n ≤ 13)
  else blankRanges.any fun r => r.1 ≤ n && n ≤ r.2

/-- White space, the information separators included. -/
def isBlank (c : Char) : Bool :=
  isWhiteSpace c || (28 ≤ c.toNat && c.toNat ≤ 31)

/-- The characters left when those that satisfy the test are dropped at both ends. -/
def trimBoth (test : Char → Bool) (cs : List Char) : List Char :=
  ((cs.dropWhile test).reverse.dropWhile test).reverse

/-- A text without the blanks at its ends. -/
def strip (s : String) : String :=
  String.ofList (trimBoth isBlank s.toList)

end Intake.Text
