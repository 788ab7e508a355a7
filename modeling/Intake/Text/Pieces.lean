/-!
Cutting texts at a separator. A text always has one piece more than it has separators, so the empty
text has one empty piece, and joining the pieces gives the text back.
-/

namespace Intake.Text

/-- The pieces between the separators. -/
def splitChars (sep : Char) : List Char → List (List Char)
  | [] => [[]]
  | c :: rest =>
    if c = sep then [] :: splitChars sep rest
    else match splitChars sep rest with
      | [] => [[c]]
      | piece :: pieces => (c :: piece) :: pieces

/-- The characters before the first separator and, if there is one, those after it. -/
def cutChars (sep : Char) : List Char → List Char × Option (List Char)
  | [] => ([], none)
  | c :: rest =>
    if c = sep then ([], some rest)
    else
      let (before, after) := cutChars sep rest
      (c :: before, after)

/-- The pieces of a text between the separators. -/
def split (sep : Char) (s : String) : List String :=
  (splitChars sep s.toList).map String.ofList

/-- The text before the first separator and, if there is one, the text after it. -/
def cut (sep : Char) (s : String) : String × Option String :=
  let (before, after) := cutChars sep s.toList
  (String.ofList before, after.map String.ofList)

/-- The characters after a given beginning, if they begin so. -/
def afterStart? : List Char → List Char → Option (List Char)
  | [], cs => some cs
  | _ :: _, [] => none
  | p :: ps, c :: cs => if p = c then afterStart? ps cs else none

/-- Whether the characters begin with the given ones. -/
def startsWith (start cs : List Char) : Bool :=
  (afterStart? start cs).isSome

/-- Whether the given characters occur somewhere, one after another. -/
def occursIn (part : List Char) : List Char → Bool
  | [] => part.isEmpty
  | c :: rest => startsWith part (c :: rest) || occursIn part rest

/-- Replaces every occurrence of a part, from the left; `skip` characters of an occurrence that was
just replaced are still to be passed over. -/
def replaceFrom (part replacement : List Char) (skip : Nat) : List Char → List Char
  | [] => []
  | c :: rest =>
    match skip with
    | k + 1 => replaceFrom part replacement k rest
    | 0 =>
      if startsWith part (c :: rest) then
        replacement ++ replaceFrom part replacement (part.length - 1) rest
      else c :: replaceFrom part replacement 0 rest

/-- Removes every occurrence of a part, from the left. -/
def remove (part : String) (s : String) : String :=
  String.ofList (replaceFrom part.toList [] 0 s.toList)

/-- A text filled up on the left to a width. -/
def padLeft (width : Nat) (fill : Char) (s : String) : String :=
  String.ofList (List.replicate (width - s.length) fill ++ s.toList)

/-- The characters of pieces with a separator between them. -/
def joinChars (sep : Char) : List (List Char) → List Char
  | [] => []
  | [piece] => piece
  | piece :: next :: pieces => piece ++ sep :: joinChars sep (next :: pieces)

theorem splitChars_ne_nil (sep : Char) (cs : List Char) : splitChars sep cs ≠ [] := by
  cases cs with
  | nil => simp [splitChars]
  | cons c rest =>
    simp only [splitChars]
    split
    · simp
    · split <;> simp

theorem joinChars_cons (sep : Char) (piece : List Char) {pieces : List (List Char)}
    (more : pieces ≠ []) :
    joinChars sep (piece :: pieces) = piece ++ sep :: joinChars sep pieces := by
  cases pieces with
  | nil => exact absurd rfl more
  | cons next pieces => rfl

theorem joinChars_cons_cons (sep c : Char) (piece : List Char) (pieces : List (List Char)) :
    joinChars sep ((c :: piece) :: pieces) = c :: joinChars sep (piece :: pieces) := by
  cases pieces with
  | nil => rfl
  | cons next pieces => rfl

/-- Nothing is lost by cutting a text into pieces. -/
theorem joinChars_splitChars (sep : Char) (cs : List Char) :
    joinChars sep (splitChars sep cs) = cs := by
  induction cs with
  | nil => rfl
  | cons c rest ih =>
    simp only [splitChars]
    split
    · rename_i same
      rw [joinChars_cons sep [] (splitChars_ne_nil sep rest), ih, same]
      rfl
    · split
      · rename_i none
        exact absurd none (splitChars_ne_nil sep rest)
      · rename_i piece pieces found
        rw [joinChars_cons_cons, ← found, ih]

/-- There is one piece more than there are separators. -/
theorem length_splitChars (sep : Char) (cs : List Char) :
    (splitChars sep cs).length = cs.count sep + 1 := by
  induction cs with
  | nil => rfl
  | cons c rest ih =>
    simp only [splitChars]
    split
    · rename_i same
      simp [same, ih]
    · rename_i other
      split
      · rename_i none
        exact absurd none (splitChars_ne_nil sep rest)
      · rename_i piece pieces found
        rw [found] at ih
        simpa [List.count_cons, other] using ih

/-- No piece holds the separator. -/
theorem not_mem_of_mem_splitChars {sep : Char} {cs piece : List Char}
    (found : piece ∈ splitChars sep cs) : sep ∉ piece := by
  induction cs generalizing piece with
  | nil => simp_all [splitChars]
  | cons c rest ih =>
    simp only [splitChars] at found
    split at found
    · rcases List.mem_cons.mp found with same | later
      · simp [same]
      · exact ih later
    · rename_i other
      split at found
      · rename_i none
        exact absurd none (splitChars_ne_nil sep rest)
      · rename_i first pieces split
        rcases List.mem_cons.mp found with same | later
        · have free : sep ∉ first := ih (by rw [split]; exact List.mem_cons_self)
          simp [same, free, Ne.symm other]
        · exact ih (by rw [split]; exact List.mem_cons_of_mem first later)

/-- A text is cut at its first separator. -/
theorem cutChars_append {sep : Char} {before : List Char} (after : List Char)
    (free : sep ∉ before) : cutChars sep (before ++ sep :: after) = (before, some after) := by
  induction before with
  | nil => simp [cutChars]
  | cons c rest ih =>
    have other : c ≠ sep := fun same => free (by simp [same])
    have free' : sep ∉ rest := fun inside => free (List.mem_cons_of_mem c inside)
    simp [cutChars, other, ih free']

/-- A text without the separator is not cut. -/
theorem cutChars_of_not_mem {sep : Char} {cs : List Char} (free : sep ∉ cs) :
    cutChars sep cs = (cs, none) := by
  induction cs with
  | nil => rfl
  | cons c rest ih =>
    have other : c ≠ sep := fun same => free (by simp [same])
    have free' : sep ∉ rest := fun inside => free (List.mem_cons_of_mem c inside)
    simp [cutChars, other, ih free']

end Intake.Text
