import Intake.Markup.Element
import Intake.Text.Blank

/-!
Writing elements. An element with nothing inside is a single tag. Characters that would be taken for
markup are escaped, and in attributes those, too, that reading turns into blanks.
-/

namespace Intake.Markup

/-- A character of a text. -/
def escapeInText : Char → List Char
  | '&' => "&amp;".toList
  | '<' => "&lt;".toList
  | '>' => "&gt;".toList
  | c => [c]

/-- A character of the value of an attribute. -/
def escapeInAttribute : Char → List Char
  | '"' => "&quot;".toList
  | '\r' => "&#13;".toList
  | '\n' => "&#10;".toList
  | '\t' => "&#09;".toList
  | c => escapeInText c

/-- A text between tags. -/
def writtenText (s : String) : List Char := s.toList.flatMap escapeInText

/-- An attribute behind the name of its element. -/
def writtenAttribute (a : String × String) : List Char :=
  " ".toList ++ a.1.toList ++ "=\"".toList ++ a.2.toList.flatMap escapeInAttribute ++ "\"".toList

namespace Element

mutual

/-- An element and the text behind it. -/
def written : Element → List Char
  | mk name attributes text children tail =>
    let start := '<' :: name.toList ++ attributes.flatMap writtenAttribute
    if text.isEmpty && children.isEmpty then start ++ " />".toList ++ writtenText tail
    else
      start ++ '>' :: writtenText text ++ writtenAll children
        ++ "</".toList ++ name.toList ++ '>' :: writtenText tail

def writtenAll : List Element → List Char
  | [] => []
  | e :: rest => e.written ++ writtenAll rest

end

/-- An element as a document. -/
def render (e : Element) : String := String.ofList e.written

/-- The element with another text behind it. -/
def withTail (tail : String) : Element → Element
  | mk name attributes text children _ => mk name attributes text children tail

/-- A new line, two blanks deeper on every level. -/
def lineStart (level : Nat) : String := "\n" ++ "".pushn ' ' (2 * level)

/-- A text, or a new line in its place if nothing but blanks is in it. -/
def orLine (text : String) (level : Nat) : String :=
  if (Text.strip text).isEmpty then lineStart level else text

mutual

/-- An element of a level with every element inside on a line of its own. -/
def indented (level : Nat) : Element → Element
  | mk name attributes text [] tail => mk name attributes text [] tail
  | mk name attributes text (e :: rest) tail =>
    mk name attributes (orLine text (level + 1)) (indentedAll level (e :: rest)) tail

/-- The elements inside an element of a level; the line of its end follows the last. -/
def indentedAll (level : Nat) : List Element → List Element
  | [] => []
  | e :: rest =>
    (e.indented (level + 1)).withTail (orLine e.tail (if rest.isEmpty then level else level + 1))
      :: indentedAll level rest

end

end Element
end Intake.Markup
