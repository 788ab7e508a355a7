/-!
Elements of a document: a name, attributes of different names, the text before the first element
inside, the elements inside, and the text that follows the element.
-/

namespace Intake.Markup

/-- An element and the text behind it. -/
inductive Element where
  | mk (name : String) (attributes : List (String × String)) (text : String)
      (children : List Element) (tail : String)
deriving BEq, Repr, Inhabited

namespace Element

def name : Element → String
  | mk name _ _ _ _ => name

def attributes : Element → List (String × String)
  | mk _ attributes _ _ _ => attributes

def text : Element → String
  | mk _ _ text _ _ => text

def children : Element → List Element
  | mk _ _ _ children _ => children

def tail : Element → String
  | mk _ _ _ _ tail => tail

/-- The value of an attribute. -/
def attribute? (e : Element) (name : String) : Option String := e.attributes.lookup name

/-- The elements inside with a name, in order. -/
def childrenNamed (e : Element) (name : String) : List Element :=
  e.children.filter fun child => child.name == name

/-- Puts an attribute among others; one of the same name is replaced in its place. -/
def putAttribute (name value : String) : List (String × String) → List (String × String)
  | [] => [(name, value)]
  | (n, v) :: rest => if n == name then (n, value) :: rest else (n, v) :: putAttribute name value rest

end Element
end Intake.Markup
