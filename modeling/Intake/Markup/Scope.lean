import Intake.Markup.Flaw

/-!
Namespaces. A prefix stands for the namespace that the nearest declaration around gives it. Names of
elements without a prefix belong to the declared default; names of attributes without one belong to
none.
-/

namespace Intake.Markup

/-- What prefixes stand for; the empty prefix stands for the default. The nearest declaration comes
first. -/
abbrev Scope := List (String × String)

/-- The namespace of a reserved prefix. -/
def reservedUri : String := "http://www.w3.org/XML/1998/namespace"

/-- The namespace of declarations. -/
def declarationUri : String := "http://www.w3.org/2000/xmlns/"

/-- What holds without declarations. -/
def Scope.initial : Scope := [("xml", reservedUri)]

/-- The prefix and the rest of a name. -/
def splitName (name : String) : Option (String × String) :=
  match Text.cut ':' name with
  | (before, some after) => some (before, after)
  | (_, none) => none

/-- A name in a namespace. -/
def expanded (uri base : String) : String := "\x7b" ++ uri ++ "\x7d" ++ base

/-- The full name of an attribute. -/
def Scope.attributeName (s : Scope) (name : String) : Except Problem String :=
  match splitName name with
  | none => .ok name
  | some (label, base) =>
    match s.lookup label with
    | some uri => .ok (expanded uri base)
    | none => .error .unboundPrefix

/-- The full name of an element. -/
def Scope.elementName (s : Scope) (name : String) : Except Problem String :=
  match splitName name with
  | none =>
    match s.lookup "" with
    | some uri => .ok (if uri.isEmpty then name else expanded uri name)
    | none => .ok name
  | some _ => s.attributeName name

/-- The prefix that an attribute declares, if it is a declaration. -/
def declaredPrefix? (name : String) : Option String :=
  if name == "xmlns" then some ""
  else match splitName name with
    | some ("xmlns", label) => some label
    | _ => none

/-- Declares a prefix. -/
def Scope.declare (s : Scope) (label uri : String) : Except Problem Scope :=
  if uri.isEmpty && !label.isEmpty then .error .undeclaredPrefix
  else if label == "xmlns" then .error .reservedDeclaration
  else if label == "xml" && uri != reservedUri then .error .reservedPrefix
  else if label != "xml" && uri == reservedUri then .error .reservedNamespace
  else if uri == declarationUri then .error .reservedNamespace
  else if uri.toList.contains '\x7d' then .error .syntaxError
  else .ok ((label, uri) :: s)

end Intake.Markup
