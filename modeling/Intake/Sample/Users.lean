import Intake.Model.Declaration

/-!
The models of the sample service: users with their addresses, the filters of lists of users, and what
a single user is asked for by.
-/

namespace Intake.Sample

/-- The module that the models belong to. -/
def usersModule : String := "webfram.api.users"

/-- A field with a type and a default that is not annotated yet. -/
def field (name : String) (type : Ty) (default : Option Value) : Field :=
  { name := name
    type := type
    default := default.map .value
    documentKey := none
    annotations := Annotations.none
    description := none
    constraints := ⟨none, none, none⟩ }

/-- The field with rules. -/
def ruled (rules : String) (f : Field) : Field :=
  { f with annotations := { f.annotations with rules := some rules } }

/-- The field with a name in forms. -/
def inForms (name : String) (f : Field) : Field :=
  { f with annotations := { f.annotations with form := some name } }

/-- The field with a place in documents of elements. -/
def inMarkup (place : String) (f : Field) : Field :=
  { f with annotations := { f.annotations with xml := some place } }

def addressFields : List Field :=
  [{ inForms "street" (ruled "required" (field "street" .str none)) with
      description := some "Street and house number" },
    inForms "city" (ruled "required,maxlength=80" (field "city" .str none)),
    inForms "zip" (ruled "pattern=^[0-9]\x7b5\x7d$" (field "zip" Ty.str.optional (some .null)))]

def userFields : List Field :=
  let name := inMarkup "name" (inForms "name" (ruled "required,minlength=2" (field "Name" .str none)))
  [{ name with annotations := { name.annotations with messages := some "required=Name is required" } },
    inMarkup "email" (inForms "email" (ruled "required,format=email" (field "Email" .str none))),
    inMarkup "age,attr" (inForms "age" (ruled "min=0,max=150" (field "Age" .int none))),
    inMarkup "role" (inForms "role" (ruled "enum=admin|user|guest"
      (field "Role" .str (some (.text "user"))))),
    { inMarkup "tag" (inForms "tags" (ruled "maxItems=5,uniqueItems,maxlength=20"
        (field "Tags" (.list .str) none))) with default := some .emptyList },
    inMarkup "address" (inForms "address" (field "Home" (Ty.record "Address").optional (some .null)))]

def filterFields : List Field :=
  let perPage := ruled "min=1,max=100" (field "per_page" .int (some (.int 20)))
  [ruled "min=1" (field "page" .int (some (.int 1))),
    { perPage with annotations := { perPage.annotations with query := some "per-page" } },
    ruled "enum=admin|user|guest" (field "role" Ty.str.optional (some .null)),
    ruled "format=%Y-%m-%d" (field "since" Ty.moment.optional (some .null))]

def lookupFields : List Field :=
  let id := ruled "required" (field "user_id" .uuid none)
  let request := field "request_id" .str (some (.text ""))
  [{ id with annotations := { id.annotations with path := some "user_id", source := some "path" } },
    { request with annotations :=
        { request.annotations with header := some "X-Request-ID", source := some "header" } }]

/-- The name of the model of new users. -/
def newUser : String := "UserCreate"

/-- The name of the model of filters. -/
def filter : String := "UserQuery"

/-- The name of the model of what a user is asked for by. -/
def lookup : String := "UserPath"

/-- All models. -/
def catalogue : Catalogue :=
  let add (c : Catalogue) (m : String × List Field) : Catalogue :=
    c.declare m.1 usersModule m.1 none (.root .strict) m.2
  [("Address", addressFields), (newUser, userFields), (filter, filterFields),
    (lookup, lookupFields)].foldl add ⟨[], []⟩

/-- The models that requests are bound to, in the order in which they are documented. -/
def documented : List String := [newUser, filter, lookup]

end Intake.Sample
