import Intake.Fault
import Intake.Request.Cookie
import Intake.Request.Form

/-!
What the parts of a request offer: texts under names. A name may have several texts. Queries and forms
can also offer what is inside records and maps; headers, cookies and the path cannot.
-/

namespace Intake

/-- The name by which a field is looked up in a part of a request. -/
def Descriptor.nameIn (d : Descriptor) : Source → String
  | .query => d.queryName
  | .header => d.headerName
  | .cookie => d.cookieName
  | .path => d.pathName
  | .form | .auto | .body => d.formName

/-- Whether a part of a request can offer what is inside records and maps. -/
def Source.isNested : Source → Bool
  | .query | .form => true
  | .auto | .path | .header | .cookie | .body => false

namespace Binding

/-- What one part of a request offers. -/
structure Offer where
  source : Source
  values : String → List String
  keys : List String

namespace Offer

/-- The parameters of the query. -/
def ofQuery (r : Request) : Offer :=
  let pairs := r.queryPairs
  ⟨.query, Request.valuesOf pairs, Request.namesOf pairs⟩

/-- The entries of a form, and behind them the parameters of the query. -/
def ofForm (r : Request) (form : Request.Form) : Offer :=
  let pairs := r.queryPairs
  ⟨.form, fun key => form.values key ++ Request.valuesOf pairs key,
    Request.namesOf (form.map (fun (k, _) => (k, "")) ++ pairs)⟩

/-- The headers. -/
def ofHeaders (r : Request) : Offer :=
  ⟨.header, r.headerValues, Request.namesOf r.headers⟩

/-- The cookies. -/
def ofCookies (r : Request) : Offer :=
  ⟨.cookie, fun key => (r.cookie? key).toList, Request.namesOf r.cookies⟩

/-- The parameters of the path. -/
def ofPath (r : Request) : Offer :=
  ⟨.path, fun key => ((r.pathParameters.lookup key).map Value.display).toList,
    r.pathParameters.map (·.1)⟩

/-- The places of characters that a header cannot have: the first, and how many there are. -/
def notInHeader? (name : String) : Option UnencodableText :=
  let cs := (Text.lower name).toList
  let isFine (c : Char) : Bool := c.toNat < 256
  let start := (cs.takeWhile isFine).length
  match cs.drop start with
  | [] => none
  | c :: rest => some ⟨c, start, 1 + (rest.takeWhile fun c => !isFine c).length⟩

/-- The texts that are offered under a name. No header can be asked for by a name that it cannot
have. -/
def read (o : Offer) (key : String) : Except Fault (List String) :=
  match (if o.source == .header then notInHeader? key else none) with
  | some problem => .error (.unencodable problem)
  | none => .ok (o.values key)

end Offer
end Binding
end Intake
