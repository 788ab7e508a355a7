import Intake.Binding.Demand
import Intake.Failure.Reply
import Intake.Sample.Users
import Intake.Schema.Components

/-!
The sample service. Every request is noted with the status of its reply, which bears the correlation
that the request brought or one that was made up; a request that fails in a way that no one expected is
noted as such and its reply bears none.
-/

namespace Intake.Sample

/-- The version of the service. -/
def version : String := "0.1.0"

/-- What can be asked for. -/
inductive Route where
  | health
  | createUser
  | listUsers
  | getUser (id : String)
  | schemas
  | boom
deriving DecidableEq, Repr

/-- A path as it was meant. -/
def meantPath (path : String) : List Char := Request.unescapeFrom [] path.toList

/-- What is at a path, by method. -/
def routesAt (path : List Char) : List (String × Route) :=
  match Text.splitChars '/' path with
  | [[], name] =>
    match String.ofList name with
    | "health" => [("GET", .health)]
    | "users" => [("POST", .createUser), ("GET", .listUsers)]
    | "openapi.json" => [("GET", .schemas), ("HEAD", .schemas)]
    | "boom" => [("GET", .boom)]
    | _ => []
  | [[], name, id] =>
    if String.ofList name == "users" && !id.isEmpty then [("GET", .getUser (String.ofList id))] else []
  | _ => []

/-- The path that a path stands for that nothing is at: without slashes at its end, or with one. -/
def otherPath (path : List Char) : List Char :=
  if path.getLast? == some '/' then (path.reverse.dropWhile (· == '/')).reverse else path ++ ['/']

/-- The correlation that a request brings. -/
def correlationOf (r : Request) : Option String := r.header? "x-correlation-id"

/-- The reply to a request that ends with a failure. -/
def replyToFailure (r : Request) (f : Failure) : Action Reply :=
  (f.within (correlationOf r) none (some (r.header? "x-request-id"))).reply

/-- The reply to a request that ends with a status. -/
def replyToStatus (r : Request) (status : Nat) (detail : Option String) : Action Reply :=
  (Failure.ofStatus status detail (correlationOf r)).reply

/-- A reply that tells something. -/
def tell (status : Nat) (entries : List (String × Value)) : Reply :=
  ⟨status, .dict (entries.map fun (k, v) => (.text k, v))⟩

/-- Goes on with a record that a request is bound to. -/
def withRecord (r : Request) (model source : String)
    (go : List (String × Value) → Action Reply) : Action Reply := do
  let some m := catalogue.model? model
    | return ⟨500, .null⟩
  let demand : Binding.Demand := ⟨source, true, true⟩
  match ← demand.meet catalogue m r (.ok Settings.default.strictJson) with
  | .error failure => replyToFailure r failure
  | .ok bound =>
    match bound.value with
    | .record _ attributes => go attributes
    | _ => go []

/-- What is made up for a user. -/
def madeUpId : Value := .text "<uuid>"

/-- Takes a new user. -/
def createUser (r : Request) : Action Reply :=
  withRecord r newUser "body" fun attributes => do
    Action.note .info "user_created"
      [("user_id", madeUpId), ("role", (attributes.lookup "Role").getD .null)]
    return tell 201 [("id", madeUpId), ("user", Json.plain (.record newUser attributes))]

/-- Tells the filters; there are no users behind them. -/
def listUsers (r : Request) : Action Reply :=
  withRecord r filter "query" fun attributes =>
    return tell 200 [("filters", Json.plain (.record filter attributes)), ("users", .list [])]

/-- Tells who was asked for. -/
def getUser (r : Request) (id : String) : Action Reply :=
  withRecord { r with pathParameters := [("user_id", .text id)] } lookup "auto" fun attributes => do
    let requestId := ((attributes.lookup "request_id").bind Value.text?).filter fun s => !s.isEmpty
    return tell 200 [("id", Json.plain ((attributes.lookup "user_id").getD .null)),
      ("request_id", (requestId.map Value.text).getD .null)]

/-- Puts models into a registry of their own. -/
def componentsOf (c : Catalogue) (models : List String) (check : Bool) : Action Registry := do
  let (result, registry) ← (Schema.registerAll c models check).run Registry.empty
  match result with
  | .ok () => return registry
  | .error fault => throw fault

/-- The components of the models, which were noted when the service started. -/
def schemas : Value :=
  match (componentsOf catalogue documented false).run Journal.empty with
  | (.ok registry, _) => .dict (registry.sorted.map fun (name, s) => (.text name, s.toValue))
  | (.error _, _) => .dict []

/-- What happens on request: the status that the query names, or else something unexpected. -/
def boom (r : Request) : Action (Except Failure.Surprise Reply) := do
  let pairs := r.queryPairs
  let last (name : String) : Option String := (Request.valuesOf pairs name).getLast?
  match last "status" with
  | none => return .error ⟨"RuntimeError", (last "text").getD ""⟩
  | some written =>
    match Shape.intOfText written with
    | .ok status => .ok <$> replyToStatus r status.toNat (last "text")
    | .error problem => .ok <$>
      (Failure.ofParameters [⟨["query", "status"], problem.message⟩] (correlationOf r)
        (r.header? "x-request-id")).reply

/-- What a route replies. -/
def replyAt (r : Request) : Route → Action (Except Failure.Surprise Reply)
  | .health => return .ok (tell 200 [("status", .text "healthy"), ("version", .text version)])
  | .createUser => .ok <$> createUser r
  | .listUsers => .ok <$> listUsers r
  | .getUser id => .ok <$> getUser r id
  | .schemas => return .ok ⟨200, schemas⟩
  | .boom => boom r

/-- The reply to a request, or what happened unexpectedly. -/
def replyTo (r : Request) : Action (Except Failure.Surprise Reply) :=
  let path := meantPath r.path
  match routesAt path with
  | [] =>
    if (routesAt (otherPath path)).isEmpty then .ok <$> replyToStatus r 404 none
    else return .ok ⟨307, .null⟩
  | routes =>
    match routes.lookup r.method with
    | some route =>
      tryCatch (replyAt r route) fun fault => return .error ⟨fault.typeName, fault.message⟩
    | none => .ok <$> replyToStatus r 405 none

/-- A reply with the correlation that it bears. -/
structure Answer where
  reply : Reply
  correlation : Option Correlation
deriving Repr, Inhabited

/-- How grave a status is. -/
def levelOf (status : Nat) : Level :=
  if status < 400 then .info else if status < 500 then .warning else .error

/-- Answers a request. -/
def answer (r : Request) : Action Answer := do
  let correlation : Correlation := match correlationOf r with
    | some id => if id.isEmpty then .generated else .given id
    | none => .generated
  match ← replyTo r with
  | .ok reply =>
    Action.note (levelOf reply.status) "request_completed" [("status", .int reply.status)]
    return ⟨reply, some correlation⟩
  | .error surprise =>
    Action.note .error "request_failed"
      [("error", .text surprise.text), ("error_type", .text surprise.type)]
    return ⟨← Failure.replyToSurprise surprise (correlationOf r), none⟩

/-- Starts the service and ends it: the components of the models, unless they are not wanted. -/
def run (s : Settings) (c : Catalogue) (models : List String) : Action (Option Registry) := do
  Action.note .info "startup" [("message", .text "webfram sample app starting up")]
  let components ← if s.components then do
      let registry ← componentsOf c models s.eagerRuleCheck
      Action.note .info "components_built"
        [("models", .int models.length), ("components", .int registry.size)]
      pure (some registry)
    else pure none
  Action.note .info "shutdown" [("message", .text "webfram sample app shutting down")]
  return components

end Intake.Sample
