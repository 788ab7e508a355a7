import Intake.Shape.Scalar
import Intake.Text.Lowercase

/-!
Settings, from what is given directly or, failing that, from the environment. In the environment the
names of settings stand behind a mark of their own, in upper or lower case; other names do not matter.
-/

namespace Intake

/-- What can be set. -/
structure Settings where
  logLevel : String
  logJson : Bool
  strictJson : Bool
  eagerRuleCheck : Bool
  components : Bool
deriving DecidableEq, Repr, Inhabited

namespace Settings

/-- The settings if nothing is set. -/
def default : Settings := ⟨"INFO", false, true, false, true⟩

/-- What stands before the names of settings in the environment. -/
def environmentMark : String := "WEBFRAM_"

/-- Where settings come from: values by the name of the setting, and the environment. -/
structure Provision where
  given : List (String × Value)
  environment : List (String × String)
deriving Repr, Inhabited

/-- The value of a setting, if there is one; of names in the environment that differ only in case the
last counts. -/
def Provision.value? (p : Provision) (name : String) : Option Value :=
  match p.given.lookup name with
  | some v => some v
  | none =>
    let key := Text.lower (environmentMark ++ name)
    ((p.environment.filter fun e => Text.lower e.1 == key).getLast?).map fun e => .text e.2

/-- The value of a setting as a scalar. -/
def Provision.read (p : Provision) (name : String) (fit : Value → Shape.Outcome) :
    Except (List Rejection) (Option Value) :=
  match p.value? name with
  | none => .ok none
  | some v =>
    match fit v with
    | .ok (v, _) => .ok (some v)
    | .error problem => .error [⟨[.key name], problem⟩]

/-- The value of a setting that is a text. -/
def Provision.text (p : Provision) (name fallback : String) : Except (List Rejection) String :=
  (p.read name Shape.fitText).map fun v => (v.bind Value.text?).getD fallback

/-- The value of a setting that is on or off. -/
def Provision.flag (p : Provision) (name : String) (fallback : Bool) :
    Except (List Rejection) Bool :=
  (p.read name Shape.fitBool).map fun v =>
    match v with
    | some (.bool b) => b
    | _ => fallback

/-- One outcome applied to another; the rejections of both are kept. -/
def together {α β : Type} (f : Except (List Rejection) (α → β)) (x : Except (List Rejection) α) :
    Except (List Rejection) β :=
  match f, x with
  | .ok f, .ok x => .ok (f x)
  | .ok _, .error rs => .error rs
  | .error rs, .ok _ => .error rs
  | .error rs, .error ss => .error (rs ++ ss)

/-- The settings, or everything that is wrong with them. -/
def ofProvision (p : Provision) : Except (List Rejection) Settings :=
  let level := (p.text "LOG_LEVEL" default.logLevel).map Settings.mk
  let json := together level (p.flag "LOG_JSON" default.logJson)
  let strict := together json (p.flag "BIND_STRICT_JSON" default.strictJson)
  let eager := together strict (p.flag "BIND_EAGER_RULE_CHECK" default.eagerRuleCheck)
  together eager (p.flag "OPENAPI_COMPONENTS" default.components)

end Settings
end Intake
