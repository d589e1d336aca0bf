import Rulebook.Http.Pattern
import Rulebook.Http.Target
import Rulebook.Settings

/-!
Routes: which action a method and a path call for. The first route that fits both is taken. If
only paths fit, the first of these says which method it takes; if none fits, a path that differs
by its last slash is pointed out.
-/

namespace Rulebook.Http

/-- What a service can be asked to do. -/
inductive Action where
  | showPage
  | reportHealth
  | reportReadiness
  | createRule
  | listRules (bindings : List Binding)
  | evaluateAdHoc
  | getRule (id : String)
  | deleteRule (id : String)
  | evaluateRule (id : String)
  | describe
  deriving DecidableEq, Repr

/-- A route: the methods it takes, the pattern of its paths, and its action, given what the
parameters of the pattern stand for. -/
structure Route where
  methods : List String
  pattern : Pattern
  action : List Binding → Action

/-- The action for a path, if the pattern matches it. -/
def Route.match? (route : Route) (path : String) : Option Action :=
  (route.pattern.match? path.toList).map route.action

/-- The name of the parameter that stands for the id of a rule. -/
def idName : String := "rule_id"

def idOf (bindings : List Binding) : String :=
  ((Binding.find? bindings idName).map (·.value)).getD ""

def rulePath (rules : String) : String := rules ++ "/\x7b" ++ idName ++ "\x7d"

/-- A route that is yet to be made: its methods, its path and its action. An action on the body of a
request has a name for it. -/
structure RoutePlan where
  methods : List String
  path : String
  action : List Binding → Action
  bodyName : Option String

def RoutePlan.bodiless (methods : List String) (path : String) (action : List Binding → Action) :
    RoutePlan :=
  ⟨methods, path, action, none⟩

def RoutePlan.onBody (name path : String) (action : List Binding → Action) : RoutePlan :=
  ⟨["POST"], path, action, some name⟩

def pagePlans : List RoutePlan :=
  ["/openapi.json", "/docs", "/docs/oauth2-redirect", "/redoc"].map fun path =>
    .bodiless ["GET", "HEAD"] path fun _ => .showPage

/-- The routes of a service, in order. There is documentation only in development. -/
def plans (s : Settings) : List RoutePlan :=
  let rules := s.apiRoot ++ "/rules"
  (if s.environment = .development then pagePlans else []) ++ [
    .bodiless ["GET"] "/health" fun _ => .reportHealth,
    .bodiless ["GET"] "/ready" fun _ => .reportReadiness,
    .onBody "rule_in" (rules ++ "/") fun _ => .createRule,
    .bodiless ["GET"] (rules ++ "/") .listRules,
    .onBody "request" (rules ++ "/evaluate") fun _ => .evaluateAdHoc,
    .bodiless ["GET"] (rulePath rules) fun b => .getRule (idOf b),
    .bodiless ["DELETE"] (rulePath rules) fun b => .deleteRule (idOf b),
    .onBody "request" (rulePath rules ++ "/evaluate") fun b => .evaluateRule (idOf b),
    .bodiless ["GET"] s.apiRoot fun _ => .describe]

/-- Why a service cannot be made from its settings. -/
inductive ServiceFault where
  | noTitle
  | noVersion
  | rootlessPath
  | pattern (fault : PatternFault)
  | bodyInPath
  deriving DecidableEq, Repr

def ServiceFault.message : ServiceFault → String
  | noTitle => "A title must be provided for OpenAPI, e.g.: 'My API'"
  | noVersion => "A version must be provided for OpenAPI, e.g.: '2.1.0'"
  | rootlessPath => "A path prefix must start with '/'"
  | pattern fault => fault.message
  | bodyInPath => "Path params must be of one of the supported types"

/-- The route of a plan. A body cannot be taken from the path. -/
def RoutePlan.route (plan : RoutePlan) : Except ServiceFault Route :=
  match Pattern.ofPath plan.path with
  | .error fault => .error (.pattern fault)
  | .ok pattern =>
    if plan.bodyName.any pattern.names.contains then .error .bodyInPath
    else .ok ⟨plan.methods, pattern, plan.action⟩

def documentationFault? (s : Settings) : Option ServiceFault :=
  if s.environment != .development then none
  else if s.appName.isEmpty then some .noTitle
  else if s.appVersion.isEmpty then some .noVersion
  else none

/-- The routes of a service, if its settings allow to make them. -/
def routes (s : Settings) : Except ServiceFault (List Route) :=
  match documentationFault? s with
  | some fault => .error fault
  | none =>
    if s.apiRoot.isEmpty || s.apiRoot.startsWith "/" then
      (plans s).mapM RoutePlan.route
    else .error .rootlessPath

/-- What a method and a path lead to. -/
inductive Destination where
  | action (a : Action)
  | wrongMethod (allowed : List String)
  | otherPath (target : Target)
  | nowhere
  deriving DecidableEq, Repr

/-- The routes that fit a path, each with its action. -/
def fitting (table : List Route) (path : String) : List (Route × Action) :=
  table.filterMap fun route => (route.match? path).map fun a => (route, a)

/-- Finds the destination of a method and a target. -/
def destination (table : List Route) (method : String) (t : Target) : Destination :=
  let candidates := fitting table t.path
  match candidates.find? fun c => c.1.methods.contains method with
  | some (_, a) => .action a
  | none =>
    match candidates with
    | (route, _) :: _ => .wrongMethod route.methods
    | [] =>
      if t.path != "/" && !(fitting table t.otherSlash.path).isEmpty then .otherPath t.otherSlash
      else .nowhere

end Rulebook.Http
