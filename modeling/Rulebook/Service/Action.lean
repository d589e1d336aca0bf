import Rulebook.Http.Route
import Rulebook.Request.Body
import Rulebook.Rule.Compile
import Rulebook.Rule.Stored
import Rulebook.Service.Outcome

/-!
The actions of a service. Sessions are prepared before a request is looked at more closely; a
request with problems changes nothing.
-/

namespace Rulebook.Service

open Http (Request Response Target BodyRead)

def bodyProblems (problems : List Problem) : List Problem :=
  problems.map fun p => { p with path := .name "body" :: p.path }

/-- Checks what was read from a body; it has to be a dictionary with the right members. A body that
is not JSON is a problem, which is reported with the text of its bytes if they have one. -/
def checkBody {α : Type} (check : List (Value × Value) → Checked α) :
    BodyRead → Except Text.Undecodable (Checked α)
  | .nothing => .ok (.fail .missing .null)
  | .bytes source =>
    (Text.ofUtf8 0 [] none (source.map UInt8.toNat)).map fun t => .fail .notAttributes (.text t)
  | .malformed | .unreadable => .ok (.fail .notJson (.object []))
  | .value v => .ok (checkMembers .notAttributes check v)

def withBody {α : Type} (d : Database) (check : List (Value × Value) → Checked α)
    (body : BodyRead) (act : α → Outcome) : Outcome :=
  match checkBody check body with
  | .ok (.good a) => act a
  | .ok (.bad problems) => .respond d (.unprocessable (bodyProblems problems))
  | .error fault => .crash d (.body fault)

def withReadable (d : Database) (body : BodyRead) (act : Outcome) : Outcome :=
  match body with
  | .malformed => .respond d (.unprocessable (bodyProblems [⟨.notJson, [], .object []⟩]))
  | .unreadable => .respond d (.detail 400 "There was an error parsing the body")
  | _ => act

def withSession (d : Database) (act : Database → Outcome) : Outcome :=
  match d.prepare with
  | .ok (prepared, notes) => (act prepared).after notes
  | .error failure => .crash d (.store failure)

/-- The rule with an id, or the response that there is none. -/
def withRule (d : Database) (id : String) (act : StoredRule → Outcome) : Outcome :=
  match d.find? id with
  | .ok (some rule) => act rule
  | .ok none => .respond d (.detail 404 "Rule not found")
  | .error failure => .crash d (.store failure)

/-- The most levels that may stand within a tree that is shown. -/
def mostShownLevels : Nat := 255

/-- A stored rule as it is shown; its tree has to be a dictionary that nests not too deep. -/
def shownRule (rule : StoredRule) : Except Crash Value :=
  match rule.tree with
  | .dict entries =>
    if mostShownLevels < Value.entryLevels entries then .error .deepRule
    else .ok (.object [("id", .ofString rule.id), ("name", .ofString rule.name),
      ("rule_text", .text rule.text), ("rule_ast", (Value.dict entries).withoutNonFinite)])
  | _ => .error .unshowableRule

/-- Stored rules as they are shown. A tree that is no dictionary is found before one that nests too
deep. -/
def shownRules (rules : List StoredRule) : Except Crash (List Value) :=
  let isDictionary (rule : StoredRule) : Bool :=
    match rule.tree with
    | .dict _ => true
    | _ => false
  if rules.all isDictionary then rules.mapM shownRule else .error .unshowableRule

def showRule (d : Database) (status : Nat) (rule : StoredRule) : Outcome :=
  match shownRule rule with
  | .ok v => .respond d (.json status v)
  | .error crash => .crash d crash

/-- The response that a rule text does not compile. -/
def refuseRule (d : Database) (report : Text) : Outcome :=
  .respond d (.detail 400 ("Invalid rule: " ++ report))

def createRule (d : Database) (body : CreateBody) : Outcome :=
  match compile body.rule with
  | .error (.fault f) =>
    (refuseRule d f.message).after
      [.warning "Rule rejected" [("rule_name", .ofString body.name), ("error", .text f.message)]]
  | .error .noOperand => .crash d (.assembly AssemblyFailure.noOperand.message)
  | .ok tree =>
    match d.add body.name body.rule tree.stored with
    | (.ok rule, d) =>
      (showRule d 201 rule).after
        [.info "Rule created" [("rule_id", .ofString rule.id), ("rule_name", .ofString rule.name)]]
    | (.error failure, d) => .crash d (.store failure)

/-- An integer that a path gives. An identifier is none. -/
def checkBinding (b : Http.Binding) : Checked Int :=
  match b.parameter.kind with
  | .uuid => .fail .notInteger (.ofString b.value)
  | .number => Check.integer (((Double.read? b.value).map Value.real).getD .null)
  | .step | .path | .integer => Check.integer (.ofString b.value)

/-- An integer of a window: what the path gives under its name, or else the query, or else a
default. Problems are seen from the request. -/
def checkWindowPart (t : Target) (bindings : List Http.Binding) (name : String) (default : Int) :
    Checked Int :=
  match Http.Binding.find? bindings name with
  | some b => ((checkBinding b).under (.name name)).under (.name "path")
  | none =>
    (Check.optional name ((t.parameter? name).map .ofString) default Check.integer).under
      (.name "query")

def isPathProblem (p : Problem) : Bool := p.path.head? == some (.name "path")

def pathFirst (problems : List Problem) : List Problem :=
  problems.filter isPathProblem ++ problems.filter fun p => !isPathProblem p

def listRules (d : Database) (t : Target) (bindings : List Http.Binding) : Outcome :=
  let part := checkWindowPart t bindings
  match Prod.mk <$> part "skip" 0 <*> part "limit" 100 with
  | .bad problems => .respond d (.unprocessable (pathFirst problems))
  | .good (skip, limit) =>
    match d.window skip limit with
    | .error failure => .crash d (.store failure)
    | .ok rules =>
      match shownRules rules with
      | .ok shown => .respond d (.json 200 (.list shown))
      | .error crash => .crash d crash

def evaluateAdHoc (d : Database) (body : AdHocBody) : Outcome :=
  match compile body.rule with
  | .error (.fault f) => refuseRule d f.message
  | .error .noOperand => .crash d (.assembly AssemblyFailure.noOperand.message)
  | .ok tree =>
    match (tree.decideOn (.dict body.data)).result with
    | .error failure => .crash d (.verdict failure)
    | .ok result =>
      (Outcome.respond d (.json 200 (VerdictBody.value ⟨none, result⟩))).after
        [.debug "Ad-hoc rule evaluated" [("result", .bool result)]]

/-- Decides a stored rule. A tree that was damaged is noted, and decided all the same. -/
def evaluateRule (d : Database) (id : String) (body : EvaluateBody) : Outcome :=
  withRule d id fun rule =>
    let tree := Tree.ofStored rule.tree
    let damage : List Note :=
      if tree.isWellFormed then []
      else [.warning "Stored rule tree is malformed" [("rule_id", .ofString id)]]
    match (tree.decideOn (.dict body.data)).result with
    | .error failure => (Outcome.crash d (.verdict failure)).after damage
    | .ok result =>
      (Outcome.respond d (.json 200 (VerdictBody.value ⟨some (id : Text), result⟩))).after
        (damage ++ [.info "Rule evaluated" [("rule_id", .ofString id), ("result", .bool result)]])

def deleteRule (d : Database) (id : String) : Outcome :=
  withRule d id fun _ =>
    (Outcome.respond (d.remove id) (.empty 204)).after
      [.info "Rule deleted" [("rule_id", .ofString id)]]

def reportHealth (s : Settings) (d : Database) : Outcome :=
  .respond d (.json 200 (.object [("status", .ofString "healthy"),
    ("service", .ofString s.appName), ("version", .ofString s.appVersion)]))

def reportReadiness (s : Settings) (d : Database) : Outcome :=
  let (answers, d, notes) := d.probe
  let report (status database : String) : Value :=
    .object [("status", .ofString status), ("service", .ofString s.appName),
      ("database", .ofString database)]
  (Outcome.respond d (if answers then .json 200 (report "ready" "connected")
    else .json 503 (report "not_ready" "disconnected"))).after notes

def describe (s : Settings) (d : Database) : Outcome :=
  .respond d (.json 200 (.object [("name", .ofString s.appName),
    ("version", .ofString s.appVersion), ("api_version", .ofString "v1")]))

def act (s : Settings) (d : Database) (r : Request) (t : Target) : Http.Action → Outcome
  | .showPage => .respond d ⟨200, [], .page⟩
  | .reportHealth => reportHealth s d
  | .reportReadiness => reportReadiness s d
  | .createRule =>
    let body := r.readBody
    withReadable d body (withSession d fun d =>
      withBody d (CreateBody.check (.good s.maxRuleLength)) body (createRule d))
  | .listRules bindings => withSession d fun d => listRules d t bindings
  | .evaluateAdHoc =>
    let body := r.readBody
    withReadable d body
      (withBody d (AdHocBody.check (.good s.maxRuleLength)) body (evaluateAdHoc d))
  | .getRule id => withSession d fun d => withRule d id fun rule => showRule d 200 rule
  | .deleteRule id => withSession d fun d => deleteRule d id
  | .evaluateRule id =>
    let body := r.readBody
    withReadable d body (withSession d fun d =>
      withBody d EvaluateBody.check body (evaluateRule d id))
  | .describe => describe s d

end Rulebook.Service
