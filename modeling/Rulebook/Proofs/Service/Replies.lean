import Rulebook.Proofs.Request.Body
import Rulebook.Proofs.Service.Changes

/-!
Replies to requests: when a rule was created, how verdicts are reported, and that a POST is answered
with what came of its action.
-/

namespace Rulebook

open Http (Destination Request Response Target)

/-- The member of a body under a name, if the body is a dictionary. -/
def Http.BodyRead.member? (body : BodyRead) (name : Text) : Option Value :=
  match body with
  | .value (.dict entries) => Value.lookup name entries
  | _ => none

theorem Http.BodyRead.member?_eq_some {body : BodyRead} {name : Text} {v : Value}
    (h : body.member? name = some v) :
    ∃ entries, body = .value (.dict entries) ∧ Value.lookup name entries = some v := by
  unfold member? at h
  split at h
  · exact ⟨_, rfl, h⟩
  · cases h

/-- The member of a response under a name. -/
def Http.Response.member? (response : Response) (name : Text) : Option Value :=
  response.body.content?.bind fun v => v.field? name

/-- How a verdict is reported: the status of the response, and the result in its body. -/
def Verdict.reported (v : Verdict) : Nat × Option Value :=
  match v.result with
  | .ok result => (200, some (.bool result))
  | .error _ => (500, none)

/-- What a response reports: its status, and the result in its body if there is one. -/
def Http.Response.report (response : Response) : Nat × Option Value :=
  (response.status, response.member? "result")

namespace Service
variable {s : Settings} {d : Database} {r : Request} {t : Target} {entries : List (Value × Value)}

/-- The reply to a request for a verdict. -/
def verdictReply (ruleId : Option Text) (v : Verdict) : Except Crash Response :=
  match v.result with
  | .ok result => .ok (.json 200 (VerdictBody.value ⟨ruleId, result⟩))
  | .error failure => .error (.verdict failure)

theorem status_of_verdictReply {ruleId : Option Text} {v : Verdict} {response : Response}
    (h : verdictReply ruleId v = .ok response) : response.status = 200 := by
  unfold verdictReply at h
  split at h
  · obtain rfl := Except.ok.inj h
    rfl
  · cases h

theorem act_evaluateAdHoc {body : AdHocBody} (hread : r.readBody = .value (.dict entries))
    (hcheck : AdHocBody.check (.good s.maxRuleLength) entries = .good body) :
    act s d r t .evaluateAdHoc = evaluateAdHoc d body := by
  simp only [act, hread, withReadable, withBody, checkBody, checkMembers, hcheck]

theorem reply_evaluateAdHoc {body : AdHocBody} {tree : Tree}
    (hread : r.readBody = .value (.dict entries))
    (hcheck : AdHocBody.check (.good s.maxRuleLength) entries = .good body)
    (hcompile : compile body.rule = .ok tree) :
    (act s d r t .evaluateAdHoc).reply = verdictReply none (tree.decideOn (.dict body.data)) := by
  simp only [act_evaluateAdHoc hread hcheck, evaluateAdHoc, hcompile, verdictReply]
  cases (tree.decideOn (.dict body.data)).result <;> rfl

def noRule : Response := .detail 404 "Rule not found"

section
variable {book : Book}

/-- On a database that is ready, an action on a rule acts on what its id finds in the book. -/
theorem reply_withRule (hd : d.IsReady) (hbook : d.book = some book) (id : String) :
    ∃ d', ∀ act : Database → StoredRule → Outcome,
      (withSession d fun d => withRule d id (act d)).reply = match book.find? id with
        | some rule => (act d' rule).reply
        | none => .ok noRule := by
  obtain ⟨d', notes, hprepare⟩ := Database.exists_prepare hd.answers
  have hk := Database.prepare_keeps hprepare
  have hfound := Database.find?_of_isReady (hk.isReady hd) (hk.book.trans hbook) id
  refine ⟨d', fun act => ?_⟩
  simp only [withSession, hprepare, withRule, hfound, Outcome.after]
  cases book.find? id <;> rfl

theorem reply_getRule (hd : d.IsReady) (hbook : d.book = some book) (id : String) :
    (act s d r t (.getRule id)).reply = match book.find? id with
      | some rule => (shownRule rule).map (.json 200)
      | none => .ok noRule := by
  obtain ⟨d', hreply⟩ := reply_withRule hd hbook id
  simp only [act, hreply, showRule_eq]

theorem reply_deleteRule (hd : d.IsReady) (hbook : d.book = some book) (id : String) :
    (act s d r t (.deleteRule id)).reply = match book.find? id with
      | some _ => .ok (.empty 204)
      | none => .ok noRule := by
  obtain ⟨d', hreply⟩ := reply_withRule hd hbook id
  simp only [act, deleteRule, hreply]
  rfl

theorem reply_evaluateRule {body : EvaluateBody} (hd : d.IsReady) (hbook : d.book = some book)
    (hread : r.readBody = .value (.dict entries))
    (hcheck : EvaluateBody.check entries = .good body) (id : String) :
    (act s d r t (.evaluateRule id)).reply = match book.find? id with
      | some rule =>
        verdictReply (some (id : Text)) ((Tree.ofStored rule.tree).decideOn (.dict body.data))
      | none => .ok noRule := by
  obtain ⟨d', hreply⟩ := reply_withRule hd hbook id
  simp only [act, hread, withReadable, withBody, checkBody, checkMembers, hcheck, evaluateRule,
    hreply, verdictReply]
  cases book.find? id with
  | none => rfl
  | some rule =>
      dsimp only
      cases ((Tree.ofStored rule.tree).decideOn (.dict body.data)).result <;> rfl

/-- Where a rule is stored, a request to decide it is not answered that there is none. -/
theorem status_evaluateRule {id : String} {rule : StoredRule} {response : Response} (hd : d.IsReady)
    (hbook : d.book = some book) (hfind : book.find? id = some rule)
    (h : (act s d r t (.evaluateRule id)).reply = .ok response) : response.status ≠ 404 := by
  obtain ⟨d', notes, hprepare⟩ := Database.exists_prepare hd.answers
  have hunread {reply : Except Crash Response} (hreply : ∀ response, reply = .ok response →
      response.status ≠ 404) (hsession : (withSession d fun d => withBody d EvaluateBody.check
        r.readBody (evaluateRule d id)).reply = reply) : response.status ≠ 404 := by
    dsimp only [act] at h
    unfold withReadable at h
    split at h
    · obtain rfl := Except.ok.inj h
      exact (by decide : 422 ≠ 404)
    · obtain rfl := Except.ok.inj h
      exact (by decide : 400 ≠ 404)
    · exact hreply response (hsession.symm.trans h)
  cases hcheck : checkBody EvaluateBody.check r.readBody with
  | error fault =>
      have hsession : (withSession d fun d => withBody d EvaluateBody.check r.readBody
          (evaluateRule d id)).reply = .error (.body fault) := by
        simp only [withSession, hprepare, withBody, hcheck]
        rfl
      refine hunread (fun response hresponse => ?_) hsession
      cases hresponse
  | ok checked =>
      cases checked with
      | good body =>
          obtain ⟨entries, hread, hgood⟩ := checkBody_eq_good hcheck
          rw [reply_evaluateRule hd hbook hread hgood, hfind] at h
          rw [status_of_verdictReply h]
          decide
      | bad problems =>
          have hsession : (withSession d fun d => withBody d EvaluateBody.check r.readBody
              (evaluateRule d id)).reply = .ok (.unprocessable (bodyProblems problems)) := by
            simp only [withSession, hprepare, withBody, hcheck]
            rfl
          refine hunread (fun response hresponse => ?_) hsession
          cases hresponse
          exact (by decide : 422 ≠ 404)

end

theorem shownRule_id {rule : StoredRule} {v : Value} (h : shownRule rule = .ok v) :
    v.field? "id" = some (.ofString rule.id) := by
  unfold shownRule at h
  split at h
  · split at h
    · cases h
    · cases h
      rfl
  · cases h

theorem Creates.shown {body : CreateBody} {o : Outcome} {rule : StoredRule} {response : Response}
    (h : Creates d body o rule) (hreply : o.reply = .ok response) :
    ∃ v, shownRule rule = .ok v ∧ response = .json 201 v := by
  cases hshown : shownRule rule with
  | error crash =>
      rw [h.reply, hshown] at hreply
      cases hreply
  | ok v =>
      rw [h.reply, hshown] at hreply
      exact ⟨v, rfl, (Except.ok.inj hreply).symm⟩

theorem Effect.exists_creates {a : Http.Action} {o : Outcome} {response : Response}
    (h : Effect s d r a o) (hreply : o.reply = .ok response) (h201 : response.status = 201) :
    a = .createRule ∧ ∃ entries body rule, r.readBody = .value (.dict entries) ∧
      CreateBody.check (.good s.maxRuleLength) entries = .good body ∧ Creates d body o rule := by
  cases h with
  | kept hk hquiet =>
      have hstatus := hquiet response hreply
      rw [h201] at hstatus
      cases hstatus
  | skipped crash ha hk hd hcrash =>
      rw [hcrash] at hreply
      cases hreply
  | created rule ha hread hcheck hc => exact ⟨ha, _, _, rule, hread, hcheck, hc⟩
  | deleted id rule ha hk hb hf hd hempty =>
      obtain rfl := Except.ok.inj (hempty.symm.trans hreply)
      cases h201

end Service

namespace Server
open Service

section
variable {server : Server} {r : Request} {a : Http.Action}

/-- The status and the body of the response that is sent for a reply. -/
def carried (s : Settings) : Except Crash Response → Nat × Http.Body
  | .ok response => (response.status, response.body)
  | .error crash => (500, (crashResponse s crash).body)

theorem reply_of_replyOf {o : Outcome} {response : Response} (h : replyOf o = .ok response) :
    o.reply = .ok response := by
  unfold replyOf at h
  split at h
  · cases h
  · split at h
    · cases h
    · exact Eq.trans (by assumption) h

theorem replyOf_eq_ok {o : Outcome} {response : Response} (hreply : o.reply = .ok response)
    (hsent : response.fault? = none) : replyOf o = .ok response := by
  simp only [replyOf, hreply, hsent]

theorem mark_eq (s : Settings) (origin : String) (response : Response) :
    (Http.Cors.mark s origin response).status = response.status ∧
      (Http.Cors.mark s origin response).body = response.body := by
  unfold Http.Cors.mark
  split <;> exact ⟨rfl, rfl⟩

theorem carried_mark (s : Settings) (origin : String) (o : Outcome) :
    carried s (replyOf { o with reply := o.reply.map (Http.Cors.mark s origin) }) =
      carried s (replyOf o) := by
  cases h : o.reply with
  | error crash => simp [replyOf, h, Except.map]
  | ok response =>
      obtain ⟨hstatus, hbody⟩ := mark_eq s origin response
      have hfault : (Http.Cors.mark s origin response).fault? = response.fault? := by
        rw [Response.fault?, Response.fault?, hbody]
      simp only [replyOf, h, Except.map, hfault]
      cases response.fault? with
      | some fault => rfl
      | none => simp only [carried, hstatus, hbody]

theorem carried_handle (server : Server) (r : Request) :
    let o := server.answerAcross r (Target.ofText r.target)
    (server.handle r).1.status = (carried server.settings (replyOf o)).1 ∧
      (r.method ≠ "HEAD" → (server.handle r).1.body = (carried server.settings (replyOf o)).2) := by
  have hbody (response : Response) : (withoutBody r response).status = response.status ∧
      (r.method ≠ "HEAD" → (withoutBody r response).body = response.body) := by
    unfold withoutBody
    split
    · rename_i hhead
      exact ⟨rfl, fun hne => absurd (eq_of_beq hhead) hne⟩
    · exact ⟨rfl, fun _ => rfl⟩
  dsimp only
  unfold handle
  dsimp only
  split
  · rename_i response hreply
    rw [hreply]
    exact hbody (response.withHeader correlationHeader (server.correlationId r))
  · rename_i crash hreply
    rw [hreply]
    exact hbody (crashResponse server.settings crash)

theorem status_carried (s : Settings) (P : Nat → Prop) {o : Outcome} (hcrash : P 500)
    (h : ∀ response, o.reply = .ok response → P response.status) :
    P (carried s (replyOf o)).1 := by
  cases hreply : replyOf o with
  | error crash => exact hcrash
  | ok response => exact h response (reply_of_replyOf hreply)

theorem isQuiet_carried (s : Settings) {o : Outcome}
    (h : ∀ response, o.reply = .ok response → isQuiet response.status = true) :
    isQuiet (carried s (replyOf o)).1 = true :=
  status_carried s (fun status => isQuiet status = true) rfl h

theorem isQuiet_preflight {s : Settings} {origin method : String} {response : Response}
    (h : Http.Cors.preflight s r origin method = .ok response) :
    isQuiet response.status = true := by
  unfold Http.Cors.preflight at h
  split at h
  · cases h
  · obtain rfl := Except.ok.inj h
    have hstatus (allowed : Bool) : isQuiet (if allowed = true then 200 else 400) = true := by
      cases allowed <;> rfl
    rw [(mark_eq s origin _).1]
    exact hstatus _

/-- A request is answered as its destination says, but for a header about its origin. Only a
browser's question is not. -/
theorem answerAcross_cases (server : Server) (r : Request) (t : Target) :
    r.method = "OPTIONS" ∧ isQuiet (carried server.settings
        (replyOf (server.answerAcross r t))).1 = true ∧
        (server.answerAcross r t).database = server.database ∨
      carried server.settings (replyOf (server.answerAcross r t)) =
          carried server.settings (replyOf (server.answer r t)) ∧
        (server.answerAcross r t).database = (server.answer r t).database := by
  unfold answerAcross
  split
  · exact .inr ⟨rfl, rfl⟩
  · split
    · rename_i method hmethod
      have hoptions : r.method = "OPTIONS" := by
        by_contra hne
        simp [hne] at hmethod
      refine .inl ⟨hoptions, ?_⟩
      split
      · rename_i response hpreflight
        refine ⟨isQuiet_carried _ fun other he => ?_, rfl⟩
        obtain rfl := Except.ok.inj he
        exact isQuiet_preflight hpreflight
      · exact ⟨rfl, rfl⟩
    · exact .inr ⟨carried_mark .., rfl⟩

/-- What is sent in answer to a request that leads to an action is what comes of the action. -/
theorem handle_action (hmethod : r.method ≠ "OPTIONS")
    (ha : Http.destination server.table r.method (Target.ofText r.target) = .action a) :
    let o := act server.settings server.database r (Target.ofText r.target) a
    (server.handle r).1.status = (carried server.settings (replyOf o)).1 ∧
      (r.method ≠ "HEAD" → (server.handle r).1.body = (carried server.settings (replyOf o)).2) ∧
      (server.handle r).2.database = o.database := by
  have hanswer : server.answer r (Target.ofText r.target) =
      act server.settings server.database r (Target.ofText r.target) a := by
    simp only [answer, ha]
  obtain ⟨hstatus, hbody⟩ := carried_handle server r
  rcases answerAcross_cases server r (Target.ofText r.target) with
    ⟨hoptions, -⟩ | ⟨hcarried, hdatabase⟩
  · exact absurd hoptions hmethod
  · rw [hcarried, hanswer] at hstatus hbody
    rw [hanswer] at hdatabase
    exact ⟨hstatus, hbody, (database_handle server r).trans hdatabase⟩

theorem handle_quiet
    (h : ∀ a, Http.destination server.table r.method (Target.ofText r.target) ≠ .action a) :
    isQuiet (server.handle r).1.status = true ∧
      (server.handle r).2.database = server.database := by
  have hanswer : (server.answer r (Target.ofText r.target)).database = server.database ∧
      ∀ response, (server.answer r (Target.ofText r.target)).reply = .ok response →
        isQuiet response.status = true := by
    unfold answer
    split
    · rename_i a ha
      exact absurd ha (h a)
    all_goals
      refine ⟨rfl, fun response he => ?_⟩
      obtain rfl := Except.ok.inj he
      rfl
  rw [(carried_handle server r).1, database_handle]
  rcases answerAcross_cases server r (Target.ofText r.target) with
    ⟨-, hquiet⟩ | ⟨hcarried, hdatabase⟩
  · exact hquiet
  · rw [hcarried, hdatabase]
    exact ⟨isQuiet_carried _ hanswer.2, hanswer.1⟩

theorem report_of_verdictReply {s : Settings} {o : Outcome} (ruleId : Option String) {v : Verdict}
    {response : Response} (h : o.reply = verdictReply (ruleId.map Text.ofString) v)
    (hresponse : (response.status, response.body) = carried s (replyOf o)) :
    response.report = v.reported := by
  unfold verdictReply at h
  unfold Verdict.reported
  split at h
  · rename_i result hresult
    simp only [replyOf, h, VerdictBody.fault?_json, carried, Prod.mk.injEq] at hresponse
    rw [Response.report, Response.member?, hresponse.1, hresponse.2]
    rfl
  · rename_i failure hfailure
    simp only [replyOf, h, carried, Prod.mk.injEq] at hresponse
    rw [Response.report, Response.member?, hresponse.1, hresponse.2]
    rfl

end

/-- A service with default settings on a database in memory, which counts its rules and ids. -/
def inMemory : Server :=
  ⟨.defaults, (Http.routes .defaults).toOption.getD [], .ofUrl Database.memoryUrl none .counting,
    .counting 0, []⟩

theorem create_inMemory :
    create .defaults (.ofUrl Database.memoryUrl none .counting) (.counting 0) = .ok inMemory := by
  have hroutes : (Http.routes .defaults).toOption.isSome = true := by decide +kernel
  unfold inMemory create
  cases h : Http.routes .defaults with
  | error fault =>
      rw [h] at hroutes
      cases hroutes
  | ok table => rfl

/-- A request to a path below that of the rules, with JSON text as its body. -/
def toRules (method path body : String) : Request :=
  ⟨method, "/api/v1/rules/" ++ path, [("content-type", "application/json")], body.toUTF8.toList⟩

end Server

end Rulebook
