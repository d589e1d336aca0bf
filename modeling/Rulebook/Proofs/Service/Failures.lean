import Rulebook.Proofs.Request.Problems
import Rulebook.Proofs.Rule.Message
import Rulebook.Proofs.Service.Lifecycle

/-!
Which requests about rules fail. A service that is ready answers them as they deserve, except that a
rule may nest too deep to be shown, that a window may lie beyond what the store can count, and that
a body may hold what no report can repeat.
-/

namespace Rulebook

open Http (Request Response Target)

/-- The text of a rule compiles to a tree that nests too deep to be shown. -/
def StoredRule.isDeep (rule : StoredRule) : Bool :=
  match compile rule.text with
  | .ok tree => Service.mostShownLevels ≤ tree.height
  | .error _ => false

namespace Service

section
variable {bound : LengthBound} {rule : StoredRule} {rules : List StoredRule}

/-- A rule in order with a plain text is shown and can be sent, unless it nests too deep. -/
theorem shownRule_cases (h : rule.IsSound bound) (hplain : rule.text.IsPlain) :
    rule.isDeep = true ∧ shownRule rule = .error .deepRule ∨
      rule.isDeep = false ∧ ∃ v, shownRule rule = .ok v ∧ v.IsSendable := by
  obtain ⟨tree, hcompile, htree⟩ := h.tree
  have hshown := shownRule_of_compile hcompile htree
  by_cases hdeep : mostShownLevels ≤ tree.height
  · rw [if_pos hdeep] at hshown
    exact .inl ⟨by simp [StoredRule.isDeep, hcompile, hdeep], hshown⟩
  · rw [if_neg hdeep] at hshown
    exact .inr ⟨by simp [StoredRule.isDeep, hcompile, hdeep], _, hshown,
      isSendable_ruleValue hcompile hplain⟩

theorem mapM_shownRule_cases (h : ∀ rule ∈ rules, rule.IsSound bound ∧ rule.text.IsPlain) :
    rules.any StoredRule.isDeep = true ∧ (∃ crash, rules.mapM shownRule = .error crash) ∨
      rules.any StoredRule.isDeep = false ∧
        ∃ vs, rules.mapM shownRule = .ok vs ∧ ∀ v ∈ vs, v.IsSendable := by
  induction rules with
  | nil => exact .inr ⟨rfl, [], rfl, nofun⟩
  | cons rule rules ih =>
      obtain ⟨⟨hsound, hplain⟩, hrest⟩ := List.forall_mem_cons.mp h
      rw [List.mapM_cons, List.any_cons]
      rcases shownRule_cases hsound hplain with ⟨hdeep, hshown⟩ | ⟨hdeep, v, hshown, hv⟩
      · exact .inl ⟨by rw [hdeep]; rfl, _, by rw [hshown]; rfl⟩
      · rw [hdeep, hshown, Bool.false_or]
        rcases ih hrest with ⟨hany, crash, hcrash⟩ | ⟨hany, vs, hvs, hsendable⟩
        · exact .inl ⟨hany, crash, by rw [hcrash]; rfl⟩
        · exact .inr ⟨hany, v :: vs, by rw [hvs]; rfl, List.forall_mem_cons.mpr ⟨hv, hsendable⟩⟩

theorem shownRules_cases (h : ∀ rule ∈ rules, rule.IsSound bound ∧ rule.text.IsPlain) :
    rules.any StoredRule.isDeep = true ∧ (∃ crash, shownRules rules = .error crash) ∨
      rules.any StoredRule.isDeep = false ∧
        ∃ vs, shownRules rules = .ok vs ∧ ∀ v ∈ vs, v.IsSendable := by
  have heq : shownRules rules = rules.mapM shownRule := by
    refine if_pos (List.all_eq_true.mpr fun rule hrule => ?_)
    obtain ⟨tree, hcompile, htree⟩ := (h rule hrule).1.tree
    obtain ⟨entries, hentries, -⟩ :=
      Tree.exists_stored (isExpressible_of_compile hcompile).wellFormed
    rw [htree, hentries]
  rw [heq]
  exact mapM_shownRule_cases h

end

section
variable {s : Settings} {d : Database} {r : Request} {t : Target} {book : Book}

/-- The window that a query asks for. -/
def askedWindow (t : Target) (bindings : List Http.Binding) : Checked (Int × Int) :=
  Prod.mk <$> checkWindowPart t bindings "skip" 0 <*> checkWindowPart t bindings "limit" 100

/-- The status of an answer that shows a window of a book. -/
def windowStatus (book : Book) : Checked (Int × Int) → Nat
  | .bad _ => 422
  | .good (skip, limit) =>
    if !(fitsStore skip && fitsStore limit) || (book.window skip limit).any StoredRule.isDeep then 500
    else 200

/-- What the store gives of a window. -/
def windowReply (book : Book) (window : Int × Int) : Except Crash Response :=
  if fitsStore window.1 && fitsStore window.2 then
    (shownRules (book.window window.1 window.2)).map fun shown => .json 200 (.list shown)
  else .error (.store .integerTooLarge)

theorem blames_askedWindow (t : Target) : (askedWindow t []).Blames Value.IsSendable :=
  .seq (.map (blames_checkWindowPart t _ _) _) (blames_checkWindowPart t _ _)

theorem reply_listRules (hd : d.IsReady) (hbook : d.book = some book)
    (bindings : List Http.Binding) : (act s d r t (.listRules bindings)).reply =
      match askedWindow t bindings with
      | .bad problems => .ok (.unprocessable (pathFirst problems))
      | .good window => windowReply book window := by
  obtain ⟨d', notes, hprepare⟩ := Database.exists_prepare hd.answers
  have hk := Database.prepare_keeps hprepare
  have hfound (skip limit : Int) : d'.book? (.window skip limit) = .ok book :=
    Database.book?_of_isReady (hk.isReady hd) _ (hk.book.trans hbook)
  have hreply : (act s d r t (.listRules bindings)).reply = (listRules d' t bindings).reply := by
    simp only [act, withSession, hprepare, Outcome.after]
  rw [hreply]
  cases hasked : askedWindow t bindings with
  | bad problems =>
      unfold askedWindow at hasked
      simp only [listRules, hasked]
      rfl
  | good window =>
      unfold askedWindow at hasked
      simp only [listRules, hasked, Database.window, hfound, Except.bind, windowReply]
      cases fitsStore window.1 && fitsStore window.2 with
      | false => rfl
      | true =>
          simp only [if_true]
          cases shownRules (book.window window.1 window.2) <;> rfl

/-- The check of the body of a request to create a rule. -/
def checkCreate (s : Settings) (body : Http.BodyRead) :
    Except Text.Undecodable (Checked CreateBody) :=
  checkBody (CreateBody.check (.good s.maxRuleLength)) body

/-- The statuses that tell what became of a request to create a rule. -/
def creationStatuses : List Nat := [201, 400, 422]

theorem status_createRule {body : CreateBody} {response : Response}
    (h : (createRule d body).reply = .ok response) : response.status ∈ creationStatuses := by
  unfold createRule at h
  split at h
  · cases h
    exact (by decide : 400 ∈ creationStatuses)
  · cases h
  · split at h
    · rename_i rule d' hadd
      rw [showRule_eq] at h
      cases hshown : shownRule rule with
      | error crash =>
          simp only [Outcome.after, hshown, Except.map] at h
          cases h
      | ok v =>
          simp only [Outcome.after, hshown, Except.map] at h
          cases h
          exact (by decide : 201 ∈ creationStatuses)
    · cases h

theorem status_create {response : Response} (hd : d.IsReady)
    (h : (act s d r t .createRule).reply = .ok response) : response.status ∈ creationStatuses := by
  obtain ⟨d', notes, hprepare⟩ := Database.exists_prepare hd.answers
  simp only [act] at h
  unfold withReadable at h
  split at h
  · cases h
    exact (by decide : 422 ∈ creationStatuses)
  · cases h
    exact (by decide : 400 ∈ creationStatuses)
  · simp only [withSession, hprepare, Outcome.after] at h
    unfold withBody at h
    split at h
    · exact status_createRule h
    · cases h
      exact (by decide : 422 ∈ creationStatuses)
    · cases h

/-- A body whose bytes are no text cannot be reported. -/
theorem reply_create_undecodable (hd : d.IsReady) {fault : Text.Undecodable}
    (hcheck : checkCreate s r.readBody = .error fault) :
    (act s d r t .createRule).reply = .error (.body fault) := by
  obtain ⟨d', notes, hprepare⟩ := Database.exists_prepare hd.answers
  have hsession : (withSession d fun d => withBody d
      (CreateBody.check (.good s.maxRuleLength)) r.readBody (createRule d)).reply =
        .error (.body fault) := by
    unfold checkCreate at hcheck
    simp only [withSession, hprepare, withBody, hcheck]
    rfl
  simp only [act]
  unfold withReadable
  split
  · rename_i hbody
    rw [hbody] at hcheck
    cases hcheck
  · rename_i hbody
    rw [hbody] at hcheck
    cases hcheck
  · exact hsession

/-- A body with problems is refused, and so is one that cannot be read. -/
theorem reply_create_bad (hd : d.IsReady) {problems : List Problem}
    (hcheck : checkCreate s r.readBody = .ok (.bad problems)) :
    (act s d r t .createRule).reply = .ok (.unprocessable (bodyProblems problems)) ∨
      r.readBody = .unreadable ∧
        (act s d r t .createRule).reply = .ok (.detail 400 "There was an error parsing the body") := by
  obtain ⟨d', notes, hprepare⟩ := Database.exists_prepare hd.answers
  have hsession : (withSession d fun d => withBody d
      (CreateBody.check (.good s.maxRuleLength)) r.readBody (createRule d)).reply =
        .ok (.unprocessable (bodyProblems problems)) := by
    unfold checkCreate at hcheck
    simp only [withSession, hprepare, withBody, hcheck]
    rfl
  simp only [act]
  unfold withReadable
  split
  · rename_i hbody
    rw [hbody] at hcheck
    cases hcheck
    exact .inl rfl
  · rename_i hbody
    exact .inr ⟨hbody, rfl⟩
  · exact .inl hsession

section
variable {entries : List (Value × Value)} {body : CreateBody}

theorem reply_create_good (hd : d.IsReady) (hread : r.readBody = .value (.dict entries))
    (hcheck : CreateBody.check (.good s.maxRuleLength) entries = .good body) :
    ∃ d', d.Keeps d' ∧ (act s d r t .createRule).reply = (createRule d' body).reply := by
  obtain ⟨d', notes, hprepare⟩ := Database.exists_prepare hd.answers
  refine ⟨d', Database.prepare_keeps hprepare, ?_⟩
  simp only [act, hread, withReadable, withSession, hprepare, withBody, checkBody, checkMembers,
    hcheck]
  rfl

theorem reply_create_fault (hd : d.IsReady) (hread : r.readBody = .value (.dict entries))
    (hcheck : CreateBody.check (.good s.maxRuleLength) entries = .good body) {f : Fault}
    (hcompile : compile body.rule = .error (.fault f)) :
    (act s d r t .createRule).reply = .ok (.detail 400 ("Invalid rule: " ++ f.message)) := by
  obtain ⟨d', -, hreply⟩ := reply_create_good (t := t) hd hread hcheck
  rw [hreply]
  simp only [createRule, hcompile]
  rfl

/-- A rule that nests too deep to be shown is not answered for, nor is one that cannot be written to
the store. -/
theorem reply_create_crash (hd : d.IsReady) (hread : r.readBody = .value (.dict entries))
    (hcheck : CreateBody.check (.good s.maxRuleLength) entries = .good body) {tree : Tree}
    (hcompile : compile body.rule = .ok tree)
    (hbad : mostShownLevels ≤ tree.height ∨ ¬ body.rule.IsPlain) :
    ∃ crash, (act s d r t .createRule).reply = .error crash := by
  obtain ⟨d', hk, hreply⟩ := reply_create_good (t := t) hd hread hcheck
  rw [hreply]
  rcases hadd : d'.add body.name body.rule tree.stored with ⟨failure | rule, d''⟩
  · refine ⟨.store failure, ?_⟩
    simp only [createRule, hcompile, hadd]
    rfl
  · have hc := creates_of_add hk hcompile hadd
    have hplain : body.rule.IsPlain := hc.text ▸ Text.isPlain_of_unwritable? hc.writable
    have hshown := hc.shownRule_eq (hc.text ▸ hcompile)
    rw [if_pos (hbad.resolve_right (not_not.mpr hplain))] at hshown
    exact ⟨_, by rw [hc.reply, hshown]; rfl⟩

theorem reply_create_shown (hd : d.IsReady) (hfresh : d.HasFreshIds)
    (hread : r.readBody = .value (.dict entries))
    (hcheck : CreateBody.check (.good s.maxRuleLength) entries = .good body) {tree : Tree}
    (hcompile : compile body.rule = .ok tree) (hplain : body.rule.IsPlain)
    (hdeep : ¬ mostShownLevels ≤ tree.height) :
    ∃ v, (act s d r t .createRule).reply = .ok (.json 201 v) ∧ v.IsSendable := by
  obtain ⟨stored, hstored, hheight⟩ :=
    Tree.exists_stored (isExpressible_of_compile hcompile).wellFormed
  have hlevels : tree.stored.levels < storeDepth := by
    rw [hstored, Value.levels, hheight]
    simp only [mostShownLevels, storeDepth] at hdeep ⊢
    omega
  obtain ⟨rule, hc⟩ : ∃ rule, Creates d body (act s d r t .createRule) rule :=
    exists_creates hd hfresh hread hcheck hcompile hlevels hplain.unwritable?
  have hcompile' : compile rule.text = .ok tree := hc.text ▸ hcompile
  have hshown := hc.shownRule_eq hcompile'
  rw [if_neg hdeep] at hshown
  exact ⟨_, by rw [hc.reply, hshown]; rfl, isSendable_ruleValue hcompile' (hc.text ▸ hplain)⟩

end

end

end Service

/-- The texts of all stored rules are plain. -/
def Database.HasPlainRules (d : Database) : Prop :=
  ∀ book ∈ d.book, ∀ rule ∈ book.rules, rule.text.IsPlain

theorem Service.Effect.hasPlainRules {s : Settings} {d : Database} {r : Request} {a : Http.Action}
    {o : Outcome} (h : Effect s d r a o) (hd : d.HasPlainRules) : o.database.HasPlainRules := by
  have hkept {d' : Database} (hk : d.Keeps d') : d'.HasPlainRules := by
    unfold Database.HasPlainRules
    rwa [hk.book]
  cases h with
  | kept hk => exact hkept hk
  | skipped crash ha hk hdatabase =>
      rw [hdatabase]
      exact fun book hb => hkept hk book hb
  | created rule ha hread hcheck hc =>
      obtain ⟨d', book, hk, hb, -, hdatabase⟩ := hc.stored
      rw [hdatabase]
      rintro _ ⟨⟩
      refine List.forall_mem_append.mpr ⟨hkept hk book hb, List.forall_mem_singleton.mpr ?_⟩
      exact Text.isPlain_of_unwritable? hc.writable
  | deleted id rule ha hk hb hf hdatabase =>
      rw [hdatabase]
      intro book' hbook'
      obtain ⟨book, hbook, rfl⟩ := Option.map_eq_some_iff.mp hbook'
      exact fun rule hrule => hkept hk book hbook rule (List.mem_filter.mp hrule).1

namespace Service
open Http (BodyRead)

/-- Why a request to create a rule fails: its body should be repeated but is no text, or the answer
that it deserves cannot be sent, or its rule nests too deep to be shown or cannot be written to the
store. -/
inductive FailsToCreate (s : Settings) (body : BodyRead) : Prop
  | undecodable {fault} : checkCreate s body = .error fault → FailsToCreate s body
  | report {problems} : checkCreate s body = .ok (.bad problems) →
      (Response.unprocessable (bodyProblems problems)).fault? ≠ none → FailsToCreate s body
  | refusal {submitted f} : checkCreate s body = .ok (.good submitted) →
      compile submitted.rule = .error (.fault f) →
      (Response.detail 400 ("Invalid rule: " ++ f.message)).fault? ≠ none → FailsToCreate s body
  | rule {submitted tree} : checkCreate s body = .ok (.good submitted) →
      compile submitted.rule = .ok tree →
      mostShownLevels ≤ tree.height ∨ ¬ submitted.rule.IsPlain → FailsToCreate s body

section
variable {s : Settings} {body : BodyRead} {problems : List Problem} {submitted : CreateBody}
  {f : Fault} {tree : Tree}

theorem failsToCreate_bad_iff (hcheck : checkCreate s body = .ok (.bad problems)) :
    FailsToCreate s body ↔ (Response.unprocessable (bodyProblems problems)).fault? ≠ none := by
  refine ⟨fun h => ?_, .report hcheck⟩
  cases h with
  | undecodable hcheck' => cases hcheck.symm.trans hcheck'
  | report hcheck' hfault =>
      cases hcheck.symm.trans hcheck'
      exact hfault
  | refusal hcheck' => cases hcheck.symm.trans hcheck'
  | rule hcheck' => cases hcheck.symm.trans hcheck'

theorem failsToCreate_refused_iff (hcheck : checkCreate s body = .ok (.good submitted))
    (hcompile : compile submitted.rule = .error (.fault f)) : FailsToCreate s body ↔
      (Response.detail 400 ("Invalid rule: " ++ f.message)).fault? ≠ none := by
  refine ⟨fun h => ?_, .refusal hcheck hcompile⟩
  cases h with
  | undecodable hcheck' => cases hcheck.symm.trans hcheck'
  | report hcheck' => cases hcheck.symm.trans hcheck'
  | refusal hcheck' hcompile' hfault =>
      cases hcheck.symm.trans hcheck'
      cases hcompile.symm.trans hcompile'
      exact hfault
  | rule hcheck' hcompile' =>
      cases hcheck.symm.trans hcheck'
      cases hcompile.symm.trans hcompile'

theorem failsToCreate_rule_iff (hcheck : checkCreate s body = .ok (.good submitted))
    (hcompile : compile submitted.rule = .ok tree) : FailsToCreate s body ↔
      mostShownLevels ≤ tree.height ∨ ¬ submitted.rule.IsPlain := by
  refine ⟨fun h => ?_, .rule hcheck hcompile⟩
  cases h with
  | undecodable hcheck' => cases hcheck.symm.trans hcheck'
  | report hcheck' => cases hcheck.symm.trans hcheck'
  | refusal hcheck' hcompile' =>
      cases hcheck.symm.trans hcheck'
      cases hcompile.symm.trans hcompile'
  | rule hcheck' hcompile' hbad =>
      cases hcheck.symm.trans hcheck'
      cases hcompile.symm.trans hcompile'
      exact hbad

end

end Service

namespace Exchange
open Service Server

/-- The tree of the rule that a request submits, if its body passes its checks and the text
compiles. -/
def submitted? (e : Exchange) : Option Tree :=
  match checkCreate e.before.settings e.request.readBody with
  | .ok (.good body) => (compile body.rule).toOption
  | .ok (.bad _) | .error _ => none

/-- The window that a request asks for. -/
def window (e : Exchange) : Checked (Int × Int) :=
  askedWindow (Target.ofText e.request.target) []

/-- How a request about the rules of a book is answered. -/
structure AnswersOnRules (e : Exchange) (book : Book) : Prop where
  created : e.destination = .action .createRule → e.request.readBody.IsSendable →
    match e.submitted? with
    | some tree => e.response.status = if mostShownLevels ≤ tree.height then 500 else 201
    | none => e.response.status = 400 ∨ e.response.status = 422
  creation : e.destination = .action .createRule →
    e.response.status = 500 ∨ e.response.status ∈ creationStatuses
  failed : e.destination = .action .createRule →
    (e.response.status = 500 ↔ FailsToCreate e.before.settings e.request.readBody)
  listed : ∀ bindings, e.destination = .action (.listRules bindings) →
    e.response.status = windowStatus book e.window
  shown : ∀ id, e.destination = .action (.getRule id) →
    e.response.status = match book.find? id with
      | some rule => if rule.isDeep then 500 else 200
      | none => 404
  deleted : ∀ id, e.destination = .action (.deleteRule id) →
    e.response.status = match book.find? id with
      | some _ => 204
      | none => 404

section
variable {e : Exchange} {book : Book}

theorem Acts.status_of_crash {a : Http.Action} {crash : Crash} (h : e.Acts a)
    (hreply : (e.outcome a).reply = .error crash) : e.response.status = 500 := by
  rw [h.status, replyOf, hreply]
  rfl

/-- What is replied decides the status, unless it cannot be sent. -/
theorem Acts.status_eq_500_iff {a : Http.Action} {response : Response} (h : e.Acts a)
    (hreply : (e.outcome a).reply = .ok response) (hne : response.status ≠ 500) :
    e.response.status = 500 ↔ response.fault? ≠ none := by
  cases hfault : response.fault? with
  | none => simpa [h.status_eq_of_reply hreply hfault] using hne
  | some fault =>
      refine iff_of_true ?_ (Option.some_ne_none fault)
      rw [h.status, replyOf, hreply]
      simp only [hfault]
      rfl

/-- When a request to create a rule fails. -/
theorem failed_iff (hacts : e.Acts .createRule) (hready : e.before.database.IsReady)
    (hfresh : e.before.database.HasFreshIds) :
    e.response.status = 500 ↔ FailsToCreate e.before.settings e.request.readBody := by
  rcases hcheck : checkCreate e.before.settings e.request.readBody with fault | checked
  · have hreply := reply_create_undecodable (r := e.request.capitalised)
      (t := Target.ofText e.request.target) hready hcheck
    exact iff_of_true (hacts.status_of_crash hreply) (.undecodable hcheck)
  cases checked with
  | bad problems =>
      rw [failsToCreate_bad_iff hcheck]
      rcases reply_create_bad (r := e.request.capitalised) hready hcheck with
        hreply | ⟨hunreadable, hreply⟩
      · exact hacts.status_eq_500_iff hreply (by decide : 422 ≠ 500)
      · have hread : e.request.readBody = .unreadable := hunreadable
        rw [hread] at hcheck
        cases hcheck
        have h400 := hacts.status_eq_of_reply hreply
          (Response.fault?_detail (Text.isPlain_ofString _) 400)
        have hfault : (Response.unprocessable
            (bodyProblems [⟨.notJson, [], .object []⟩])).fault? = none :=
          fault?_bodyProblems (List.forall_mem_singleton.mpr (.object nofun))
        exact iff_of_false (by rw [h400]; decide) (not_not.mpr hfault)
  | good body =>
      obtain ⟨entries, hread, hgood⟩ := checkBody_eq_good hcheck
      have hread' : e.request.capitalised.readBody = .value (.dict entries) := hread
      by_cases hok : ∃ tree, compile body.rule = .ok tree
      · obtain ⟨tree, hcompile⟩ := hok
        rw [failsToCreate_rule_iff hcheck hcompile]
        by_cases hbad : mostShownLevels ≤ tree.height ∨ ¬ body.rule.IsPlain
        · obtain ⟨crash, hreply⟩ := reply_create_crash hready hread' hgood hcompile hbad
          exact iff_of_true (hacts.status_of_crash hreply) hbad
        · obtain ⟨hdeep, hplain⟩ := not_or.mp hbad
          obtain ⟨v, hreply, hv⟩ :=
            reply_create_shown hready hfresh hread' hgood hcompile (not_not.mp hplain) hdeep
          have h201 := hacts.status_eq_of_reply hreply (hv.fault?_json 201)
          exact iff_of_false (by rw [h201]; exact (by decide : 201 ≠ 500)) hbad
      · obtain ⟨f, hfault, -⟩ := exists_fault_of_compile fun tree htree => hok ⟨tree, htree⟩
        rw [failsToCreate_refused_iff hcheck hfault]
        exact hacts.status_eq_500_iff (reply_create_fault hready hread' hgood hfault)
          (by decide : 400 ≠ 500)

theorem status_created (hacts : e.Acts .createRule) (hready : e.before.database.IsReady)
    (hfresh : e.before.database.HasFreshIds) (hbody : e.request.readBody.IsSendable) :
    match e.submitted? with
    | some tree => e.response.status = if mostShownLevels ≤ tree.height then 500 else 201
    | none => e.response.status = 400 ∨ e.response.status = 422 := by
  obtain ⟨checked, hcheck, hblames⟩ := blames_checkBody hbody e.before.settings.maxRuleLength
  rw [submitted?, checkCreate, hcheck]
  cases checked with
  | bad problems =>
      rcases reply_create_bad (r := e.request.capitalised) hready hcheck with hreply | ⟨-, hreply⟩
      · exact .inr (hacts.status_eq_of_reply hreply (fault?_bodyProblems (hblames problems rfl)))
      · exact .inl (hacts.status_eq_of_reply hreply
          (Response.fault?_detail (Text.isPlain_ofString _) 400))
  | good body =>
      obtain ⟨entries, hread, hgood⟩ := checkBody_eq_good hcheck
      have hread' : e.request.capitalised.readBody = .value (.dict entries) := hread
      have hplain : body.rule.IsPlain := by
        rw [hread] at hbody
        cases Value.IsSendable.of_lookup hbody (CreateBody.isChecked_of_check hgood).rule with
        | text hplain => exact hplain
      dsimp only
      by_cases hok : ∃ tree, compile body.rule = .ok tree
      · obtain ⟨tree, hcompile⟩ := hok
        rw [hcompile]
        dsimp only [Except.toOption]
        split
        · rename_i hdeep
          obtain ⟨crash, hreply⟩ :=
            reply_create_crash hready hread' hgood hcompile (.inl hdeep)
          exact hacts.status_of_crash hreply
        · rename_i hdeep
          obtain ⟨v, hreply, hv⟩ :=
            reply_create_shown hready hfresh hread' hgood hcompile hplain hdeep
          exact hacts.status_eq_of_reply hreply (hv.fault?_json 201)
      · obtain ⟨f, hfault, hmessage⟩ :=
          exists_fault_of_compile fun tree htree => hok ⟨tree, htree⟩
        rw [hfault]
        refine .inl (hacts.status_eq_of_reply (reply_create_fault hready hread' hgood hfault) ?_)
        exact Response.fault?_detail ((Text.isPlain_ofString _).append (hmessage hplain)) 400

theorem status_listed {bindings : List Http.Binding} (hacts : e.Acts (.listRules bindings))
    (hsound : e.before.IsSound) (hbindings : bindings = [])
    (hb : e.before.database.book = some book) (hplain : ∀ rule ∈ book.rules, rule.text.IsPlain) :
    e.response.status = windowStatus book e.window := by
  subst hbindings
  have hreply := reply_listRules (s := e.before.settings) (r := e.request.capitalised)
    (t := Target.ofText e.request.target) hsound.ready hb []
  unfold window
  cases hasked : askedWindow (Target.ofText e.request.target) [] with
  | bad problems =>
      rw [hasked] at hreply
      have hinputs := blames_askedWindow _ problems hasked
      refine hacts.status_eq_of_reply hreply (Http.Response.fault?_unprocessable fun p hp => ?_)
      rcases List.mem_append.mp hp with hp | hp <;> exact hinputs p (List.mem_filter.mp hp).1
  | good window =>
      obtain ⟨skip, limit⟩ := window
      have hrules : ∀ rule ∈ book.window skip limit,
          rule.IsSound e.before.settings.maxRuleLength ∧ rule.text.IsPlain := by
        intro rule hrule
        have hmem := Book.mem_of_mem_window hrule
        exact ⟨(hsound.rules book hb).rules rule hmem, hplain rule hmem⟩
      rw [hasked] at hreply
      simp only [windowReply] at hreply
      rw [windowStatus]
      cases hfits : fitsStore skip && fitsStore limit with
      | false =>
          simp only [hfits] at hreply
          exact hacts.status_of_crash hreply
      | true =>
          simp only [hfits, if_true] at hreply
          rcases shownRules_cases hrules with ⟨hany, crash, hcrash⟩ | ⟨hany, vs, hvs, hsendable⟩
          · simp only [hcrash, Except.map] at hreply
            rw [hany]
            exact hacts.status_of_crash hreply
          · simp only [hvs, Except.map] at hreply
            rw [hany]
            exact hacts.status_eq_of_reply hreply ((Value.IsSendable.list hsendable).fault?_json 200)

theorem status_shown {id : String} (hacts : e.Acts (.getRule id)) (hsound : e.before.IsSound)
    (hb : e.before.database.book = some book) (hplain : ∀ rule ∈ book.rules, rule.text.IsPlain) :
    e.response.status = match book.find? id with
      | some rule => if rule.isDeep then 500 else 200
      | none => 404 := by
  have hreply := reply_getRule (s := e.before.settings) (r := e.request.capitalised)
    (t := Target.ofText e.request.target) hsound.ready hb id
  cases hfind : book.find? id with
  | none =>
      rw [hfind] at hreply
      exact hacts.status_of_noRule hreply
  | some rule =>
      have hmem := List.mem_of_find?_eq_some hfind
      rw [hfind] at hreply
      rcases shownRule_cases ((hsound.rules book hb).rules rule hmem) (hplain rule hmem) with
        ⟨hdeep, hshown⟩ | ⟨hdeep, v, hshown, hv⟩
      · simp only [hshown, Except.map] at hreply
        simp only [hdeep, if_true]
        exact hacts.status_of_crash hreply
      · simp only [hshown, Except.map] at hreply
        simp only [hdeep, Bool.false_eq_true, if_false]
        exact hacts.status_eq_of_reply hreply (hv.fault?_json 200)

theorem status_deleted {id : String} (hacts : e.Acts (.deleteRule id)) (hsound : e.before.IsSound)
    (hb : e.before.database.book = some book) :
    e.response.status = match book.find? id with
      | some _ => 204
      | none => 404 := by
  have hreply := reply_deleteRule (s := e.before.settings) (r := e.request.capitalised)
    (t := Target.ofText e.request.target) hsound.ready hb id
  cases hfind : book.find? id with
  | none =>
      rw [hfind] at hreply
      exact hacts.status_of_noRule hreply
  | some rule =>
      rw [hfind] at hreply
      exact hacts.status_eq_of_reply hreply rfl

theorem answersOnRules (he : e.IsAnswered) (hsound : e.before.IsSound)
    (hfresh : e.before.database.HasFreshIds) (hroot : e.before.settings.apiRoot = "/api/v1")
    (hb : e.before.database.book = some book)
    (hplain : ∀ rule ∈ book.rules, rule.text.IsPlain) : e.AnswersOnRules book where
  created ha hbody := status_created (acts he hsound ha) hsound.ready hfresh hbody
  failed ha := failed_iff (acts he hsound ha) hsound.ready hfresh
  creation ha := by
    rw [(acts he hsound ha).status]
    apply status_carried _ (fun status => status = 500 ∨ status ∈ creationStatuses) (.inl rfl)
    intro response hreply
    rw [Exchange.outcome] at hreply
    exact .inr (status_create hsound.ready hreply)
  listed bindings ha := by
    have hbindings := Http.bindings_of_listRules hsound.routes hroot ha
    exact status_listed (acts he hsound ha) hsound hbindings hb hplain
  shown id ha := status_shown (acts he hsound ha) hsound hb hplain
  deleted id ha := status_deleted (acts he hsound ha) hsound hb

/-- All stored texts stay plain: no other text can be written to the store. -/
theorem hasPlainRules_after (he : e.IsAnswered) (hsound : e.before.IsSound)
    (hplain : e.before.database.HasPlainRules) : e.after.database.HasPlainRules := by
  by_cases hdest : ∃ a, e.destination = .action a
  · obtain ⟨a, ha⟩ := hdest
    rw [(acts he hsound ha).database]
    have heffect : Effect e.before.settings e.before.database e.request.capitalised a
        (e.outcome a) := effect_act ..
    exact heffect.hasPlainRules hplain
  · obtain ⟨-, hdatabase⟩ := handle_quiet fun a ha => hdest ⟨a, ha⟩
    simp only [he.handle_eq] at hdatabase
    rwa [hdatabase]

end

end Exchange

namespace Server
open Service

end Server

end Rulebook
