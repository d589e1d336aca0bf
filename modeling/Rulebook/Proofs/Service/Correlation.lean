import Rulebook.Proofs.Log.Entry
import Rulebook.Proofs.Service.Exchange

/-!
Correlation ids. What is logged while a request is handled carries the id of that request, and so
does the response. A crash is reported after the id was forgotten: its line gets an id that is made
for it, and the response gets none.
-/

namespace Rulebook

open Http (Request Response Target)

namespace Database
variable {d d' : Database} {notes : List Note}

theorem isAnonymous_of_connect (h : d.connect = .ok (d', notes)) :
    ∀ note ∈ notes, note.IsAnonymous := by
  unfold connect at h
  split at h
  · cases h
    exact nofun
  · split at h
    · cases h
    · cases h
      exact List.forall_mem_singleton.mpr rfl

theorem isAnonymous_of_prepare (h : d.prepare = .ok (d', notes)) :
    ∀ note ∈ notes, note.IsAnonymous := by
  unfold prepare at h
  split at h
  · cases h
    exact nofun
  · split at h
    · cases h
    · rename_i hconnect
      cases h
      exact List.forall_mem_append.mpr
        ⟨isAnonymous_of_connect hconnect, List.forall_mem_singleton.mpr rfl⟩

theorem isAnonymous_probe (d : Database) : ∀ note ∈ d.probe.2.2, note.IsAnonymous := by
  unfold probe
  dsimp only
  split
  · exact List.forall_mem_singleton.mpr rfl
  · rename_i hconnect
    have hnotes := isAnonymous_of_connect hconnect
    split
    · exact hnotes
    · exact List.forall_mem_append.mpr ⟨hnotes, List.forall_mem_singleton.mpr rfl⟩

theorem isAnonymous_directoryNotes (url : String) :
    ∀ note ∈ directoryNotes url, note.IsAnonymous := by
  unfold directoryNotes
  split
  · exact List.forall_mem_singleton.mpr rfl
  · exact nofun

theorem isAnonymous_setUp (d : Database) : ∀ note ∈ d.setUp.2.2, note.IsAnonymous := by
  have hprobe := isAnonymous_probe d
  unfold setUp
  generalize d.probe = probed at hprobe ⊢
  obtain ⟨answers, d', notes⟩ := probed
  have hnotes : ∀ note ∈ directoryNotes d'.url ++ notes, note.IsAnonymous :=
    List.forall_mem_append.mpr ⟨isAnonymous_directoryNotes _, hprobe⟩
  dsimp only
  split <;> exact List.forall_mem_append.mpr ⟨hnotes, List.forall_mem_singleton.mpr rfl⟩

theorem isAnonymous_disconnect (d : Database) : ∀ note ∈ d.disconnect.2, note.IsAnonymous := by
  unfold disconnect
  split
  · exact List.forall_mem_singleton.mpr rfl
  · exact nofun

end Database

namespace Service
variable {s : Settings} {d : Database} {o : Outcome}

/-- A response that reports no crash and leaves the correlation id to be added. -/
structure IsOrderly (response : Response) : Prop where
  status : response.status ≠ 500
  headers : ∀ h ∈ response.headers, h.1 ≠ Server.correlationHeader

/-- What every outcome is like: its notes bring no correlation id, and a response is orderly. -/
structure Outcome.IsOrderly (o : Outcome) : Prop where
  notes : ∀ note ∈ o.notes, note.IsAnonymous
  reply : ∀ response, o.reply = .ok response → Service.IsOrderly response

theorem isOrderly_json {status : Nat} (h : status ≠ 500) (v : Value) :
    IsOrderly (.json status v) := ⟨h, nofun⟩

theorem isOrderly_detail {status : Nat} (h : status ≠ 500) (text : Text) :
    IsOrderly (.detail status text) := ⟨h, nofun⟩

theorem isOrderly_unprocessable (problems : List Problem) : IsOrderly (.unprocessable problems) :=
  ⟨(by decide : 422 ≠ 500), nofun⟩

theorem IsOrderly.withHeader {name value : String} {response : Response}
    (h : IsOrderly response) (hname : name ≠ Server.correlationHeader) :
    IsOrderly (response.withHeader name value) :=
  ⟨h.status, List.forall_mem_append.mpr ⟨h.headers, List.forall_mem_singleton.mpr hname⟩⟩

namespace Outcome

theorem IsOrderly.respond {response : Response} (h : Service.IsOrderly response) :
    (Outcome.respond d response).IsOrderly where
  notes := nofun
  reply := by
    rintro _ ⟨⟩
    exact h

theorem IsOrderly.crash (crash : Crash) : (Outcome.crash d crash).IsOrderly where
  notes := nofun
  reply := nofun

theorem IsOrderly.after {notes : List Note} (h : o.IsOrderly)
    (hnotes : ∀ note ∈ notes, note.IsAnonymous) : (o.after notes).IsOrderly where
  notes := List.forall_mem_append.mpr ⟨hnotes, h.notes⟩
  reply := h.reply

end Outcome

theorem isOrderly_withReadable {body : Http.BodyRead} (h : o.IsOrderly) :
    (withReadable d body o).IsOrderly := by
  unfold withReadable
  split
  · exact .respond ⟨by decide, nofun⟩
  · exact .respond (isOrderly_detail (by decide) _)
  · exact h

theorem isOrderly_withSession {act : Database → Outcome} (h : ∀ d, (act d).IsOrderly) :
    (withSession d act).IsOrderly := by
  unfold withSession
  split
  · rename_i hprepare
    exact (h _).after (Database.isAnonymous_of_prepare hprepare)
  · exact .crash _

theorem isOrderly_withBody {α : Type} {check : List (Value × Value) → Checked α}
    {body : Http.BodyRead} {act : α → Outcome} (h : ∀ a, (act a).IsOrderly) :
    (withBody d check body act).IsOrderly := by
  unfold withBody
  split
  · exact h _
  · exact .respond (isOrderly_unprocessable _)
  · exact .crash _

theorem isOrderly_withRule {id : String} {act : StoredRule → Outcome}
    (h : ∀ rule, (act rule).IsOrderly) : (withRule d id act).IsOrderly := by
  unfold withRule
  split
  · exact h _
  · exact .respond (isOrderly_detail (by decide) _)
  · exact .crash _

theorem isOrderly_showRule {status : Nat} (h : status ≠ 500) (rule : StoredRule) :
    (showRule d status rule).IsOrderly := by
  unfold showRule
  split
  · exact .respond (isOrderly_json h _)
  · exact .crash _

theorem isOrderly_refuseRule (d : Database) (report : Text) : (refuseRule d report).IsOrderly :=
  .respond (isOrderly_detail (by decide) _)

theorem isOrderly_createRule (d : Database) (body : CreateBody) :
    (createRule d body).IsOrderly := by
  unfold createRule
  split
  · exact (isOrderly_refuseRule ..).after (List.forall_mem_singleton.mpr rfl)
  · exact .crash _
  · split
    · exact (isOrderly_showRule (by decide) _).after (List.forall_mem_singleton.mpr rfl)
    · exact .crash _

theorem isOrderly_listRules (d : Database) (t : Target) (bindings : List Http.Binding) :
    (listRules d t bindings).IsOrderly := by
  unfold listRules
  dsimp only
  split
  · exact .respond (isOrderly_unprocessable _)
  · split
    · exact .crash _
    · split
      · exact .respond (isOrderly_json (by decide) _)
      · exact .crash _

theorem isOrderly_evaluateAdHoc (d : Database) (body : AdHocBody) :
    (evaluateAdHoc d body).IsOrderly := by
  unfold evaluateAdHoc
  split
  · exact isOrderly_refuseRule ..
  · exact .crash _
  · split
    · exact .crash _
    · refine Outcome.IsOrderly.after ?_ (List.forall_mem_singleton.mpr rfl)
      exact .respond (isOrderly_json (by decide) _)

theorem isOrderly_evaluateRule (d : Database) (id : String) (body : EvaluateBody) :
    (evaluateRule d id body).IsOrderly := by
  refine isOrderly_withRule fun rule => ?_
  dsimp only
  have hdamage : ∀ note ∈ (if (Tree.ofStored rule.tree).isWellFormed then ([] : List Note)
      else [.warning "Stored rule tree is malformed" [("rule_id", .ofString id)]]),
      note.IsAnonymous := by
    split
    · exact nofun
    · exact List.forall_mem_singleton.mpr rfl
  split
  · exact Outcome.IsOrderly.after (.crash _) hdamage
  · refine Outcome.IsOrderly.after (.respond (isOrderly_json (by decide) _)) ?_
    exact List.forall_mem_append.mpr ⟨hdamage, List.forall_mem_singleton.mpr rfl⟩

theorem isOrderly_deleteRule (d : Database) (id : String) : (deleteRule d id).IsOrderly :=
  isOrderly_withRule fun _ =>
    Outcome.IsOrderly.after (.respond ⟨by decide, nofun⟩) (List.forall_mem_singleton.mpr rfl)

theorem isOrderly_reportReadiness (s : Settings) (d : Database) :
    (reportReadiness s d).IsOrderly := by
  have hprobe := Database.isAnonymous_probe d
  unfold reportReadiness
  generalize d.probe = probed at hprobe ⊢
  obtain ⟨answers, d', notes⟩ := probed
  refine Outcome.IsOrderly.after (.respond ?_) hprobe
  cases answers <;> exact isOrderly_json (by decide) _

theorem isOrderly_act (s : Settings) (d : Database) (r : Request) (t : Target) (a : Http.Action) :
    (act s d r t a).IsOrderly := by
  cases a with
  | showPage => exact .respond ⟨by decide, nofun⟩
  | reportHealth | describe => exact .respond (isOrderly_json (by decide) _)
  | reportReadiness => exact isOrderly_reportReadiness s d
  | createRule =>
      refine isOrderly_withReadable (isOrderly_withSession fun d => ?_)
      exact isOrderly_withBody fun body => isOrderly_createRule d body
  | listRules bindings => exact isOrderly_withSession fun d => isOrderly_listRules d t bindings
  | evaluateAdHoc =>
      refine isOrderly_withReadable (isOrderly_withBody fun body => ?_)
      exact isOrderly_evaluateAdHoc d body
  | getRule id =>
      refine isOrderly_withSession fun d => isOrderly_withRule fun rule => ?_
      exact isOrderly_showRule (by decide) rule
  | deleteRule id => exact isOrderly_withSession fun d => isOrderly_deleteRule d id
  | evaluateRule id =>
      refine isOrderly_withReadable (isOrderly_withSession fun d => ?_)
      exact isOrderly_withBody fun body => isOrderly_evaluateRule d id body

end Service

namespace Server
open Service

theorem isOrderly_answer (server : Server) (r : Request) (t : Target) :
    (server.answer r t).IsOrderly := by
  unfold answer
  dsimp only
  split
  · exact isOrderly_act ..
  · exact .respond ((isOrderly_detail (by decide) _).withHeader (by decide))
  · have hmoved : IsOrderly (.empty 307) := ⟨by decide, nofun⟩
    exact .respond (hmoved.withHeader (by decide))
  · exact .respond (isOrderly_detail (by decide) _)

theorem isOrderly_mark {s : Settings} {origin : String} {response : Response}
    (h : IsOrderly response) : IsOrderly (Http.Cors.mark s origin response) := by
  unfold Http.Cors.mark
  split
  · exact h.withHeader (by decide)
  · exact h

theorem isOrderly_answerAcross (server : Server) (r : Request) (t : Target) :
    (server.answerAcross r t).IsOrderly := by
  have hanswer := isOrderly_answer server r t
  unfold answerAcross
  split
  · exact hanswer
  · split
    · split
      · rename_i response hpreflight
        unfold Http.Cors.preflight at hpreflight
        split at hpreflight
        · cases hpreflight
        · obtain rfl := Except.ok.inj hpreflight
          have hstatus (allowed : Bool) : (if allowed = true then 200 else 400) ≠ 500 := by
            cases allowed <;> decide
          exact .respond (isOrderly_mark ⟨hstatus _, nofun⟩)
      · exact .crash _
    · refine ⟨hanswer.notes, fun response hreply => ?_⟩
      cases hr : (server.answer r t).reply with
      | error crash => simp [hr, Except.map] at hreply
      | ok other =>
          simp only [hr, Except.map, Except.ok.injEq] at hreply
          exact hreply ▸ isOrderly_mark (hanswer.reply other hr)

theorem isAnonymous_crashNote (r : Request) (t : Target) (crash : Crash) :
    ∀ note ∈ [crashNote r t crash], note.IsAnonymous :=
  List.forall_mem_singleton.mpr rfl

/-- What a request is answered with, and what is logged meanwhile. The id of the request is bound
for all of it but the report of a crash. -/
theorem handle_cases (server : Server) (r : Request) :
    (∃ notes response, (∀ note ∈ notes, note.IsAnonymous) ∧ IsOrderly response ∧
      (server.handle r).1 =
        withoutBody r (response.withHeader correlationHeader (server.correlationId r)) ∧
      (server.handle r).2.log = server.log ++ (Note.entries server.settings.logLevel
        (Log.contextOf (server.correlationId r)) server.ids.advance notes).1 ∧
      (server.handle r).2.ids = server.ids.advance) ∨
    ∃ notes crash, (∀ note ∈ notes, Note.IsAnonymous note) ∧
      (server.handle r).1 = withoutBody r (crashResponse server.settings crash) ∧
      let report := Note.entries server.settings.logLevel [] server.ids.advance
        [crashNote r (Target.ofText r.target) crash]
      (server.handle r).2.log = server.log ++ ((Note.entries server.settings.logLevel
        (Log.contextOf (server.correlationId r)) server.ids.advance notes).1 ++ report.1) ∧
      (server.handle r).2.ids = report.2 := by
  have ho := isOrderly_answerAcross server r (Target.ofText r.target)
  have hstarted : (Note.info "Request started" [("method", .ofString r.method),
      ("path", .ofString (Target.ofText r.target).plainPath)]).IsAnonymous := rfl
  have hnotes := List.forall_mem_cons.mpr ⟨hstarted, ho.notes⟩
  have hsame {least : LogLevel} {notes : List Note} (h : ∀ note ∈ notes, note.IsAnonymous) :
      (Note.entries least (Log.contextOf (server.correlationId r)) server.ids.advance notes).2 =
        server.ids.advance := (Log.entries_contextOf h _).2
  unfold handle
  dsimp only
  split
  · rename_i response hreply
    have hcompleted : (Note.info "Request completed" [("method", .ofString r.method),
        ("path", .ofString (Target.ofText r.target).plainPath),
        ("status_code", .int response.status)]).IsAnonymous := rfl
    have hall := List.forall_mem_append.mpr ⟨hnotes, List.forall_mem_singleton.mpr hcompleted⟩
    exact .inl ⟨_, response, hall, ho.reply response (reply_of_replyOf hreply), rfl, rfl,
      hsame hall⟩
  · rename_i crash hreply
    refine .inr ⟨_, crash, hnotes, rfl, ?_⟩
    simp only [logging]
    rw [← Log.contextOf, hsame hnotes]
    exact ⟨List.append_assoc .., rfl⟩

end Server

/-- The correlation ids that a response carries. -/
def Http.Response.correlationIds (response : Response) : List String :=
  (response.headers.filter fun h => h.1 = Server.correlationHeader).map (·.2)

namespace Exchange
open Server Service

/-- The correlation id that a request brings, if it brings one. -/
def sentId? (e : Exchange) : Option String := e.request.header? correlationHeader

/-- The correlation id of the request. -/
def id (e : Exchange) : String := e.before.correlationId e.request

/-- The lines that were logged while the request was handled. -/
def lines (e : Exchange) : List Fields := e.after.log.drop e.before.log.length

/-- The report of a crash, if crashes matter enough to be logged. -/
def crashLines (e : Exchange) (crash : Crash) : List Fields :=
  (Note.entries e.before.settings.logLevel [] e.before.ids.advance
    [crashNote e.request.capitalised (Target.ofText e.request.target) crash]).1

/-- How an exchange carries the id of its request. Only a crash is reported without it: in the log
with an id that is made for the report, and in the response with none. -/
structure IsCorrelated (e : Exchange) : Prop where
  appended : e.after.log = e.before.log ++ e.lines
  lines : ∃ bound report, e.lines = bound ++ report ∧ (∀ line ∈ bound, Log.IsBound e.id line) ∧
    Log.AreMade e.before.ids.advance e.after.ids report ∧
    (e.response.status ≠ 500 → report = []) ∧
    (e.response.status = 500 → ∃ crash, report = e.crashLines crash)
  response : e.response.correlationIds = if e.response.status = 500 then [] else [e.id]
  ids : e.before.ids.advance.Grows e.after.ids

theorem correlationIds_withoutBody (r : Request) (response : Response) :
    (withoutBody r response).correlationIds = response.correlationIds ∧
      (withoutBody r response).status = response.status := by
  unfold withoutBody
  split <;> exact ⟨rfl, rfl⟩

theorem correlationIds_withHeader {response : Response} (h : IsOrderly response) (id : String) :
    (response.withHeader correlationHeader id).correlationIds = [id] := by
  have hnone : response.headers.filter (fun h => h.1 = correlationHeader) = [] :=
    List.filter_eq_nil_iff.mpr (by simpa using h.headers)
  simp [Response.correlationIds, Response.withHeader, hnone]

/-- The id of a request is the one that it brings, or else the next one that is made. -/
theorem id_cases (e : Exchange) : e.sentId? = some e.id ∨ e.id = e.before.ids.next := by
  unfold sentId? id correlationId
  cases e.request.header? correlationHeader with
  | none => exact .inr rfl
  | some id => exact .inl rfl

theorem IsAnswered.isCorrelated {e : Exchange} (he : e.IsAnswered) : e.IsCorrelated := by
  have hhandle := handle_cases e.before e.request.capitalised
  rw [he.handle_eq] at hhandle
  rcases hhandle with ⟨notes, response, hnotes, horderly, hresponse, hlog, hafter⟩ |
    ⟨notes, crash, hnotes, hresponse, hlog, hafter⟩
  all_goals
    dsimp only at hresponse hlog hafter
    have hlines : e.lines = _ := (congrArg _ hlog).trans (List.drop_left ..)
    obtain ⟨hids, hstatus⟩ := correlationIds_withoutBody e.request.capitalised _
    rw [← hresponse] at hids hstatus
    refine ⟨by rw [hlines, hlog], ?_, ?_, ?_⟩
  · refine ⟨e.lines, [], (List.append_nil _).symm, ?_, List.forall_mem_nil _, fun _ => rfl, ?_⟩
    · rw [hlines]
      exact (Log.entries_contextOf hnotes _).1
    · exact fun h500 => absurd (hstatus.symm.trans h500) horderly.status
  · rw [if_neg fun h500 => horderly.status (hstatus.symm.trans h500), hids]
    exact correlationIds_withHeader horderly _
  · rw [hafter]
    exact .refl _
  · refine ⟨_, _, hlines, (Log.entries_contextOf hnotes _).1, ?_, fun hne => absurd hstatus hne,
      fun _ => ⟨crash, rfl⟩⟩
    rw [hafter]
    exact (Log.entries_nil (isAnonymous_crashNote _ _ _) _).1
  · have h500 : e.response.status = 500 := hstatus
    rw [if_pos h500, hids]
    rfl
  · rw [hafter]
    exact (Log.entries_nil (isAnonymous_crashNote _ _ _) _).2

/-- The id that a line of an exchange carries was sent, or made meanwhile. -/
theorem IsCorrelated.sent_or_made {e : Exchange} (h : e.IsCorrelated) {line : Fields} {id : String}
    (hline : line ∈ e.lines) (hcarries : Log.Carries id line) : e.sentId? = some id ∨
      ∃ n, e.before.ids.used ≤ n ∧ n < e.after.ids.used ∧ id = e.before.ids.idAt n := by
  obtain ⟨bound, report, hlines, hbound, hmade, -⟩ := h.lines
  rw [hlines, List.mem_append] at hline
  rcases hline with hline | hline
  · obtain rfl := hcarries.eq (hbound line hline).carried
    exact e.id_cases.imp_right fun hid => ⟨_, Nat.le_refl _, h.ids.used, hid⟩
  · obtain ⟨n, hn, hlt, hwritten⟩ := hmade line hline
    exact .inr ⟨n, Nat.le_of_succ_le hn, hlt, hcarries.eq hwritten.carried⟩

/-- If the ids that are made are new ones, the id of a request is that of no other number. -/
theorem id_ne_idAt {e : Exchange} {ids : Log.IdSource} {sent : List String}
    (hfresh : ids.IsFresh sent) (hidAt : e.before.ids.idAt = ids.idAt)
    (hused : e.before.ids.used < ids.used) (hsent : ∀ id ∈ e.sentId?, id ∈ sent) {n : Nat}
    (hn : n < ids.used) (hne : e.before.ids.used ≠ n) : e.id ≠ ids.idAt n := by
  rcases e.id_cases with hid | hid
  · exact fun h => hfresh.sent n hn (h ▸ hsent _ hid)
  · rw [hid, Log.IdSource.next, hidAt]
    exact hfresh.idAt_ne hused hn hne

end Exchange

namespace Server

/-- The ids that requests bring. -/
def sentIds (es : List Exchange) : List String := es.filterMap Exchange.sentId?

/-- The id of a request stays with it: no line outside of all requests carries it, and none of
another request does unless that request brings the same. -/
structure IdsStay (es : List Exchange) (outside : List Fields) : Prop where
  outside : ∀ e ∈ es, ∀ line ∈ outside, ¬ Log.Carries e.id line
  others : ∀ xs e ys, es = xs ++ e :: ys → ∀ f ∈ xs ++ ys, ∀ line ∈ f.lines,
    Log.Carries e.id line → f.sentId? = some e.id

section
variable {server after fresh : Server} {es xs ys : List Exchange} {e : Exchange}

theorem Run.isAnswered (h : Run server es after) : ∀ e ∈ es, e.IsAnswered := by
  induction h with
  | nil server => exact List.forall_mem_nil _
  | cons he h ih => exact List.forall_mem_cons.mpr ⟨he, ih⟩

theorem Run.isCorrelated (h : Run server es after) : ∀ e ∈ es, e.IsCorrelated :=
  fun e he => (h.isAnswered e he).isCorrelated

theorem Run.log (h : Run server es after) :
    after.log = server.log ++ es.flatMap Exchange.lines := by
  induction h with
  | nil server => rw [List.flatMap_nil, List.append_nil]
  | cons he h ih => rw [ih, he.isCorrelated.appended, List.flatMap_cons, List.append_assoc]

theorem Run.ids (h : Run server es after) : server.ids.Grows after.ids := by
  induction h with
  | nil server => exact .refl _
  | @cons e es after he h ih =>
      exact e.before.ids.grows_advance.trans (he.isCorrelated.ids.trans ih)

/-- Each exchange of a run begins after ids that were made before the run, and ends before those
that are made after it. -/
theorem Run.ids_of_mem (h : Run server es after) : ∀ e ∈ es,
    server.ids.Grows e.before.ids ∧ e.before.ids.advance.Grows e.after.ids ∧
      e.after.ids.Grows after.ids := by
  intro e he
  obtain ⟨xs, ys, rfl⟩ := List.append_of_mem he
  obtain ⟨hbefore, hanswered, hafter⟩ := h.parts
  exact ⟨hbefore.ids, hanswered.isCorrelated.ids, hafter.ids⟩

/-- Different exchanges of a run make ids from different numbers. -/
theorem Run.ids_apart (h : Run server (xs ++ e :: ys) after) {f : Exchange} (hf : f ∈ xs ++ ys) :
    f.after.ids.used ≤ e.before.ids.used ∨ e.after.ids.used ≤ f.before.ids.used := by
  obtain ⟨hxs, -, hys⟩ := h.parts
  rcases List.mem_append.mp hf with hf | hf
  · obtain ⟨-, -, hrest⟩ := hxs.ids_of_mem f hf
    exact .inl hrest.used
  · obtain ⟨hbefore, -, -⟩ := hys.ids_of_mem f hf
    exact .inr hbefore.used

/-- The id of a request is not made from a number that lies before or after its exchange, if the
ids that are made are new ones. -/
theorem Run.id_ne_made (h : Run server es after) {last : Log.IdSource}
    (hlast : after.ids.Grows last) (hfresh : last.IsFresh (sentIds es)) (he : e ∈ es) {n : Nat}
    (hn : n < last.used) (hout : n < e.before.ids.used ∨ e.after.ids.used ≤ n) :
    e.id ≠ last.idAt n := by
  obtain ⟨-, hgrows, hrest⟩ := h.ids_of_mem e he
  have hlater := hrest.trans hlast
  have hused : e.before.ids.used < e.after.ids.used := hgrows.used
  have hsent : ∀ id ∈ e.sentId?, id ∈ sentIds es :=
    fun id hid => List.mem_filterMap.mpr ⟨e, he, hid⟩
  have hidAt : e.before.ids.idAt = last.idAt := (hlater.idAt.trans hgrows.idAt).symm
  exact Exchange.id_ne_idAt hfresh hidAt (Nat.lt_of_lt_of_le hused hlater.used) hsent hn (by omega)

/-- The ids of the requests of a run stay with them, if made ids are new ones. The numbers from
which an exchange makes ids lie apart from those of all other exchanges and from those outside. -/
theorem Run.idsStay (h : Run server es after) {starting ending : List Fields}
    {first last : Log.IdSource} (hfirst : first.Grows server.ids) (hlast : after.ids.Grows last)
    (hstarting : Log.AreMade first server.ids starting)
    (hending : Log.AreMade after.ids last ending) (hfresh : last.IsFresh (sentIds es)) :
    IdsStay es (starting ++ ending) := by
  refine ⟨fun e he line hline hcarries => ?_, fun xs e ys hes f hf line hline hcarries => ?_⟩
  · obtain ⟨hbefore, -, hrest⟩ := h.ids_of_mem e he
    rcases List.mem_append.mp hline with hline | hline
    · obtain ⟨n, -, hlt, hmade⟩ := hstarting line hline
      have hidAt : first.idAt = last.idAt := (hlast.idAt.trans (h.ids.idAt.trans hfirst.idAt)).symm
      have hn : n < last.used := by have := h.ids.used; have := hlast.used; omega
      refine h.id_ne_made hlast hfresh he hn (.inl (Nat.lt_of_lt_of_le hlt hbefore.used)) ?_
      exact (hcarries.eq hmade.carried).trans (congrFun hidAt n)
    · obtain ⟨n, hn, hlt, hmade⟩ := hending line hline
      refine h.id_ne_made hlast hfresh he hlt (.inr (Nat.le_trans hrest.used hn)) ?_
      exact (hcarries.eq hmade.carried).trans (congrFun hlast.idAt.symm n)
  · subst hes
    have hmem : f ∈ xs ++ e :: ys := by
      rw [List.mem_append] at hf ⊢
      exact hf.imp_right (List.mem_cons_of_mem e)
    obtain ⟨-, hgrows, hrest⟩ := h.ids_of_mem f hmem
    have hlater := hrest.trans hlast
    have hidAt : f.before.ids.idAt = last.idAt := (hlater.idAt.trans hgrows.idAt).symm
    rcases (h.isCorrelated f hmem).sent_or_made hline hcarries with hsent | ⟨n, hn, hlt, hid⟩
    · exact hsent
    · have hout : n < e.before.ids.used ∨ e.after.ids.used ≤ n := by
        have := h.ids_apart hf
        omega
      have hn : n < last.used := Nat.lt_of_lt_of_le hlt hlater.used
      exact absurd (hid.trans (congrFun hidAt n)) (h.id_ne_made hlast hfresh (by simp) hn hout)

/-- The ids of the lines that a service writes before its first request are made for them. -/
theorem exists_starting (server : Server) : ∃ starting,
    server.start.2.log = server.log ++ starting ∧
      Log.AreMade server.ids server.start.2.ids starting ∧
      server.ids.Grows server.start.2.ids := by
  have hnotes := server.database.isAnonymous_setUp
  unfold start
  generalize server.database.setUp = made at hnotes ⊢
  obtain ⟨ready, database, notes⟩ := made
  refine ⟨_, rfl, Log.entries_nil ?_ server.ids⟩
  refine List.forall_mem_cons.mpr ⟨rfl, List.forall_mem_append.mpr ⟨hnotes, ?_⟩⟩
  refine List.forall_mem_singleton.mpr ?_
  cases ready <;> rfl

/-- The ids of the lines that a service writes after its last request are made for them. -/
theorem exists_ending (server : Server) : ∃ ending,
    server.stop.log = server.log ++ ending ∧ Log.AreMade server.ids server.stop.ids ending ∧
      server.ids.Grows server.stop.ids := by
  have hnotes := server.database.isAnonymous_disconnect
  unfold stop
  generalize server.database.disconnect = closed at hnotes ⊢
  obtain ⟨database, notes⟩ := closed
  refine ⟨_, rfl, Log.entries_nil ?_ server.ids⟩
  exact List.forall_mem_cons.mpr ⟨rfl, List.forall_mem_append.mpr
    ⟨hnotes, List.forall_mem_singleton.mpr rfl⟩⟩

end

end Server

end Rulebook
