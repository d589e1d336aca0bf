import Rulebook.Proofs.Http.Routing
import Rulebook.Proofs.Rule.RoundTrip
import Rulebook.Proofs.Rule.Storage
import Rulebook.Proofs.Service.Replies
import Rulebook.Proofs.Value.Equality

/-!
Evaluating rules by request. What a request to create a rule stores is the tree that its text
compiles to, so that a stored rule is decided like its text.
-/

namespace Rulebook

open Http (Request Response Target)

namespace Server
open Service

/-- A request is a POST that is sent and leads to an action. -/
structure Posts (server : Server) (r : Request) (a : Http.Action) : Prop where
  sent : r.fault? = none
  post : r.capitalised.method = "POST"
  leads : server.destination r = .action a

/-- A request to create a rule from a text was answered so, with an id. -/
def HasCreated (server : Server) (text : Text) (id : String) (after : Server) : Prop :=
  ∃ r response, server.Posts r .createRule ∧ r.readBody.member? "rule" = some (.text text) ∧
    server.receive r = .ok (response, after) ∧ response.status = 201 ∧
    response.member? "id" = some (.ofString id)

/-- A request is to decide the rule with an id on data. -/
structure AsksForStored (server : Server) (r : Request) (id : String)
    (data : List (Value × Value)) : Prop where
  posts : server.Posts r (.evaluateRule id)
  data : r.readBody.member? "data" = some (.dict data)

/-- A request is to decide a rule text on data. -/
structure AsksForText (server : Server) (r : Request) (text : Text)
    (data : List (Value × Value)) : Prop where
  posts : server.Posts r .evaluateAdHoc
  data : r.readBody.member? "data" = some (.dict data)
  rule : r.readBody.member? "rule" = some (.text text)

section
variable {server after : Server} {r : Request} {a : Http.Action} {text : Text} {id : String}
  {data : List (Value × Value)}

theorem Posts.receive (h : server.Posts r a) :
    server.receive r = .ok (server.handle r.capitalised) := by
  simp only [Server.receive, h.sent]

theorem Posts.handle (h : server.Posts r a) :
    let o := act server.settings server.database r.capitalised (Target.ofText r.target) a
    ((server.handle r.capitalised).1.status, (server.handle r.capitalised).1.body) =
        carried server.settings (replyOf o) ∧
      (server.handle r.capitalised).2.database = o.database := by
  obtain ⟨hstatus, hbody, hdatabase⟩ := handle_action (by simp [h.post]) h.leads
  exact ⟨Prod.ext hstatus (hbody (by simp [h.post])), hdatabase⟩

theorem Posts.congr {other : Server} (h : server.Posts r a) (htable : other.table = server.table) :
    other.Posts r a := by
  refine ⟨h.sent, h.post, ?_⟩
  rw [destination, htable]
  exact h.leads

/-- A POST to the path of a rule is to decide it, whatever the number of the rule. -/
theorem posts_evaluateRule {s : Settings} {d : Database} {ids : Log.IdSource}
    (hcreate : create s d ids = .ok server) (hroot : s.apiRoot = "/api/v1") {n : Nat}
    (hsent : r.fault? = none) (hpost : r.capitalised.method = "POST")
    (htarget : r.target = "/api/v1/rules/" ++ StoredRule.idOfNumber n ++ "/evaluate") :
    server.Posts r (.evaluateRule (StoredRule.idOfNumber n)) := by
  obtain ⟨table, hroutes, rfl⟩ := exists_table_of_create hcreate
  refine ⟨hsent, hpost, ?_⟩
  rw [destination, hpost, htarget]
  refine Http.destination_evaluateRule hroutes hroot (StoredRule.idOfNumber_ne_empty n)
    fun c hc => ?_
  have hdigit : ∀ d < 16, Target.IsDirect (Nat.digitChar d) ∧ Nat.digitChar d ≠ '/' := by decide
  rcases StoredRule.mem_idOfNumber hc with rfl | ⟨d, hd, rfl⟩
  · decide
  · exact hdigit d hd

theorem HasCreated.exists_next (h : server.HasCreated text id after) :
    ∃ r, after = server.next r := by
  obtain ⟨r, response, hposts, htext, hreceive, -⟩ := h
  exact ⟨r, by simp only [next, hreceive]⟩

/-- A rule that was created from a text is in the book with the tree that the text compiles to, and
its id finds it. -/
theorem HasCreated.exists_rule (h : server.HasCreated text id after) :
    ∃ tree book rule, compile text = .ok tree ∧ after.database.book = some book ∧
      book.find? id = some rule ∧ rule.tree = tree.stored ∧
      checkRuleText (.good server.settings.maxRuleLength) (.text text) = .good text := by
  obtain ⟨r, response, hposts, htext, hreceive, h201, hid⟩ := h
  obtain ⟨hcarried, hdatabase⟩ := hposts.handle
  rw [Except.ok.inj (hposts.receive.symm.trans hreceive)] at hcarried hdatabase
  cases hreply : replyOf (act server.settings server.database r.capitalised
      (Target.ofText r.target) .createRule) with
  | error crash =>
      rw [hreply] at hcarried
      cases h201.symm.trans (congrArg Prod.fst hcarried)
  | ok replied =>
      rw [hreply] at hcarried
      obtain ⟨hstatus, hbody⟩ := Prod.mk.inj hcarried
      obtain ⟨-, entries, body, rule, hread, hcheck, hcreates⟩ :=
        (effect_act ..).exists_creates (reply_of_replyOf hreply) (hstatus.symm.trans h201)
      obtain ⟨entries', hread', htext⟩ := Http.BodyRead.member?_eq_some htext
      obtain rfl := Value.dict.inj (Http.BodyRead.value.inj (hread.symm.trans hread'))
      have hchecked := CreateBody.isChecked_of_check hcheck
      obtain rfl : body.rule = text :=
        Value.text.inj (Option.some.inj (hchecked.rule.symm.trans htext))
      obtain ⟨tree, hcompile, htree⟩ := hcreates.tree
      obtain ⟨d', book, hk, hbook, hnew, hadded⟩ := hcreates.stored
      obtain ⟨v, hshown, hok⟩ := hcreates.shown (reply_of_replyOf hreply)
      have hid' : rule.id = id := by
        rw [Response.member?, hbody, hok] at hid
        exact Text.ofString_injective
          (Value.text.inj (Option.some.inj ((shownRule_id hshown).symm.trans hid)))
      have hbook' := congrArg Database.book (hdatabase.trans hadded)
      exact ⟨tree, book.add rule, rule, hcreates.text ▸ hcompile, hbook',
        hid' ▸ Book.find?_add_self hnew, htree, hchecked.ruleChecked⟩

/-- The tree that a text compiles to is what is read back from its stored form. -/
theorem ofStored_of_compile {tree : Tree} (h : compile text = .ok tree) :
    Tree.ofStored tree.stored = tree :=
  (Tree.isReadable_of_isWellFormed (isExpressible_of_compile h).1).ofStored_stored

theorem AsksForStored.report {book : Book} {rule : StoredRule}
    (h : server.AsksForStored r id data) (hd : server.database.IsReady)
    (hbook : server.database.book = some book) (hfind : book.find? id = some rule) :
    ∃ response after, server.receive r = .ok (response, after) ∧
      response.report = ((Tree.ofStored rule.tree).decideOn (.dict data)).reported := by
  obtain ⟨entries, hread, hdata⟩ := Http.BodyRead.member?_eq_some h.data
  have hreply := reply_evaluateRule (s := server.settings) (t := Target.ofText r.target) hd hbook
    (r := r.capitalised) hread (EvaluateBody.check_of_data hdata) id
  rw [hfind] at hreply
  exact ⟨_, _, h.posts.receive, report_of_verdictReply (some id) hreply h.posts.handle.1⟩

theorem AsksForText.report {tree : Tree} (h : server.AsksForText r text data)
    (hcompile : compile text = .ok tree)
    (hchecked : checkRuleText (.good server.settings.maxRuleLength) (.text text) = .good text) :
    ∃ response after, server.receive r = .ok (response, after) ∧
      response.report = (tree.decideOn (.dict data)).reported := by
  obtain ⟨entries, hread, hdata⟩ := Http.BodyRead.member?_eq_some h.data
  obtain ⟨entries', hread', hrule⟩ := Http.BodyRead.member?_eq_some h.rule
  obtain rfl := Value.dict.inj (Http.BodyRead.value.inj (hread.symm.trans hread'))
  have hreply := reply_evaluateAdHoc (d := server.database) (t := Target.ofText r.target)
    (r := r.capitalised) hread (AdHocBody.check_of_data hdata hrule hchecked) hcompile
  exact ⟨_, _, h.posts.receive, report_of_verdictReply none hreply h.posts.handle.1⟩

/-- A stored rule is decided like the text that it was created from: whatever requests came before
it was created and after that, unless one was sent to delete it, the two are answered with one
status and one result. -/
theorem report_stored_eq_report_text {s : Settings} {url : String} {manual : Option String}
    {source : RowSource} {ids : Log.IdSource} {fresh created : Server}
    (hfresh : create s (.ofUrl url manual source) ids = .ok fresh)
    (hstart : fresh.start.1 = true) {before later : List Request} {text : Text} {id : String}
    (hcreated : (fresh.start.2.serve before).HasCreated text id created)
    (hkept : ∀ r ∈ later, r.fault? = none → fresh.destination r ≠ .action (.deleteRule id))
    {data : List (Value × Value)} {forStored forText : Request}
    (hstored : fresh.AsksForStored forStored id data)
    (htext : fresh.AsksForText forText text data) :
    ∃ tree response response' after after', compile text = .ok tree ∧
      (created.serve later).receive forStored = .ok (response, after) ∧
      (created.serve later).receive forText = .ok (response', after') ∧
      response.report = (tree.decideOn (.dict data)).reported ∧
      response'.report = (tree.decideOn (.dict data)).reported := by
  have hready := isReady_serve (isReady_start (book_of_create hfresh) hstart) before
  obtain ⟨tree, book, rule, hcompile, hbook, hfind, htree, hchecked⟩ := hcreated.exists_rule
  obtain ⟨r, rfl⟩ := hcreated.exists_next
  -- every state of the run has the settings and the routes of the first one
  have hrun : ((fresh.start.2.serve before).next r).serve later =
      fresh.start.2.serve (before ++ r :: later) := by simp [serve]
  obtain ⟨htable, hsettings⟩ := table_serve fresh.start.2 (before ++ r :: later)
  rw [← hrun] at htable hsettings
  rw [(table_serve fresh.start.2 before).2, ← hsettings] at hchecked
  have hkept' : ∀ r' ∈ later, r'.fault? = none →
      ((fresh.start.2.serve before).next r).destination r' ≠ .action (.deleteRule id) := by
    intro r' hr' hsent
    rw [destination, (table_next _ r).1, (table_serve _ before).1]
    exact hkept r' hr' hsent
  obtain ⟨book', hbook', hfind'⟩ := find?_serve hbook hfind hkept'
  have hready' := isReady_serve ((changes_next _ r).isReady hready) later
  have hstored' : (((fresh.start.2.serve before).next r).serve later).AsksForStored forStored id
      data := ⟨hstored.posts.congr htable, hstored.data⟩
  have htext' : (((fresh.start.2.serve before).next r).serve later).AsksForText forText text
      data := ⟨htext.posts.congr htable, htext.data, htext.rule⟩
  obtain ⟨response, after, hreceive, hreport⟩ := hstored'.report hready' hbook' hfind'
  obtain ⟨response', after', hreceive', hreport'⟩ := htext'.report hcompile hchecked
  rw [htree, ofStored_of_compile hcompile] at hreport
  exact ⟨tree, response, response', after, after', hcompile, hreceive, hreceive', hreport,
    hreport'⟩

end

/-- A rule is decided after another one was stored and deleted again. -/
theorem report_stored_first :
    ∃ created response response' after after',
      inMemory.start.2.HasCreated "x > 1" "00000000-0000-0000-0000-000000000001" created ∧
      (created.serve [toRules "POST" "" "\x7b\"rule\": \"y = 2\"\x7d",
        toRules "DELETE" "00000000-0000-0000-0000-000000000002" ""]).receive
          (toRules "POST" "00000000-0000-0000-0000-000000000001/evaluate"
            "\x7b\"data\": \x7b\"x\": 3\x7d\x7d") = .ok (response, after) ∧
      (created.serve [toRules "POST" "" "\x7b\"rule\": \"y = 2\"\x7d",
        toRules "DELETE" "00000000-0000-0000-0000-000000000002" ""]).receive
          (toRules "POST" "evaluate" "\x7b\"rule\": \"x > 1\", \"data\": \x7b\"x\": 3\x7d\x7d") =
            .ok (response', after') ∧
      response.report = (200, some (.bool true)) ∧ response'.report = (200, some (.bool true)) := by
  have hstart : inMemory.start.1 = true := by decide +kernel
  have hposts : (inMemory.start.2.serve []).Posts
      (toRules "POST" "" "\x7b\"rule\": \"x > 1\"\x7d") .createRule :=
    ⟨by decide +kernel, by decide +kernel, by decide +kernel⟩
  have hcreated : (inMemory.start.2.serve []).HasCreated "x > 1"
      "00000000-0000-0000-0000-000000000001" _ :=
    ⟨_, _, hposts, by decide +kernel, hposts.receive, by decide +kernel⟩
  have hkept : ∀ r ∈ [toRules "POST" "" "\x7b\"rule\": \"y = 2\"\x7d",
      toRules "DELETE" "00000000-0000-0000-0000-000000000002" ""], r.fault? = none →
      inMemory.destination r ≠ .action (.deleteRule "00000000-0000-0000-0000-000000000001") := by
    decide +kernel
  have hid : StoredRule.idOfNumber 1 = "00000000-0000-0000-0000-000000000001" := by decide +kernel
  have hstored : inMemory.AsksForStored (toRules "POST"
      "00000000-0000-0000-0000-000000000001/evaluate" "\x7b\"data\": \x7b\"x\": 3\x7d\x7d")
        "00000000-0000-0000-0000-000000000001" [(.text "x", .int 3)] := by
    refine ⟨hid ▸ posts_evaluateRule create_inMemory rfl (by decide +kernel) (by decide +kernel) ?_,
      by decide +kernel⟩
    rw [hid]
    decide +kernel
  have htext : inMemory.AsksForText (toRules "POST" "evaluate"
      "\x7b\"rule\": \"x > 1\", \"data\": \x7b\"x\": 3\x7d\x7d") "x > 1" [(.text "x", .int 3)] :=
    ⟨⟨by decide +kernel, by decide +kernel, by decide +kernel⟩, by decide +kernel,
      by decide +kernel⟩
  obtain ⟨tree, response, response', after, after', hcompile, hreceive, hreceive', hreport,
    hreport'⟩ := report_stored_eq_report_text create_inMemory hstart hcreated hkept hstored htext
  have htree : compile "x > 1" = .ok (.leaf ⟨"x", ">", "1"⟩) := by decide +kernel
  obtain rfl := Except.ok.inj (hcompile.symm.trans htree)
  have hdecide : ((Tree.leaf ⟨"x", ">", "1"⟩).decideOn (.dict [(.text "x", .int 3)])).reported =
      (200, some (.bool true)) := by decide +kernel
  exact ⟨_, response, response', after, after', hcreated, hreceive, hreceive',
    hreport.trans hdecide, hreport'.trans hdecide⟩

end Server

end Rulebook
