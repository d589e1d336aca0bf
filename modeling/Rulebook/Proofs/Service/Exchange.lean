import Rulebook.Proofs.Http.Routing
import Rulebook.Proofs.Service.Replies
import Rulebook.Proofs.Service.Showing
import Rulebook.Proofs.Value.Equality

/-!
Runs of a service. Every request that is answered leaves the rules as they were, or adds the rule it
submits, or removes the one it names, and the answer tells which. Only a rule that nests too deep to
be shown is added without telling.
-/

namespace Rulebook

open Http (Destination Request Response Target)

/-- A rule in order: its tree is that of its text, and name and text are within their bounds. -/
structure StoredRule.IsSound (bound : LengthBound) (rule : StoredRule) : Prop where
  tree : ∃ tree, compile rule.text = .ok tree ∧ rule.tree = tree.stored
  name : 1 ≤ rule.name.length ∧ rule.name.length ≤ 255
  notBlank : Text.isAllBlank rule.text = false
  length : rule.text.length ≤ bound.most

/-- A book of rules in order, no two of them with one id. -/
structure Book.IsSound (bound : LengthBound) (book : Book) : Prop where
  ids : (book.rules.map (·.id)).Nodup
  rules : ∀ rule ∈ book.rules, rule.IsSound bound

section
variable {bound : LengthBound} {book : Book} {rule : StoredRule}

theorem Book.isSound_empty (bound : LengthBound) : Book.empty.IsSound bound :=
  ⟨List.nodup_nil, nofun⟩

theorem Book.IsSound.add (h : book.IsSound bound) (hrule : rule.IsSound bound)
    (hnew : ∀ other ∈ book.rules, other.id ≠ rule.id) : (book.add rule).IsSound bound where
  ids := by
    rw [Book.add, List.map_append, List.nodup_append]
    refine ⟨h.ids, by simp, ?_⟩
    rintro id hid other hother rfl
    obtain ⟨old, hold, rfl⟩ := List.mem_map.mp hid
    exact hnew old hold (by simpa using hother)
  rules := List.forall_mem_append.mpr ⟨h.rules, List.forall_mem_singleton.mpr hrule⟩

theorem Book.IsSound.remove (h : book.IsSound bound) (id : String) :
    (book.remove id).IsSound bound where
  ids := h.ids.sublist (List.filter_sublist.map _)
  rules := fun rule hrule => h.rules rule ((List.mem_filter.mp hrule).1)

theorem Book.IsSound.exists_removed (h : book.IsSound bound) {id : String}
    (hfind : book.find? id = some rule) : ∃ before behind, rule.id = id ∧
      book.rules = before ++ rule :: behind ∧ (book.remove id).rules = before ++ behind := by
  obtain ⟨hid, before, behind, hrules, hbefore⟩ := List.find?_eq_some_iff_append.mp hfind
  have hid : rule.id = id := by simpa using hid
  have hids := h.ids
  rw [hrules, List.map_append, List.map_cons, List.nodup_append, List.nodup_cons] at hids
  have hbehind : ∀ other ∈ behind, (other.id != id) = true := by
    intro other hother
    have hne : rule.id ≠ other.id := fun he => hids.2.1.1 (he ▸ List.mem_map_of_mem hother)
    simpa [hid] using hne.symm
  have hbefore' : ∀ other ∈ before, (other.id != id) = true := by simpa using hbefore
  refine ⟨before, behind, hid, hrules, ?_⟩
  rw [Book.remove, hrules, List.filter_append, List.filter_cons_of_neg (by simp [hid]),
    List.filter_eq_self.mpr hbefore', List.filter_eq_self.mpr hbehind]

end

/-- A request can arrive at a service: its target has no fault, the names of its headers are ASCII,
and their values have one byte for every character. A client may refuse to send some of these. -/
structure Http.Request.CanArrive (r : Request) : Prop where
  target : Http.targetFault? r.target.toList = none
  headers : ∀ h ∈ r.headers,
    Text.unwritable? .ascii h.1 = none ∧ Text.unwritable? .singleByte h.2 = none

/-- What is sent arrives. -/
theorem Http.Request.canArrive_of_sent {r : Request} (h : r.fault? = none) : r.CanArrive := by
  obtain ⟨htarget, hheaders⟩ := Option.or_eq_none_iff.mp h
  refine ⟨htarget, fun header hheader => ?_⟩
  have hfault := List.findSome?_eq_none_iff.mp hheaders header hheader
  obtain ⟨hname, hvalue⟩ := Option.or_eq_none_iff.mp (Option.map_eq_none_iff.mp hfault)
  refine ⟨hname, (Text.unwritable?_eq_none_iff _).mpr fun p hp => ?_⟩
  have hascii := (Text.unwritable?_eq_none_iff _).mp hvalue p hp
  simp only [Text.ByteForm.writes, decide_eq_true_eq] at hascii ⊢
  omega

/-- A request that a service answered, with the service before and after it. -/
structure Exchange where
  before : Server
  request : Request
  response : Response
  after : Server

namespace Exchange

/-- The request arrived and was answered so. -/
structure IsAnswered (e : Exchange) : Prop where
  arrived : e.request.CanArrive
  handle_eq : e.before.handle e.request.capitalised = (e.response, e.after)

/-- Where the request led. -/
def destination (e : Exchange) : Destination := e.before.destination e.request

/-- The request was to create a rule with the name and the text of this one. -/
structure Submits (e : Exchange) (rule : StoredRule) : Prop where
  method : e.request.capitalised.method = "POST"
  destination : e.destination = .action .createRule
  text : e.request.readBody.member? "rule" = some (.text rule.text)
  name : e.request.readBody.member? "name" = none ∧ rule.name = defaultRuleName ∨
    e.request.readBody.member? "name" = some (.ofString rule.name)

/-- What an exchange does to the rules of a book. -/
inductive Takes (e : Exchange) (book : Book) : Book → Prop
  | kept : Service.isQuiet e.response.status = true → Takes e book book
  | created {rule tree} : e.Submits rule →
      rule.IsNumbered e.before.database.source e.before.database.nextNumber →
      (∀ other ∈ book.rules, other.id ≠ rule.id) →
      rule.IsSound e.before.settings.maxRuleLength → e.response.status = 201 →
      e.response.body = .json (Service.ruleValue rule tree) → Service.IsShown rule tree →
      Takes e book (book.add rule)
  | left {rule tree} : e.Submits rule →
      rule.IsNumbered e.before.database.source e.before.database.nextNumber →
      (∀ other ∈ book.rules, other.id ≠ rule.id) →
      rule.IsSound e.before.settings.maxRuleLength → e.response.status = 500 →
      compile rule.text = .ok tree → Service.mostShownLevels ≤ tree.height →
      Takes e book (book.add rule)
  | deleted {id rule} : e.destination = .action (.deleteRule id) → book.find? id = some rule →
      e.response.status = 204 → Takes e book (book.remove id)

end Exchange

namespace Service
open Server
variable {d : Database} {o : Outcome} {rule : StoredRule} {body : CreateBody} {bound : LengthBound}
  {entries : List (Value × Value)}

theorem Creates.isSound (h : Creates d body o rule) (hbody : body.IsChecked bound entries) :
    rule.IsSound bound where
  tree := h.tree
  name := h.name ▸ hbody.nameLength
  notBlank := h.text ▸ hbody.ruleNotBlank
  length := h.text ▸ hbody.ruleLength

theorem Creates.shownRule_eq (h : Creates d body o rule) {tree : Tree}
    (hcompile : compile rule.text = .ok tree) : shownRule rule =
      if mostShownLevels ≤ tree.height then .error .deepRule else .ok (ruleValue rule tree) := by
  obtain ⟨tree', hcompile', htree⟩ := h.tree
  obtain rfl := Except.ok.inj (hcompile.symm.trans hcompile')
  exact shownRule_of_compile hcompile htree

theorem Creates.status_of_deep (h : Creates d body o rule) (s : Settings) {tree : Tree}
    (hcompile : compile rule.text = .ok tree) (hdeep : mostShownLevels ≤ tree.height) :
    (carried s (replyOf o)).1 = 500 := by
  have hshown := h.shownRule_eq hcompile
  rw [if_pos hdeep] at hshown
  simp only [replyOf, h.reply, hshown, Except.map, carried]

theorem Creates.isShown (h : Creates d body o rule) (s : Settings) {tree : Tree}
    (hcompile : compile rule.text = .ok tree) (hdeep : ¬ mostShownLevels ≤ tree.height) :
    IsShown rule tree ∧ carried s (replyOf o) = (201, .json (ruleValue rule tree)) := by
  have hshown := h.shownRule_eq hcompile
  have hsent := fault?_ruleValue hcompile h.writable
  rw [if_neg hdeep] at hshown
  refine ⟨⟨hshown, hsent⟩, ?_⟩
  simp only [replyOf, h.reply, hshown, Except.map, hsent 201, carried]
  rfl

end Service

namespace Server
open Service

/-- What holds of a service whatever requests it received: its database is ready, and the rules in
its book are in order. -/
structure IsSound (server : Server) : Prop where
  routes : Http.routes server.settings = .ok server.table
  ready : server.database.IsReady
  rules : ∀ book ∈ server.database.book, book.IsSound server.settings.maxRuleLength

theorem IsSound.exists_book {server : Server} (h : server.IsSound) :
    ∃ book, server.database.book = some book ∧ book.IsSound server.settings.maxRuleLength := by
  obtain ⟨book, hb⟩ := h.ready.hasBook
  exact ⟨book, hb, h.rules book hb⟩

theorem isSound_start {s : Settings} {url : String} {manual : Option String} {source : RowSource}
    {ids : Log.IdSource} {fresh : Server}
    (hfresh : create s (.ofUrl url manual source) ids = .ok fresh) (hstart : fresh.start.1 = true) :
    fresh.start.2.IsSound where
  routes := by
    obtain ⟨table, hroutes, rfl⟩ := exists_table_of_create hfresh
    exact hroutes
  ready := isReady_start (book_of_create hfresh) hstart
  rules := by
    rw [book_start (book_of_create hfresh) hstart]
    intro book hb
    obtain rfl := Option.some.inj hb
    exact Book.isSound_empty _

end Server

namespace Exchange
open Service Server

section
variable {e : Exchange} {book : Book}

theorem IsAnswered.table_after (he : e.IsAnswered) :
    e.after.table = e.before.table ∧ e.after.settings = e.before.settings := by
  have h := table_handle e.before e.request.capitalised
  rwa [he.handle_eq] at h

theorem IsAnswered.changes (he : e.IsAnswered) :
    e.before.database.Changes e.destination e.after.database := by
  have h := changes_handle e.before e.request
  rwa [he.handle_eq] at h

theorem submits_of_creates {d : Database} {o : Outcome} {body : CreateBody} {rule : StoredRule}
    {bound : LengthBound} {entries : List (Value × Value)}
    (hmethod : e.request.capitalised.method = "POST") (hdest : e.destination = .action .createRule)
    (hread : e.request.readBody = .value (.dict entries)) (hbody : body.IsChecked bound entries)
    (h : Creates d body o rule) : e.Submits rule where
  method := hmethod
  destination := hdest
  text := by
    rw [hread, h.text]
    exact hbody.rule
  name := by
    rw [hread, h.name]
    exact hbody.name

/-- What comes of an action that a request leads to. -/
def outcome (e : Exchange) (a : Http.Action) : Outcome :=
  act e.before.settings e.before.database e.request.capitalised (Target.ofText e.request.target) a

/-- A request that leads to an action is answered with what comes of it. -/
structure Acts (e : Exchange) (a : Http.Action) : Prop where
  method : e.request.capitalised.method ∈ a.methods
  status : e.response.status = (carried e.before.settings (replyOf (e.outcome a))).1
  body : e.request.capitalised.method ≠ "HEAD" →
    e.response.body = (carried e.before.settings (replyOf (e.outcome a))).2
  database : e.after.database = (e.outcome a).database

theorem acts (he : e.IsAnswered) (hsound : e.before.IsSound) {a : Http.Action}
    (ha : e.destination = .action a) : e.Acts a := by
  have hhandle := he.handle_eq
  have hmethod := Http.method_of_destination hsound.routes ha
  have hoptions : e.request.capitalised.method ≠ "OPTIONS" := by
    intro ho
    rw [ho] at hmethod
    cases a <;> simp [Http.Action.methods] at hmethod
  obtain ⟨hstatus, hbody, hdatabase⟩ := handle_action hoptions ha
  simp only [hhandle] at hstatus hbody hdatabase
  exact ⟨hmethod, hstatus, hbody, hdatabase⟩

/-- What a request does to the rules, and what it answers. -/
theorem exists_takes (he : e.IsAnswered) (hsound : e.before.IsSound)
    (hb : e.before.database.book = some book) :
    ∃ book', e.after.database.book = some book' ∧ e.Takes book book' := by
  by_cases hdest : ∃ a, e.destination = .action a
  · obtain ⟨a, ha⟩ := hdest
    have hacts := acts he hsound ha
    have heffect : Effect e.before.settings e.before.database e.request.capitalised a
        (e.outcome a) := effect_act ..
    cases heffect with
    | kept hk hquiet =>
        refine ⟨book, by rw [hacts.database, hk.book, hb], .kept ?_⟩
        rw [hacts.status]
        exact isQuiet_carried _ hquiet
    | skipped crash ha' hk hd hreply =>
        refine ⟨book, ?_, .kept ?_⟩
        · rw [hacts.database, hd]
          exact hk.book.trans hb
        · rw [hacts.status]
          exact isQuiet_carried _ (by rw [hreply]; nofun)
    | deleted id rule ha' hk hb' hf hd hreply =>
        obtain rfl := Option.some.inj (hb.symm.trans (hk.book.symm.trans hb'))
        refine ⟨book.remove id, ?_, .deleted (ha' ▸ ha) hf ?_⟩
        · rw [hacts.database, hd]
          simp [Database.remove, hb']
        · rw [hacts.status, replyOf, hreply]
          rfl
    | created rule ha' hread hcheck hc =>
        subst ha'
        obtain ⟨d', book', hk, hb', hnew, hd⟩ := hc.stored
        obtain rfl := Option.some.inj (hb.symm.trans (hk.book.symm.trans hb'))
        have hpost : e.request.capitalised.method = "POST" := by
          simpa [Http.Action.methods] using hacts.method
        have hchecked := CreateBody.isChecked_of_check hcheck
        have hsubmits := submits_of_creates hpost ha hread hchecked hc
        refine ⟨book.add rule, by rw [hacts.database, hd], ?_⟩
        obtain ⟨tree, hcompile, -⟩ := hc.tree
        -- the rule is in the book before it is known whether it can be shown
        by_cases hdeep : mostShownLevels ≤ tree.height
        · have h500 := hc.status_of_deep e.before.settings hcompile hdeep
          exact .left hsubmits hc.numbered hnew (hc.isSound hchecked) (hacts.status.trans h500)
            hcompile hdeep
        · obtain ⟨hshown, hcarried⟩ := hc.isShown e.before.settings hcompile hdeep
          have hstatus := hacts.status
          have hbody := hacts.body (by simp [hpost])
          rw [hcarried] at hstatus hbody
          exact .created hsubmits hc.numbered hnew (hc.isSound hchecked) hstatus hbody hshown
  · have hhandle := he.handle_eq
    obtain ⟨hquiet, hdatabase⟩ := handle_quiet fun a ha => hdest ⟨a, ha⟩
    simp only [hhandle] at hquiet hdatabase
    exact ⟨book, by rw [hdatabase, hb], .kept hquiet⟩

theorem isSound_after (he : e.IsAnswered) (hsound : e.before.IsSound) : e.after.IsSound := by
  obtain ⟨htable, hsettings⟩ := he.table_after
  have hready : e.after.database.IsReady := he.changes.isReady hsound.ready
  refine ⟨?_, hready, ?_⟩
  · rw [htable, hsettings]
    exact hsound.routes
  · obtain ⟨book, hb, hbook⟩ := hsound.exists_book
    obtain ⟨book', hb', htakes⟩ := exists_takes he hsound hb
    rw [hb', hsettings]
    intro other hother
    obtain rfl := Option.some.inj hother
    cases htakes with
    | kept hquiet => exact hbook
    | created hsubmits hnumbered hnew hrule => exact hbook.add hrule hnew
    | left hsubmits hnumbered hnew hrule => exact hbook.add hrule hnew
    | deleted hdest hf hstatus => exact hbook.remove _

end

end Exchange

namespace Server
open Service

/-- A run of a service: requests that are answered, one after the other. -/
inductive Run : Server → List Exchange → Server → Prop
  | nil (server) : Run server [] server
  | cons {e es server} : e.IsAnswered → Run e.after es server → Run e.before (e :: es) server

section
variable {server after : Server} {es : List Exchange}

def exchange (server : Server) (r : Request) : Exchange :=
  ⟨server, r, (server.handle r.capitalised).1, (server.handle r.capitalised).2⟩

theorem isAnswered_exchange (server : Server) {r : Request} (h : r.fault? = none) :
    (server.exchange r).IsAnswered := ⟨Request.canArrive_of_sent h, rfl⟩

theorem receive_of_sent (server : Server) {r : Request} (h : r.fault? = none) :
    server.receive r = .ok ((server.exchange r).response, (server.exchange r).after) := by
  simp only [receive, h]
  rfl

theorem Run.isSound (h : Run server es after) (hsound : server.IsSound) :
    after.IsSound ∧ ∀ e ∈ es, e.IsAnswered ∧ e.before.IsSound := by
  induction h with
  | nil server => exact ⟨hsound, fun _ he => absurd he List.not_mem_nil⟩
  | cons he h ih =>
      have hafter := Exchange.isSound_after he hsound
      obtain ⟨hlast, hes⟩ := ih hafter
      exact ⟨hlast, List.forall_mem_cons.mpr ⟨⟨he, hsound⟩, hes⟩⟩

theorem Run.settings (h : Run server es after) : after.settings = server.settings := by
  induction h with
  | nil server => rfl
  | @cons e es server he h ih =>
      exact ih.trans he.table_after.2

theorem Run.parts {xs ys : List Exchange} {e : Exchange}
    (h : Run server (xs ++ e :: ys) after) :
    Run server xs e.before ∧ e.IsAnswered ∧ Run e.after ys after := by
  induction xs generalizing server with
  | nil =>
      cases h with
      | cons he hrest => exact ⟨.nil _, he, hrest⟩
  | cons x xs ih =>
      cases h with
      | cons hx hrest =>
          obtain ⟨hbefore, he, hafter⟩ := ih hrest
          exact ⟨.cons hx hbefore, he, hafter⟩

/-- Whatever requests a service received since it began, the rules in its book are in order, and the
answer to each request told what it did to them: a rule that was submitted was added, the rule that
was named was removed, or all was as before. Only a rule that nests too deep to be shown was added
by a request that failed. -/
theorem rules_of_run {s : Settings} {url : String} {manual : Option String} {source : RowSource}
    {ids : Log.IdSource} {fresh : Server}
    (hfresh : create s (.ofUrl url manual source) ids = .ok fresh) (hstart : fresh.start.1 = true)
    (hrun : Run fresh.start.2 es server) :
    (∃ book, server.database.book = some book ∧ book.IsSound s.maxRuleLength) ∧
    ∀ e ∈ es, ∃ book book', e.before.database.book = some book ∧
      e.after.database.book = some book' ∧
      (e.response.status = 201 → ∃ rule, e.Submits rule ∧
        e.response.member? "id" = some (.ofString rule.id) ∧
        book'.rules = book.rules ++ [rule]) ∧
      (e.response.status = 204 → ∃ before rule behind,
        e.destination = .action (.deleteRule rule.id) ∧
        book.rules = before ++ rule :: behind ∧ book'.rules = before ++ behind) ∧
      (e.response.status ≠ 201 → e.response.status ≠ 204 → book'.rules = book.rules ∨
        e.response.status = 500 ∧ ∃ rule tree, e.Submits rule ∧ compile rule.text = .ok tree ∧
          Service.mostShownLevels ≤ tree.height ∧ book'.rules = book.rules ++ [rule]) := by
  obtain ⟨hserver, hes⟩ := hrun.isSound (isSound_start hfresh hstart)
  have hsettings : server.settings = s := by
    obtain ⟨table, -, rfl⟩ := exists_table_of_create hfresh
    exact hrun.settings
  refine ⟨hsettings ▸ hserver.exists_book, fun e he => ?_⟩
  obtain ⟨hanswered, hsound⟩ := hes e he
  obtain ⟨book, hb, hbook⟩ := hsound.exists_book
  obtain ⟨book', hb', htakes⟩ := Exchange.exists_takes hanswered hsound hb
  refine ⟨book, book', hb, hb', ?_⟩
  cases htakes with
  | kept hquiet =>
      simp only [isQuiet, Bool.and_eq_true, bne_iff_ne] at hquiet
      exact ⟨fun h => absurd h hquiet.1, fun h => absurd h hquiet.2, fun _ _ => .inl rfl⟩
  | @created rule tree hsubmits hnumbered hnew hrule h201 hbody hshown =>
      refine ⟨fun _ => ⟨rule, hsubmits, ?_, rfl⟩, fun h204 => ?_, fun hne => absurd h201 hne⟩
      · rw [Response.member?, hbody]
        exact shownRule_id hshown.shown
      · cases h201.symm.trans h204
  | @left rule tree hsubmits hnumbered hnew hrule h500 hcompile hdeep =>
      refine ⟨fun h201 => ?_, fun h204 => ?_, fun _ _ => .inr ⟨h500, rule, tree, hsubmits, hcompile,
        hdeep, rfl⟩⟩
      · cases h500.symm.trans h201
      · cases h500.symm.trans h204
  | @deleted id rule hdest hf h204 =>
      obtain ⟨before, behind, rfl, hrules, hremoved⟩ := hbook.exists_removed hf
      refine ⟨fun h201 => ?_, fun _ => ⟨before, rule, behind, hdest, hrules, hremoved⟩,
        fun _ hne => absurd h204 hne⟩
      cases h204.symm.trans h201

end

theorem rules_of_first_run : ∃ book rule,
    let e := inMemory.start.2.exchange (toRules "POST" "" "\x7b\"rule\": \"x > 1\"\x7d")
    e.response.status = 201 ∧ e.after.database.book = some book ∧
      book.IsSound Settings.defaults.maxRuleLength ∧ book.rules = [rule] ∧ rule.text = "x > 1" := by
  have hstart : inMemory.start.1 = true := by decide +kernel
  let e := inMemory.start.2.exchange (toRules "POST" "" "\x7b\"rule\": \"x > 1\"\x7d")
  have he : e.IsAnswered := isAnswered_exchange _ (by decide +kernel)
  have h201 : e.response.status = 201 := by decide +kernel
  obtain ⟨⟨book, hbook, hsound⟩, hes⟩ :=
    rules_of_run create_inMemory hstart (.cons he (.nil e.after))
  obtain ⟨empty, book', hempty, hbook', hcreated, -⟩ := hes e (.head _)
  obtain ⟨rule, hsubmits, hid, hrules⟩ := hcreated h201
  obtain rfl := Option.some.inj (hbook'.symm.trans hbook)
  obtain rfl := Option.some.inj
    (hempty.symm.trans (book_start (book_of_create create_inMemory) hstart))
  have htext : (toRules "POST" "" "\x7b\"rule\": \"x > 1\"\x7d").readBody.member? "rule" =
      some (.text "x > 1") := by decide +kernel
  exact ⟨book', rule, h201, hbook, hsound, hrules,
    Value.text.inj (Option.some.inj (hsubmits.text.symm.trans htext))⟩

end Server

end Rulebook
