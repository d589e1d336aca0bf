import Rulebook.Proofs.Service.Exchange

/-!
The life of a rule in a service. Its id finds nothing until the rule is created, finds the rule as
it was shown then until it is deleted, and finds nothing ever after. Only a rule that nests too deep
to be shown is there without having been shown.
-/

namespace Rulebook

open Http (Request Response)

/-- The body of a request tells what a stored rule is to be decided on. -/
def Http.Request.IsEvaluation (r : Request) : Prop :=
  ∃ entries body, r.readBody = .value (.dict entries) ∧ EvaluateBody.check entries = .good body

namespace Server

/-- Requests that lead to an action are answered so. -/
def Answers (server : Server) (a : Http.Action) (P : Request → Response → Prop) : Prop :=
  ∀ r, r.fault? = none → server.destination r = .action a →
    ∃ response after, server.receive r = .ok (response, after) ∧ P r response

/-- A service answers that it has no rule with an id. -/
structure Lacks (server : Server) (id : String) : Prop where
  get : server.Answers (.getRule id) fun _ response => response.status = 404
  delete : server.Answers (.deleteRule id) fun _ response => response.status = 404
  evaluate : server.Answers (.evaluateRule id) fun r response =>
    r.IsEvaluation → response.status = 404

/-- A service answers that it has a rule with an id, and what it shows of the rule. -/
structure Holds (server : Server) (id : String) (shown : Http.Body) : Prop where
  get : server.Answers (.getRule id) fun _ response =>
    response.status = 200 ∧ response.body = shown
  delete : server.Answers (.deleteRule id) fun _ response => response.status = 204
  evaluate : server.Answers (.evaluateRule id) fun _ response => response.status ≠ 404

/-- The rule that an id finds. -/
def found? (server : Server) (id : String) : Option StoredRule :=
  server.database.book.bind fun book => book.find? id

/-- The id is that of a number that was used up. -/
def HasUsed (server : Server) (id : String) : Prop :=
  ∃ n < server.database.nextNumber, id = server.database.source.idAt n

end Server

namespace Exchange

/-- The answer tells of a new rule with an id. -/
structure Returns (e : Exchange) (id : String) : Prop where
  status : e.response.status = 201
  id : e.response.member? "id" = some (.ofString id)

/-- A rule with an id is deleted. -/
structure Deletes (e : Exchange) (id : String) : Prop where
  destination : e.destination = .action (.deleteRule id)
  status : e.response.status = 204

/-- A rule that nests too deep to be shown is added under an id by a request that fails. -/
structure LeavesBehind (e : Exchange) (id : String) : Prop where
  status : e.response.status = 500
  added : ∃ rule tree book, e.Submits rule ∧ compile rule.text = .ok tree ∧
    Service.mostShownLevels ≤ tree.height ∧ rule.id = id ∧
    e.before.database.book = some book ∧ e.after.database.book = some (book.add rule)

/-- What an exchange does to the rule that an id finds. -/
inductive Moves (e : Exchange) (id : String) : Option StoredRule → Option StoredRule → Prop
  | kept (found) : ¬ e.Returns id → ¬ e.Deletes id → Moves e id found found
  | created (rule tree) : ¬ e.before.HasUsed id → e.Returns id → Service.IsShown rule tree →
      e.response.body = .json (Service.ruleValue rule tree) → Moves e id none (some rule)
  | left (rule) : ¬ e.before.HasUsed id → e.LeavesBehind id → Moves e id none (some rule)
  | deleted (rule) : e.Deletes id → Moves e id (some rule) none

section
variable {e : Exchange} {a : Http.Action} {response : Response}

theorem Acts.status_eq_of_reply (h : e.Acts a) (hreply : (e.outcome a).reply = .ok response)
    (hsent : response.fault? = none) : e.response.status = response.status := by
  rw [h.status, Server.replyOf_eq_ok hreply hsent]
  rfl

theorem Acts.status_of_noRule (h : e.Acts a) (hreply : (e.outcome a).reply = .ok Service.noRule) :
    e.response.status = 404 :=
  h.status_eq_of_reply hreply rfl

theorem Acts.body_eq_of_reply (h : e.Acts a) (hhead : e.request.capitalised.method ≠ "HEAD")
    (hreply : (e.outcome a).reply = .ok response) (hsent : response.fault? = none) :
    e.response.body = response.body := by
  rw [h.body hhead, Server.replyOf_eq_ok hreply hsent]
  rfl

end

end Exchange

namespace Server
open Service

section
variable {server : Server} {id : String} {rule : StoredRule} {book : Book}

theorem found?_eq (hb : server.database.book = some book) (id : String) :
    server.found? id = book.find? id := by
  simp only [found?, hb, Option.bind_some]

theorem IsSound.hasUsed (h : server.IsSound) (hf : server.found? id = some rule) :
    server.HasUsed id := by
  obtain ⟨book, hb, hfind⟩ := Option.bind_eq_some_iff.mp hf
  obtain ⟨hid, hmem⟩ := (And.intro (List.find?_some hfind) (List.mem_of_find?_eq_some hfind))
  obtain ⟨n, hn, hrule⟩ := h.ready.numbered book hb rule hmem
  refine ⟨n, hn, ?_⟩
  rw [← hrule.id]
  exact (eq_of_beq hid).symm

theorem IsSound.found?_of_not_hasUsed (h : server.IsSound) (hid : ¬ server.HasUsed id) :
    server.found? id = none := by
  cases hf : server.found? id with
  | none => rfl
  | some rule => exact absurd (h.hasUsed hf) hid

theorem not_hasUsed_next (hfresh : server.database.HasFreshIds) :
    ¬ server.HasUsed (server.database.source.idAt server.database.nextNumber) := by
  rintro ⟨n, hn, hid⟩
  exact absurd (hfresh _ le_rfl n hn.le hid) (Nat.ne_of_gt hn)

theorem IsSound.answers (h : server.IsSound) {a : Http.Action} {P : Request → Response → Prop}
    (hreply : ∀ e : Exchange, e.before = server → e.Acts a → P e.request e.response) :
    server.Answers a P := by
  intro r hsent ha
  have he := server.isAnswered_exchange hsent
  exact ⟨_, _, server.receive_of_sent hsent, hreply _ rfl (Exchange.acts he h ha)⟩

theorem IsSound.lacks (h : server.IsSound) (hf : server.found? id = none) : server.Lacks id := by
  obtain ⟨book, hb, -⟩ := h.exists_book
  have hfind : book.find? id = none := (found?_eq hb id).symm.trans hf
  constructor
  · apply h.answers
    rintro e rfl hacts
    apply hacts.status_of_noRule
    rw [Exchange.outcome, reply_getRule h.ready hb id, hfind]
  · apply h.answers
    rintro e rfl hacts
    apply hacts.status_of_noRule
    rw [Exchange.outcome, reply_deleteRule h.ready hb id, hfind]
  · apply h.answers
    rintro e rfl hacts ⟨entries, body, hread, hcheck⟩
    apply hacts.status_of_noRule
    have hread' : e.request.capitalised.readBody = .value (.dict entries) := hread
    rw [Exchange.outcome, reply_evaluateRule h.ready hb hread' hcheck id, hfind]

theorem IsSound.holds (h : server.IsSound) (hf : server.found? id = some rule) {tree : Tree}
    (hshown : IsShown rule tree) : server.Holds id (.json (ruleValue rule tree)) := by
  obtain ⟨book, hb, -⟩ := h.exists_book
  have hfind : book.find? id = some rule := (found?_eq hb id).symm.trans hf
  constructor
  · apply h.answers
    rintro e rfl hacts
    have hreply : (e.outcome (.getRule id)).reply = .ok (.json 200 (ruleValue rule tree)) := by
      rw [Exchange.outcome, reply_getRule h.ready hb id, hfind]
      simp only [hshown.shown, Except.map]
    have hhead : e.request.capitalised.method ≠ "HEAD" := by
      have hget : e.request.capitalised.method = "GET" := List.mem_singleton.mp hacts.method
      simp [hget]
    have hsent := hshown.sent 200
    exact ⟨hacts.status_eq_of_reply hreply hsent, hacts.body_eq_of_reply hhead hreply hsent⟩
  · apply h.answers
    rintro e rfl hacts
    have hreply : (e.outcome (.deleteRule id)).reply = .ok (.empty 204) := by
      rw [Exchange.outcome, reply_deleteRule h.ready hb id, hfind]
    exact hacts.status_eq_of_reply hreply rfl
  · apply h.answers
    rintro e rfl hacts
    rw [hacts.status]
    apply status_carried _ (· ≠ 404) (by decide)
    intro response hreply
    exact status_evaluateRule h.ready hb hfind hreply

end

end Server

namespace Exchange
open Service Server

section
variable {e : Exchange} {id : String} {rule : StoredRule} {found : Option StoredRule}

theorem not_deletes_of_status (h : e.response.status ≠ 204) : ¬ e.Deletes id := by
  intro hdeletes
  exact h hdeletes.status

theorem not_returns_of_status (h : e.response.status ≠ 201) : ¬ e.Returns id := by
  intro hreturns
  exact h hreturns.status

/-- What a request does to the rule that an id finds is told by its answer, if ids are never
repeated. -/
theorem moves (he : e.IsAnswered) (hsound : e.before.IsSound)
    (hfresh : e.before.database.HasFreshIds) (id : String) :
    e.Moves id (e.before.found? id) (e.after.found? id) := by
  obtain ⟨book, hb, hbook⟩ := hsound.exists_book
  obtain ⟨book', hb', htakes⟩ := exists_takes he hsound hb
  -- a new rule has a number that no rule had before, whether or not it is still there
  have hadded {rule : StoredRule}
      (hnext : rule.IsNumbered e.before.database.source e.before.database.nextNumber)
      (hnew : ∀ other ∈ book.rules, other.id ≠ rule.id) :
      book.find? rule.id = none ∧ (book.add rule).find? rule.id = some rule ∧
        ¬ e.before.HasUsed rule.id :=
    ⟨Book.find?_eq_none hnew, Book.find?_add_self hnew, hnext.id ▸ not_hasUsed_next hfresh⟩
  rw [found?_eq hb, found?_eq hb']
  cases htakes with
  | kept hquiet =>
      simp only [isQuiet, Bool.and_eq_true, bne_iff_ne] at hquiet
      exact .kept _ (not_returns_of_status hquiet.1) (not_deletes_of_status hquiet.2)
  | @created rule tree hsubmits hnext hnew hrule h201 hbody hshown =>
      have hmember : e.response.member? "id" = some (.ofString rule.id) := by
        rw [Response.member?, hbody]
        exact shownRule_id hshown.shown
      by_cases hid : rule.id = id
      · subst hid
        obtain ⟨hnone, hsome, hunused⟩ := hadded hnext hnew
        rw [hnone, hsome]
        exact .created rule tree hunused ⟨h201, hmember⟩ hshown hbody
      · rw [Book.find?_add_of_ne hid]
        refine .kept _ (fun hreturns => hid ?_) (not_deletes_of_status (by simp [h201]))
        exact Text.ofString_injective
          (Value.text.inj (Option.some.inj (hmember.symm.trans hreturns.id)))
  | @left rule tree hsubmits hnext hnew hrule h500 hcompile hdeep =>
      by_cases hid : rule.id = id
      · subst hid
        obtain ⟨hnone, hsome, hunused⟩ := hadded hnext hnew
        rw [hnone, hsome]
        exact .left rule hunused
          ⟨h500, rule, tree, book, hsubmits, hcompile, hdeep, rfl, hb, hb'⟩
      · rw [Book.find?_add_of_ne hid]
        exact .kept _ (not_returns_of_status (by simp [h500]))
          (not_deletes_of_status (by simp [h500]))
  | @deleted removed rule hdest hf h204 =>
      by_cases hid : removed = id
      · subst hid
        rw [hf, Book.find?_remove_self]
        exact .deleted rule ⟨hdest, h204⟩
      · rw [Book.find?_remove_of_ne hid]
        refine .kept _ (not_returns_of_status (by simp [h204])) fun hdeletes => hid ?_
        exact Http.Action.deleteRule.inj
          (Http.Destination.action.inj (hdest.symm.trans hdeletes.destination))

/-- Every rule that nests too deep to be shown, but not too deep to be stored, is left behind. -/
theorem leavesBehind_of_deep {entries : List (Value × Value)} {body : CreateBody} {tree : Tree}
    (he : e.IsAnswered) (hsound : e.before.IsSound) (hfresh : e.before.database.HasFreshIds)
    (ha : e.destination = .action .createRule) (hread : e.request.readBody = .value (.dict entries))
    (hcheck : CreateBody.check (.good e.before.settings.maxRuleLength) entries = .good body)
    (hcompile : compile body.rule = .ok tree)
    (hwritable : Text.unwritable? .utf8 body.rule = none) (hdeep : mostShownLevels ≤ tree.height)
    (hlevels : tree.stored.levels < storeDepth) :
    e.LeavesBehind (e.before.database.source.idAt e.before.database.nextNumber) := by
  have hacts := acts he hsound ha
  have hpost : e.request.capitalised.method = "POST" := List.mem_singleton.mp hacts.method
  have hread' : e.request.capitalised.readBody = .value (.dict entries) := hread
  obtain ⟨rule, hc⟩ : ∃ rule, Creates e.before.database body (e.outcome .createRule) rule :=
    exists_creates hsound.ready hfresh hread' hcheck hcompile hlevels hwritable
  have hsubmits := submits_of_creates hpost ha hread (CreateBody.isChecked_of_check hcheck) hc
  have htree : compile rule.text = .ok tree := hc.text ▸ hcompile
  obtain ⟨d', book, hk, hb, -, hd⟩ := hc.stored
  have h500 := hc.status_of_deep e.before.settings htree hdeep
  refine ⟨hacts.status.trans h500, rule, tree, book, hsubmits, htree, hdeep, hc.numbered.id, ?_, ?_⟩
  · exact hk.book.symm.trans hb
  · rw [hacts.database, hd]

theorem hasUsed_after (he : e.IsAnswered) (h : e.before.HasUsed id) : e.after.HasUsed id := by
  obtain ⟨n, hn, hid⟩ := h
  exact ⟨n, hn.trans_le he.changes.nextNumber_le, he.changes.source ▸ hid⟩

theorem Moves.eq_some (h : e.Moves id (some rule) found) (hkept : ¬ e.Deletes id) :
    found = some rule := by
  cases h with
  | kept => rfl
  | deleted rule hdeletes => exact absurd hdeletes hkept

theorem Moves.eq_none_of_hasUsed (h : e.Moves id none found) (hused : e.before.HasUsed id) :
    found = none := by
  cases h with
  | kept => rfl
  | created rule tree hunused => exact absurd hused hunused
  | left rule hunused => exact absurd hused hunused

theorem Moves.eq_none_of_not_added (h : e.Moves id none found) (hreturns : ¬ e.Returns id)
    (hleft : ¬ e.LeavesBehind id) : found = none := by
  cases h with
  | kept => rfl
  | created rule tree hunused hadded => exact absurd hadded hreturns
  | left rule hunused hadded => exact absurd hadded hleft

theorem Moves.of_returns {old : Option StoredRule} (h : e.Moves id old found)
    (hreturns : e.Returns id) :
    ¬ e.before.HasUsed id ∧ ∃ rule tree, found = some rule ∧ IsShown rule tree ∧
      e.response.body = .json (ruleValue rule tree) := by
  cases h with
  | kept _ hno => exact absurd hreturns hno
  | created rule tree hunused _ hshown hbody => exact ⟨hunused, rule, tree, rfl, hshown, hbody⟩
  | left rule hunused hleft => cases hreturns.status.symm.trans hleft.status
  | deleted rule hdeletes => cases hreturns.status.symm.trans hdeletes.status

theorem Moves.of_deletes {old : Option StoredRule} (h : e.Moves id old found)
    (hdeletes : e.Deletes id) : found = none ∧ ∃ rule, old = some rule := by
  cases h with
  | kept _ _ hno => exact absurd hdeletes hno
  | created rule tree hunused hreturns => cases hreturns.status.symm.trans hdeletes.status
  | left rule hunused hleft => cases hleft.status.symm.trans hdeletes.status
  | deleted rule => exact ⟨rfl, rule, rfl⟩

end

end Exchange

namespace Server

section
variable {server after : Server} {es xs ys : List Exchange} {e : Exchange} {id : String}
  {rule : StoredRule}

/-- What each exchange of a run keeps, the run keeps. -/
theorem Run.preserves (h : Run server es after) (hsound : server.IsSound) {I : Server → Prop}
    (hstep : ∀ e ∈ es, e.IsAnswered → e.before.IsSound → I e.before → I e.after)
    (hI : I server) : I after := by
  induction h with
  | nil server => exact hI
  | cons he h ih =>
      obtain ⟨hfirst, hrest⟩ := List.forall_mem_cons.mp hstep
      exact ih (Exchange.isSound_after he hsound) hrest (hfirst he hsound hI)

/-- If no id is repeated up to the end of a run, none was at any moment of it. -/
theorem Run.hasFreshIds (h : Run server es after) (hfresh : after.database.HasFreshIds) :
    server.database.HasFreshIds ∧ ∀ e ∈ es, e.before.database.HasFreshIds := by
  induction h with
  | nil server => exact ⟨hfresh, fun _ he => absurd he List.not_mem_nil⟩
  | cons he h ih =>
      obtain ⟨hnext, hes⟩ := ih hfresh
      have hfirst := he.changes.hasFreshIds hnext
      exact ⟨hfirst, List.forall_mem_cons.mpr ⟨hfirst, hes⟩⟩

theorem Run.source (h : Run server es after) :
    after.database.source = server.database.source := by
  induction h with
  | nil server => rfl
  | cons he h ih => exact ih.trans he.changes.source

/-- A service that counts its rules never repeats an id. -/
theorem Run.hasFreshIds_of_counting (h : Run inMemory.start.2 es after) :
    after.database.HasFreshIds := by
  unfold Database.HasFreshIds
  rw [h.source, source_of_create create_inMemory]
  exact RowSource.isFresh_counting _

theorem Run.hasUsed (h : Run server es after) (hsound : server.IsSound)
    (hused : server.HasUsed id) : after.HasUsed id :=
  h.preserves hsound (I := fun s => s.HasUsed id)
    (fun _ _ he _ hu => Exchange.hasUsed_after he hu) hused

theorem Run.found?_eq_some (h : Run server es after) (hsound : server.IsSound)
    (hfresh : after.database.HasFreshIds) (hf : server.found? id = some rule)
    (hkept : ∀ e ∈ es, ¬ e.Deletes id) : after.found? id = some rule := by
  apply h.preserves hsound _ hf
  intro e hmem he hs hbefore
  have hmoves := Exchange.moves he hs ((h.hasFreshIds hfresh).2 e hmem) id
  rw [hbefore] at hmoves
  exact hmoves.eq_some (hkept e hmem)

/-- A rule that is gone does not come back: its number was used up. -/
theorem Run.found?_eq_none_of_hasUsed (h : Run server es after) (hsound : server.IsSound)
    (hfresh : after.database.HasFreshIds) (hf : server.found? id = none)
    (hused : server.HasUsed id) : after.found? id = none := by
  suffices hboth : after.found? id = none ∧ after.HasUsed id from hboth.1
  apply h.preserves hsound _ ⟨hf, hused⟩
  rintro e hmem he hs ⟨hbefore, hu⟩
  have hmoves := Exchange.moves he hs ((h.hasFreshIds hfresh).2 e hmem) id
  rw [hbefore] at hmoves
  exact ⟨hmoves.eq_none_of_hasUsed hu, Exchange.hasUsed_after he hu⟩

theorem Run.found?_eq_none_of_not_added (h : Run server es after) (hsound : server.IsSound)
    (hfresh : after.database.HasFreshIds) (hf : server.found? id = none)
    (hes : ∀ e ∈ es, ¬ e.Returns id ∧ ¬ e.LeavesBehind id) : after.found? id = none := by
  apply h.preserves hsound _ hf
  intro e hmem he hs hbefore
  have hmoves := Exchange.moves he hs ((h.hasFreshIds hfresh).2 e hmem) id
  rw [hbefore] at hmoves
  exact hmoves.eq_none_of_not_added (hes e hmem).1 (hes e hmem).2

theorem Run.found?_eq_none_of_deletes (h : Run server es after) (hsound : server.IsSound)
    (hfresh : after.database.HasFreshIds) (hes : ∃ e ∈ es, e.Deletes id) :
    after.found? id = none := by
  obtain ⟨e, hmem, hdeletes⟩ := hes
  obtain ⟨xs, ys, rfl⟩ := List.append_of_mem hmem
  obtain ⟨hbefore, he, hafter⟩ := h.parts
  have hs := (hbefore.isSound hsound).1
  have hmoves := Exchange.moves he hs ((h.hasFreshIds hfresh).2 e hmem) id
  obtain ⟨hnone, rule, hsome⟩ := hmoves.of_deletes hdeletes
  have hused : e.after.HasUsed id := Exchange.hasUsed_after he (hs.hasUsed hsome)
  exact hafter.found?_eq_none_of_hasUsed (Exchange.isSound_after he hs) hfresh hnone hused

theorem Run.found?_eq_none_of_returns (h : Run server es after) (hsound : server.IsSound)
    (hfresh : after.database.HasFreshIds) (hes : ∃ e ∈ es, e.Returns id) :
    server.found? id = none := by
  obtain ⟨e, hmem, hreturns⟩ := hes
  obtain ⟨xs, ys, rfl⟩ := List.append_of_mem hmem
  obtain ⟨hbefore, he, hafter⟩ := h.parts
  have hmoves :=
    Exchange.moves he (hbefore.isSound hsound).1 ((h.hasFreshIds hfresh).2 e hmem) id
  obtain ⟨hunused, -⟩ := hmoves.of_returns hreturns
  exact hsound.found?_of_not_hasUsed fun hused => hunused (hbefore.hasUsed hsound hused)

theorem Run.holds (h : Run server (xs ++ e :: ys) after) (hsound : server.IsSound)
    (hfresh : after.database.HasFreshIds) (hreturns : e.Returns id)
    (hkept : ∀ f ∈ ys, ¬ f.Deletes id) : after.Holds id e.response.body := by
  obtain ⟨hbefore, he, hafter⟩ := h.parts
  have hs := (hbefore.isSound hsound).1
  have hmoves := Exchange.moves he hs ((h.hasFreshIds hfresh).2 e (by simp)) id
  obtain ⟨-, rule, tree, hfound, hshown, hbody⟩ := hmoves.of_returns hreturns
  have hs' := Exchange.isSound_after he hs
  have hlast := hafter.found?_eq_some hs' hfresh hfound hkept
  rw [hbody]
  exact (hafter.isSound hs').1.holds hlast hshown

theorem Run.deletes_once (h : Run server es after) (hsound : server.IsSound)
    (hfresh : after.database.HasFreshIds) (id : String) :
    es.Pairwise fun e f => ¬ (e.Deletes id ∧ f.Deletes id) := by
  induction h with
  | nil server => exact .nil
  | @cons e es server he h ih =>
      refine .cons ?_ (ih (Exchange.isSound_after he hsound) hfresh)
      rintro f hf ⟨hfirst, hsecond⟩
      obtain ⟨xs, ys, rfl⟩ := List.append_of_mem hf
      obtain ⟨hbetween, hanswered, -⟩ := h.parts
      -- the second request would have found a rule that the first one had removed for good
      have hrun : Run e.before (e :: xs) f.before := .cons he hbetween
      have hfresh' := (h.hasFreshIds hfresh).2 f hf
      have hnone := hrun.found?_eq_none_of_deletes hsound hfresh' ⟨e, .head _, hfirst⟩
      have hmoves := Exchange.moves hanswered (hrun.isSound hsound).1 hfresh' id
      obtain ⟨-, rule, hsome⟩ := hmoves.of_deletes hsecond
      cases hnone.symm.trans hsome

/-- The life of a rule in a run, if ids are never repeated. Before a request returns the id and
after a request deleted it, the service answers that it has no such rule; in between it answers that
it has the rule, and shows it as the first answer did. The rule is deleted once at most. An id that
was never returned is one of no rule, unless a rule that nests too deep to be shown was left under
it. -/
theorem life_of_run {s : Settings} {url : String} {manual : Option String} {source : RowSource}
    {ids : Log.IdSource} {fresh : Server}
    (hfresh : create s (.ofUrl url manual source) ids = .ok fresh) (hstart : fresh.start.1 = true)
    {before later : List Exchange} (hbefore : Run fresh.start.2 before server)
    (hlater : Run server later after) (hids : after.database.HasFreshIds) (id : String) :
    ((∃ e ∈ later, e.Returns id) → server.Lacks id) ∧
    ((∀ e ∈ before, ¬ e.Returns id ∧ ¬ e.LeavesBehind id) → server.Lacks id) ∧
    (∀ earlier e since, before = earlier ++ e :: since → e.Returns id →
      (∀ f ∈ since, ¬ f.Deletes id) → server.Holds id e.response.body) ∧
    ((∃ e ∈ before, e.Deletes id) → server.Lacks id) ∧
    before.Pairwise fun e f => ¬ (e.Deletes id ∧ f.Deletes id) := by
  have hsound := isSound_start hfresh hstart
  have hnow := (hlater.hasFreshIds hids).1
  have hserver := (hbefore.isSound hsound).1
  have hempty : fresh.start.2.found? id = none :=
    found?_eq (book_start (book_of_create hfresh) hstart) id
  refine ⟨fun hreturns => ?_, fun hes => ?_, ?_, fun hdeletes => ?_,
    hbefore.deletes_once hsound hnow id⟩
  · exact hserver.lacks (hlater.found?_eq_none_of_returns hserver hids hreturns)
  · exact hserver.lacks (hbefore.found?_eq_none_of_not_added hsound hnow hempty hes)
  · rintro earlier e since rfl hreturns hkept
    exact hbefore.holds hsound hnow hreturns hkept
  · exact hserver.lacks (hbefore.found?_eq_none_of_deletes hsound hnow hdeletes)

end

theorem life_of_first_rule :
    let id := "00000000-0000-0000-0000-000000000001"
    let e := inMemory.start.2.exchange (toRules "POST" "" "\x7b\"rule\": \"x > 1\"\x7d")
    let f := e.after.exchange (toRules "DELETE" id "")
    e.after.Holds id e.response.body ∧ f.after.Lacks id := by
  intro id e f
  have hstart : inMemory.start.1 = true := by decide +kernel
  have hsent : (toRules "DELETE" id "").fault? = none := by decide +kernel
  have he : e.IsAnswered := isAnswered_exchange _ (by decide +kernel)
  have hf : f.IsAnswered := isAnswered_exchange _ hsent
  have hreturns : e.Returns id := ⟨by decide +kernel, by decide +kernel⟩
  have hrun : Run inMemory.start.2 [e, f] f.after := .cons he (.cons hf (.nil _))
  have hids := hrun.hasFreshIds_of_counting
  have hbetween :=
    life_of_run create_inMemory hstart (.cons he (.nil _)) (.cons hf (.nil _)) hids id
  have hholds : e.after.Holds id e.response.body :=
    hbetween.2.2.1 [] e [] rfl hreturns fun _ hmem => absurd hmem List.not_mem_nil
  have hdest : e.after.destination (toRules "DELETE" id "") = .action (.deleteRule id) := by
    rw [destination, he.table_after.1]
    decide +kernel
  obtain ⟨response, after, hreceive, h204⟩ := hholds.delete _ hsent hdest
  obtain ⟨hresponse, -⟩ :=
    Prod.mk.inj (Except.ok.inj ((e.after.receive_of_sent hsent).symm.trans hreceive))
  have hdeletes : f.Deletes id := ⟨hdest, hresponse ▸ h204⟩
  have hend := life_of_run create_inMemory hstart hrun (.nil _) hids id
  exact ⟨hholds, hend.2.2.2.1 ⟨f, by simp, hdeletes⟩⟩

end Server

end Rulebook
