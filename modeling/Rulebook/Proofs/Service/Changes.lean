import Rulebook.Proofs.Store.Database
import Rulebook.Service.Serve

/-!
What requests do to the database of a service. Only a request to create a rule adds one, only a
request to delete a rule removes it, and no request does anything else to the book.
-/

namespace Rulebook

open Http (Destination Request Response Target)

/-- How a request with a destination may change a database. -/
inductive Database.Changes (dest : Destination) (d : Database) : Database → Prop
  | kept {d'} : d.Keeps d' → Changes dest d d'
  | skipped {d'} : dest = .action .createRule → d.Keeps d' →
      Changes dest d { d' with nextNumber := d'.nextNumber + 1 }
  | added {d' book rule} : dest = .action .createRule → d.Keeps d' → d'.book = some book →
      rule.IsNumbered d'.source d'.nextNumber →
      Changes dest d { d' with nextNumber := d'.nextNumber + 1, book := some (book.add rule) }
  | removed {d' id} : dest = .action (.deleteRule id) → d.Keeps d' → Changes dest d (d'.remove id)

namespace Database
variable {dest : Destination} {d d' : Database}

theorem Changes.isReady (h : Changes dest d d') (hd : d.IsReady) : d'.IsReady := by
  cases h with
  | kept hk => exact hk.isReady hd
  | skipped hdest hk => exact (hk.isReady hd).skipNumber
  | added hdest hk hb hnumbered => exact (hk.isReady hd).add hb hnumbered
  | removed hdest hk => exact (hk.isReady hd).remove _

theorem Changes.nextNumber_le (h : Changes dest d d') : d.nextNumber ≤ d'.nextNumber := by
  cases h with
  | kept hk => exact hk.nextNumber.ge
  | skipped hdest hk => exact Nat.le_succ_of_le hk.nextNumber.ge
  | added hdest hk hb hnumbered => exact Nat.le_succ_of_le hk.nextNumber.ge
  | removed hdest hk => exact hk.nextNumber.ge

theorem Changes.source (h : Changes dest d d') : d'.source = d.source := by
  cases h with
  | kept hk => exact hk.source
  | skipped hdest hk => exact hk.source
  | added hdest hk hb hnumbered => exact hk.source
  | removed hdest hk => exact hk.source

/-- Ids that are not repeated later were not repeated before. -/
theorem Changes.hasFreshIds (h : Changes dest d d') (hd : d'.HasFreshIds) : d.HasFreshIds := by
  unfold HasFreshIds at hd
  rw [h.source] at hd
  exact hd.of_le h.nextNumber_le

/-- A rule is still found unless the request was to delete it. -/
theorem Changes.find? (h : Changes dest d d') {id : String} {rule : StoredRule} {book : Book}
    (hb : d.book = some book) (hf : book.find? id = some rule)
    (hdest : dest ≠ .action (.deleteRule id)) :
    ∃ book', d'.book = some book' ∧ book'.find? id = some rule := by
  cases h with
  | kept hk => exact ⟨book, hk.book.trans hb, hf⟩
  | skipped hcreate hk => exact ⟨book, hk.book.trans hb, hf⟩
  | @added d' book' rule' hcreate hk hb' hnumbered =>
      obtain rfl := Option.some.inj (hb.symm.trans (hk.book.symm.trans hb'))
      exact ⟨_, rfl, Book.find?_add_of_some hf rule'⟩
  | @removed d' removed hdelete hk =>
      have hne : removed ≠ id := fun he => hdest (he ▸ hdelete)
      refine ⟨book.remove removed, ?_, (Book.find?_remove_of_ne hne).trans hf⟩
      simp [Database.remove, hk.book, hb]

end Database

namespace Service
open Database

/-- A status that tells neither of a new rule nor of a removed one. -/
def isQuiet (status : Nat) : Bool := status != 201 && status != 204

/-- What a rule was created from, and what the database and the reply say of it. A rule that cannot
be shown is created all the same. -/
structure Creates (d : Database) (body : CreateBody) (o : Outcome) (rule : StoredRule) : Prop where
  name : rule.name = body.name
  text : rule.text = body.rule
  tree : ∃ tree, compile rule.text = .ok tree ∧ rule.tree = tree.stored
  numbered : rule.IsNumbered d.source d.nextNumber
  writable : Text.unwritable? .utf8 rule.text = none
  stored : ∃ d' book, d.Keeps d' ∧ d'.book = some book ∧
    (∀ other ∈ book.rules, other.id ≠ rule.id) ∧
    o.database = { d' with nextNumber := d'.nextNumber + 1, book := some (book.add rule) }
  reply : o.reply = (shownRule rule).map (.json 201)

/-- What may come of an action. It keeps the book, and uses up a number if a rule could not be
stored; or it creates a rule, or deletes one. -/
inductive Effect (s : Settings) (d : Database) (r : Request) (a : Http.Action) (o : Outcome) : Prop
  | kept : d.Keeps o.database →
      (∀ response, o.reply = .ok response → isQuiet response.status = true) → Effect s d r a o
  | skipped {d'} (crash) : a = .createRule → d.Keeps d' →
      o.database = { d' with nextNumber := d'.nextNumber + 1 } → o.reply = .error crash →
      Effect s d r a o
  | created {entries body} (rule) : a = .createRule → r.readBody = .value (.dict entries) →
      CreateBody.check (.good s.maxRuleLength) entries = .good body → Creates d body o rule →
      Effect s d r a o
  | deleted {d' book} (id rule) : a = .deleteRule id → d.Keeps d' → d'.book = some book →
      book.find? id = some rule → o.database = d'.remove id → o.reply = .ok (.empty 204) →
      Effect s d r a o

section
variable {s : Settings} {d d' : Database} {r : Request} {a : Http.Action} {o : Outcome}

theorem Effect.changes (h : Effect s d r a o) : Changes (.action a) d o.database := by
  cases h with
  | kept hk hquiet => exact .kept hk
  | skipped crash ha hk hd => exact hd ▸ .skipped (congrArg _ ha) hk
  | created rule ha hread hcheck hc =>
      obtain ⟨d', book, hk, hb, -, hd⟩ := hc.stored
      exact hd ▸ .added (congrArg _ ha) hk hb (hk.source ▸ hk.nextNumber ▸ hc.numbered)
  | deleted id rule ha hk hb hf hd => exact hd ▸ .removed (congrArg _ ha) hk

theorem Effect.after (h : Effect s d r a o) (notes : List Note) :
    Effect s d r a (o.after notes) := by
  cases h with
  | kept hk hquiet => exact .kept hk hquiet
  | skipped crash ha hk hd hr => exact .skipped crash ha hk hd hr
  | created rule ha hread hcheck hc => exact .created rule ha hread hcheck { hc with }
  | deleted id rule ha hk hb hf hd hr => exact .deleted id rule ha hk hb hf hd hr

theorem effect_respond (hk : d.Keeps d') {response : Response}
    (h : isQuiet response.status = true) : Effect s d r a (.respond d' response) := by
  refine .kept hk fun other he => ?_
  obtain rfl := Except.ok.inj he
  exact h

theorem effect_crash (hk : d.Keeps d') (crash : Crash) : Effect s d r a (.crash d' crash) :=
  .kept hk nofun

theorem effect_withReadable {body : Http.BodyRead} (h : Effect s d r a o) :
    Effect s d r a (withReadable d body o) := by
  unfold withReadable
  split
  · exact effect_respond (.refl d) rfl
  · exact effect_respond (.refl d) rfl
  · exact h

theorem effect_withSession {act : Database → Outcome}
    (h : ∀ d', d.Keeps d' → Effect s d r a (act d')) : Effect s d r a (withSession d act) := by
  unfold withSession
  split
  · rename_i d' notes hprepare
    exact (h d' (prepare_keeps hprepare)).after notes
  · exact effect_crash (.refl d) _

theorem checkBody_eq_good {α : Type} {check : List (Value × Value) → Checked α}
    {body : Http.BodyRead} {b : α} (h : checkBody check body = .ok (.good b)) :
    ∃ entries, body = .value (.dict entries) ∧ check entries = .good b := by
  cases body with
  | value v =>
      cases v with
      | dict entries => exact ⟨entries, rfl, Except.ok.inj h⟩
      | _ => cases h
  | bytes source =>
      rw [checkBody] at h
      cases hsource : Text.ofUtf8 0 [] none (source.map UInt8.toNat) with
      | error fault =>
          rw [hsource] at h
          cases h
      | ok t =>
          rw [hsource] at h
          cases h
  | _ => cases h

theorem effect_withBody {α : Type} {check : List (Value × Value) → Checked α}
    {body : Http.BodyRead} {act : α → Outcome} (hk : d.Keeps d')
    (h : ∀ entries b, body = .value (.dict entries) → check entries = .good b →
      Effect s d r a (act b)) :
    Effect s d r a (withBody d' check body act) := by
  unfold withBody
  split
  · rename_i b hcheck
    obtain ⟨entries, hbody, hgood⟩ := checkBody_eq_good hcheck
    exact h entries b hbody hgood
  · exact effect_respond hk rfl
  · exact effect_crash hk _

theorem effect_withRule {id : String} {act : StoredRule → Outcome} (hk : d.Keeps d')
    (h : ∀ rule, d'.find? id = .ok (some rule) → Effect s d r a (act rule)) :
    Effect s d r a (withRule d' id act) := by
  unfold withRule
  split
  · rename_i rule hfind
    exact h rule hfind
  · exact effect_respond hk rfl
  · exact effect_crash hk _

theorem showRule_eq (d : Database) (status : Nat) (rule : StoredRule) :
    showRule d status rule = ⟨(shownRule rule).map (.json status), d, []⟩ := by
  unfold showRule
  cases shownRule rule <;> rfl

theorem creates_of_add {body : CreateBody} {tree : Tree} {rule : StoredRule} {d'' : Database}
    (hk : d.Keeps d') (hcompile : compile body.rule = .ok tree)
    (hadd : d'.add body.name body.rule tree.stored = (.ok rule, d'')) :
    Creates d body (createRule d' body) rule := by
  obtain ⟨hrule, hwritable, book, hb, hnew, rfl⟩ := add_ok hadd
  simp only [createRule, hcompile, hadd, showRule_eq]
  subst hrule
  refine ⟨rfl, rfl, ⟨tree, hcompile, rfl⟩, ?_, hwritable, ⟨d', book, hk, hb, hnew, rfl⟩, rfl⟩
  rw [← hk.source, ← hk.nextNumber]
  exact ⟨rfl, rfl⟩

theorem effect_createRule {entries : List (Value × Value)} {body : CreateBody} (hk : d.Keeps d')
    (hread : r.readBody = .value (.dict entries))
    (hcheck : CreateBody.check (.good s.maxRuleLength) entries = .good body) :
    Effect s d r .createRule (createRule d' body) := by
  cases hcompile : compile body.rule with
  | error failure =>
      simp only [createRule, hcompile]
      cases failure with
      | fault f => exact (effect_respond hk rfl).after _
      | noOperand => exact effect_crash hk _
  | ok tree =>
      rcases hadd : d'.add body.name body.rule tree.stored with ⟨failure | rule, d''⟩
      · obtain rfl := add_error hadd
        simp only [createRule, hcompile, hadd]
        exact .skipped _ rfl hk rfl rfl
      · exact .created rule rfl hread hcheck (creates_of_add hk hcompile hadd)

/-- A rule is created from a body that passes its checks if the text compiles to a tree that can be
stored and ids are never repeated. -/
theorem exists_creates {t : Target} {entries : List (Value × Value)} {body : CreateBody}
    {tree : Tree} (hd : d.IsReady) (hfresh : d.HasFreshIds)
    (hread : r.readBody = .value (.dict entries))
    (hcheck : CreateBody.check (.good s.maxRuleLength) entries = .good body)
    (hcompile : compile body.rule = .ok tree) (hlevels : tree.stored.levels < storeDepth)
    (hwritable : Text.unwritable? .utf8 body.rule = none) :
    ∃ rule, Creates d body (act s d r t .createRule) rule := by
  obtain ⟨d', notes, hprepare⟩ := exists_prepare hd.answers
  have hk := prepare_keeps hprepare
  obtain ⟨book, hb⟩ := (hk.isReady hd).hasBook
  have hnew : ∀ other ∈ book.rules, other.id ≠ d'.source.idAt d'.nextNumber :=
    fun other hother => (hk.isReady hd).id_ne_next (hk.hasFreshIds hfresh) hb hother
  obtain ⟨rule, d'', hadd⟩ := add_eq_ok (hk.isReady hd) hb body.name hnew hlevels hwritable
  have hc := creates_of_add hk hcompile hadd
  simp only [act, hread, withReadable, withSession, hprepare, withBody, checkBody, checkMembers,
    hcheck]
  exact ⟨rule, { hc with }⟩

theorem effect_listRules (hk : d.Keeps d') (t : Target) (bindings : List Http.Binding) :
    Effect s d r a (listRules d' t bindings) := by
  unfold listRules
  dsimp only
  split
  · exact effect_respond hk rfl
  · split
    · exact effect_crash hk _
    · split
      · exact effect_respond hk rfl
      · exact effect_crash hk _

theorem effect_evaluateAdHoc (hk : d.Keeps d') (body : AdHocBody) :
    Effect s d r a (evaluateAdHoc d' body) := by
  unfold evaluateAdHoc
  split
  · exact effect_respond hk rfl
  · exact effect_crash hk _
  · split
    · exact effect_crash hk _
    · exact (effect_respond hk rfl).after _

theorem effect_evaluateRule (hk : d.Keeps d') (id : String) (body : EvaluateBody) :
    Effect s d r a (evaluateRule d' id body) := by
  refine effect_withRule hk fun rule _ => ?_
  dsimp only
  split
  · exact (effect_crash hk _).after _
  · exact (effect_respond hk rfl).after _

theorem effect_getRule (hk : d.Keeps d') (id : String) :
    Effect s d r a (withRule d' id fun rule => showRule d' 200 rule) := by
  refine effect_withRule hk fun rule _ => ?_
  unfold showRule
  split
  · exact effect_respond hk rfl
  · exact effect_crash hk _

theorem effect_deleteRule (hk : d.Keeps d') (id : String) :
    Effect s d r (.deleteRule id) (deleteRule d' id) := by
  refine effect_withRule hk fun rule hfind => ?_
  obtain ⟨book, hbook, hfound⟩ := find?_eq_ok hfind
  exact .deleted id rule rfl hk hbook hfound rfl rfl

theorem effect_reportReadiness (s' : Settings) (d : Database) :
    Effect s d r a (reportReadiness s' d) := by
  have hk := probe_keeps d
  unfold reportReadiness
  rcases hp : d.probe with ⟨answers, d', notes⟩
  rw [hp] at hk
  cases answers <;> exact (effect_respond hk rfl).after notes

/-- What an action does is told by its reply, if a rule is created and shown, or deleted. -/
theorem effect_act (s : Settings) (d : Database) (r : Request) (t : Target) (a : Http.Action) :
    Effect s d r a (act s d r t a) := by
  have hk := Keeps.refl d
  cases a with
  | showPage => exact effect_respond hk rfl
  | reportHealth => exact effect_respond hk rfl
  | describe => exact effect_respond hk rfl
  | reportReadiness => exact effect_reportReadiness s d
  | createRule =>
      refine effect_withReadable (effect_withSession fun d' hk => ?_)
      exact effect_withBody hk fun entries body hread hcheck => effect_createRule hk hread hcheck
  | listRules bindings => exact effect_withSession fun d' hk => effect_listRules hk t bindings
  | evaluateAdHoc =>
      exact effect_withReadable
        (effect_withBody hk fun entries body _ _ => effect_evaluateAdHoc hk body)
  | getRule id => exact effect_withSession fun d' hk => effect_getRule hk id
  | deleteRule id => exact effect_withSession fun d' hk => effect_deleteRule hk id
  | evaluateRule id =>
      refine effect_withReadable (effect_withSession fun d' hk => ?_)
      exact effect_withBody hk fun entries body _ _ => effect_evaluateRule hk id body

end

end Service

namespace Server
open Database

/-- Where a request leads that a service received. -/
def destination (server : Server) (r : Request) : Destination :=
  Http.destination server.table r.capitalised.method (Target.ofText r.target)

theorem database_answerAcross (server : Server) (r : Request) (t : Target) :
    (server.answerAcross r t).database = server.database ∨
      (server.answerAcross r t).database = (server.answer r t).database := by
  unfold answerAcross
  split
  · exact .inr rfl
  · split
    · split <;> exact .inl rfl
    · exact .inr rfl

theorem changes_answer (server : Server) (r : Request) (t : Target) :
    Changes (Http.destination server.table r.method t) server.database
      (server.answer r t).database := by
  unfold answer
  split
  · rename_i a ha
    exact ha ▸ (Service.effect_act ..).changes
  · exact .kept (.refl _)
  · exact .kept (.refl _)
  · exact .kept (.refl _)

theorem database_handle (server : Server) (r : Request) : (server.handle r).2.database =
    (server.answerAcross r (Target.ofText r.target)).database := by
  unfold handle
  dsimp only
  split <;> rfl

theorem table_handle (server : Server) (r : Request) : (server.handle r).2.table = server.table ∧
    (server.handle r).2.settings = server.settings := by
  unfold handle
  dsimp only
  split <;> exact ⟨rfl, rfl⟩

theorem changes_handle (server : Server) (r : Request) :
    Changes (server.destination r) server.database (server.handle r.capitalised).2.database := by
  rw [database_handle]
  rcases database_answerAcross server r.capitalised (Target.ofText r.target) with h | h
  · exact h ▸ .kept (.refl _)
  · exact h ▸ changes_answer server r.capitalised _

/-- A service after a request, whether or not the request could be sent. -/
def next (server : Server) (r : Request) : Server :=
  match server.receive r with
  | .ok (_, after) => after
  | .error _ => server

/-- A service after requests, one after the other. -/
def serve (server : Server) (requests : List Request) : Server := requests.foldl next server

section
variable {server : Server} {id : String} {rule : StoredRule}

theorem next_of_fault {r : Request} {fault : Http.RequestFault} (h : r.fault? = some fault) :
    server.next r = server := by
  simp only [next, receive, h]

theorem next_of_sent {r : Request} (h : r.fault? = none) :
    server.next r = (server.handle r.capitalised).2 := by
  simp only [next, receive, h]

theorem changes_next (server : Server) (r : Request) :
    Changes (server.destination r) server.database (server.next r).database := by
  cases hr : r.fault? with
  | some fault =>
      rw [next_of_fault hr]
      exact .kept (.refl _)
  | none =>
      rw [next_of_sent hr]
      exact changes_handle server r

theorem table_next (server : Server) (r : Request) :
    (server.next r).table = server.table ∧ (server.next r).settings = server.settings := by
  cases hr : r.fault? with
  | some fault =>
      rw [next_of_fault hr]
      exact ⟨rfl, rfl⟩
  | none =>
      rw [next_of_sent hr]
      exact table_handle server r.capitalised

theorem table_serve (server : Server) (requests : List Request) :
    (server.serve requests).table = server.table ∧
      (server.serve requests).settings = server.settings := by
  induction requests generalizing server with
  | nil => exact ⟨rfl, rfl⟩
  | cons r rest ih =>
      obtain ⟨htable, hsettings⟩ := ih (server.next r)
      obtain ⟨htable', hsettings'⟩ := table_next server r
      exact ⟨htable.trans htable', hsettings.trans hsettings'⟩

theorem destination_serve (server : Server) (requests : List Request) (r : Request) :
    (server.serve requests).destination r = server.destination r := by
  rw [destination, (table_serve server requests).1]
  rfl

theorem isReady_serve (h : server.database.IsReady) (requests : List Request) :
    (server.serve requests).database.IsReady := by
  induction requests generalizing server with
  | nil => exact h
  | cons r rest ih => exact ih ((changes_next server r).isReady h)

theorem exists_table_of_create {s : Settings} {d : Database} {ids : Log.IdSource}
    (h : create s d ids = .ok server) :
    ∃ table, Http.routes s = .ok table ∧ server = ⟨s, table, d, ids, []⟩ := by
  unfold create at h
  cases hroutes : Http.routes s with
  | error fault =>
      rw [hroutes] at h
      cases h
  | ok table =>
      rw [hroutes] at h
      cases h
      exact ⟨table, rfl, rfl⟩

section
variable {s : Settings} {url : String} {manual : Option String} {source : RowSource}
  {ids : Log.IdSource}

theorem book_of_create (h : create s (.ofUrl url manual source) ids = .ok server) :
    server.database.book = none := by
  obtain ⟨table, -, rfl⟩ := exists_table_of_create h
  rfl

theorem source_of_create (h : create s (.ofUrl url manual source) ids = .ok server) :
    server.start.2.database.source = source := by
  obtain ⟨table, -, rfl⟩ := exists_table_of_create h
  exact source_setUp _

end

theorem isReady_start (hbook : server.database.book = none) (h : server.start.1 = true) :
    server.start.2.database.IsReady := Database.isReady_setUp hbook h

theorem book_start (hbook : server.database.book = none) (h : server.start.1 = true) :
    server.start.2.database.book = some .empty :=
  congrArg Database.book (Database.setUp_eq hbook h).2

/-- A rule is found after any requests, unless one was sent to delete it. -/
theorem find?_serve {requests : List Request} {book : Book} (hb : server.database.book = some book)
    (hf : book.find? id = some rule)
    (hkept : ∀ r ∈ requests, r.fault? = none → server.destination r ≠ .action (.deleteRule id)) :
    ∃ book', (server.serve requests).database.book = some book' ∧ book'.find? id = some rule := by
  induction requests generalizing server book with
  | nil => exact ⟨book, hb, hf⟩
  | cons r rest ih =>
      obtain ⟨hr, hrest⟩ := List.forall_mem_cons.mp hkept
      have hrest' : ∀ r' ∈ rest, r'.fault? = none →
          (server.next r).destination r' ≠ .action (.deleteRule id) := fun r' hr' hsent =>
        destination_serve server [r] r' ▸ hrest r' hr' hsent
      cases hfault : r.fault? with
      | some fault => exact ih (next_of_fault hfault ▸ hb) hf hrest'
      | none =>
          obtain ⟨book', hb', hf'⟩ := (changes_next server r).find? hb hf (hr hfault)
          exact ih hb' hf' hrest'

end

end Server

end Rulebook
