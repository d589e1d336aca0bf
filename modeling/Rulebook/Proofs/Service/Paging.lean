import Mathlib.Data.List.Nodup
import Rulebook.Proofs.Request.Integer
import Rulebook.Proofs.Service.Failures
import Rulebook.Proofs.Service.Order

/-!
Paging through stored rules. Whoever asks for page after page until one is not full has seen every
rule once, in the order of creation, however many rules are created meanwhile. A page fails only for
a rule that nests too deep to be shown, or for numbers that the service cannot take.
-/

namespace Rulebook

open Http (Request Response Target)

/-- The values of a response that carries a list. -/
def Http.Response.items? (response : Response) : Option (List Value) :=
  match response.body with
  | .json (.list vs) => some vs
  | _ => none

namespace Service

/-- Values show rules, one for each. -/
def Shows : List StoredRule → List Value → Prop :=
  List.Forall₂ fun rule v => shownRule rule = .ok v

section
variable {rules : List StoredRule} {vs : List Value}

theorem shows_of_mapM (h : rules.mapM shownRule = .ok vs) : Shows rules vs := by
  induction rules generalizing vs with
  | nil =>
      cases h
      exact .nil
  | cons rule rules ih =>
      rw [List.mapM_cons] at h
      cases hv : shownRule rule with
      | error crash =>
          rw [hv] at h
          cases h
      | ok v =>
          cases hws : rules.mapM shownRule with
          | error crash =>
              rw [hv, hws] at h
              cases h
          | ok ws =>
              rw [hv, hws] at h
              cases h
              exact .cons hv (ih hws)

theorem Shows.mapM_eq (h : Shows rules vs) : rules.mapM shownRule = .ok vs := by
  induction h with
  | nil => rfl
  | cons hv h ih =>
      rw [List.mapM_cons, hv, ih]
      rfl

theorem Shows.exists_dict (h : Shows rules vs) :
    ∀ rule ∈ rules, ∃ entries, rule.tree = .dict entries := by
  induction h with
  | nil => exact List.forall_mem_nil _
  | @cons rule v rules vs hv h ih =>
      refine List.forall_mem_cons.mpr ⟨?_, ih⟩
      unfold shownRule at hv
      split at hv
      · rename_i entries htree
        exact ⟨entries, htree⟩
      · cases hv

theorem shownRules_eq_ok_iff : shownRules rules = .ok vs ↔ Shows rules vs := by
  constructor
  · intro h
    unfold shownRules at h
    dsimp only at h
    split at h
    · exact shows_of_mapM h
    · cases h
  · intro h
    rw [← h.mapM_eq]
    refine if_pos (List.all_eq_true.mpr fun rule hrule => ?_)
    obtain ⟨entries, hentries⟩ := h.exists_dict rule hrule
    rw [hentries]

/-- The ids that are shown are those of the rules. -/
theorem Shows.ids (h : Shows rules vs) :
    vs.map (·.field? "id") = (rules.map (·.id)).map fun id => some (.ofString id) := by
  induction h with
  | nil => rfl
  | cons hv h ih => rw [List.map_cons, List.map_cons, List.map_cons, shownRule_id hv, ih]

end

end Service

/-- The status of the answer to a request for a page of a book. -/
def Book.pageStatus (book : Book) (size n : Nat) : Nat :=
  if Check.hasTooManyDigits (n * size) || Check.hasTooManyDigits size then 422
  else Service.windowStatus book (.good (↑(n * size), ↑size))

theorem Book.window_natCast {book : Book} (hrows : book.rows = book.rules) (skip limit : Nat) :
    book.window skip limit = (book.rules.drop skip).take limit := by
  simp only [window, Int.toNat_natCast, hrows]
  exact if_neg (by omega)

/-- A window that is full stays as it is while the book grows. -/
theorem take_drop_eq_of_full {α : Type} {l l' : List α} {a k : Nat} (h : l <+: l')
    (hfull : ((l.drop a).take k).length = k) : (l'.drop a).take k = (l.drop a).take k := by
  obtain ⟨more, rfl⟩ := h
  rw [List.length_take, List.length_drop] at hfull
  rw [List.drop_append, List.take_append_of_le_length]
  rw [List.length_drop]
  omega

namespace Exchange
open Service

/-- The request is for a page: its query has, in decimal digits, how many rules stand on the pages
before and how many stand on a page. -/
structure AsksPage (e : Exchange) (size n : Nat) : Prop where
  destination : e.destination = .action (.listRules [])
  skip : (Target.ofText e.request.target).parameter? "skip" = some (n * size).repr
  limit : (Target.ofText e.request.target).parameter? "limit" = some size.repr

/-- The answer is a list of values. -/
structure Lists (e : Exchange) (vs : List Value) : Prop where
  status : e.response.status = 200
  items : e.response.items? = some vs

theorem checkWindowPart_repr {t : Target} {name : String} {n : Nat} (default : Int)
    (h : t.parameter? name = some n.repr) : checkWindowPart t [] name default =
      if Check.hasTooManyDigits n then
        .bad [⟨.integerTooLarge, [.name "query", .name name], .ofString n.repr⟩]
      else .good n := by
  have hfind : Http.Binding.find? [] name = none := rfl
  simp only [checkWindowPart, hfind, h, Option.map_some, Check.optional, Check.integer_repr]
  split <;> rfl

section
variable {e : Exchange} {size n : Nat} {book : Book}

theorem AsksPage.window_eq (h : e.AsksPage size n)
    (hdigits : (Check.hasTooManyDigits (n * size) || Check.hasTooManyDigits size) = false) :
    e.window = .good (↑(n * size), ↑size) := by
  rw [Bool.or_eq_false_iff] at hdigits
  rw [window, askedWindow, checkWindowPart_repr 0 h.skip, checkWindowPart_repr 100 h.limit,
    hdigits.1, hdigits.2]
  rfl

theorem AsksPage.status_eq (h : e.AsksPage size n) (hacts : e.Acts (.listRules []))
    (hsound : e.before.IsSound) (hb : e.before.database.book = some book)
    (hplain : ∀ rule ∈ book.rules, rule.text.IsPlain) :
    e.response.status = book.pageStatus size n := by
  rw [status_listed hacts hsound rfl hb hplain, Book.pageStatus]
  cases hdigits : Check.hasTooManyDigits (n * size) || Check.hasTooManyDigits size with
  | true =>
      rw [if_pos rfl, window, askedWindow, checkWindowPart_repr 0 h.skip,
        checkWindowPart_repr 100 h.limit]
      rcases Bool.or_eq_true_iff.mp hdigits with hskip | hlimit
      · rw [hskip]
        cases Check.hasTooManyDigits size <;> rfl
      · rw [hlimit]
        cases Check.hasTooManyDigits (n * size) <;> rfl
  | false =>
      rw [h.window_eq hdigits]
      exact (if_neg Bool.false_ne_true).symm

/-- An answer that is fine lists what shows the window. -/
theorem Acts.exists_lists (hacts : e.Acts (.listRules [])) (hsound : e.before.IsSound)
    (hb : e.before.database.book = some book) (hplain : ∀ rule ∈ book.rules, rule.text.IsPlain)
    {skip limit : Int} (hwindow : e.window = .good (skip, limit)) (h200 : e.response.status = 200) :
    ∃ vs, Shows (book.window skip limit) vs ∧ e.response.items? = some vs := by
  have hreply := reply_listRules (s := e.before.settings) (r := e.request.capitalised)
    (t := Target.ofText e.request.target) hsound.ready hb []
  unfold window at hwindow
  rw [hwindow] at hreply
  simp only [windowReply] at hreply
  split at hreply
  · have hrules : ∀ rule ∈ book.window skip limit,
        rule.IsSound e.before.settings.maxRuleLength ∧ rule.text.IsPlain := by
      intro rule hrule
      have hmem := Book.mem_of_mem_window hrule
      exact ⟨(hsound.rules book hb).rules rule hmem, hplain rule hmem⟩
    rcases shownRules_cases hrules with ⟨-, crash, hcrash⟩ | ⟨-, vs, hvs, hsendable⟩
    · rw [hcrash] at hreply
      cases h200.symm.trans (hacts.status_of_crash hreply)
    · rw [hvs] at hreply
      have hget : e.request.capitalised.method = "GET" := List.mem_singleton.mp hacts.method
      have hbody := hacts.body_eq_of_reply (by simp [hget]) hreply
        ((Value.IsSendable.list hsendable).fault?_json 200)
      refine ⟨vs, shownRules_eq_ok_iff.mp hvs, ?_⟩
      rw [Response.items?, hbody]
      rfl
  · cases h200.symm.trans (hacts.status_of_crash hreply)

/-- A page that is answered shows its part of the book. -/
theorem AsksPage.exists_lists (h : e.AsksPage size n) (hacts : e.Acts (.listRules []))
    (hsound : e.before.IsSound) (hb : e.before.database.book = some book)
    (hplain : ∀ rule ∈ book.rules, rule.text.IsPlain) (hrows : book.rows = book.rules)
    (h200 : e.response.status = 200) :
    ∃ vs, Shows ((book.rules.drop (n * size)).take size) vs ∧ e.response.items? = some vs := by
  have hstatus := h.status_eq hacts hsound hb hplain
  rw [h200, Book.pageStatus] at hstatus
  cases hdigits : Check.hasTooManyDigits (n * size) || Check.hasTooManyDigits size with
  | true =>
      rw [hdigits] at hstatus
      cases hstatus
  | false =>
      have hlists := hacts.exists_lists hsound hb hplain (h.window_eq hdigits) h200
      rwa [Book.window_natCast hrows] at hlists

end

end Exchange

namespace Server
open Service

/-- What holds of a service in a run, whatever requests it received: it is sound, the texts of its
rules are plain, and the rules stand in the order of their creation. -/
structure IsOrderly (server : Server) : Prop where
  sound : server.IsSound
  plain : server.database.HasPlainRules
  order : server.database.IsInOrder

theorem isOrderly_start {s : Settings} {url : String} {manual : Option String}
    {source : RowSource} {ids : Log.IdSource} {fresh : Server}
    (hfresh : create s (.ofUrl url manual source) ids = .ok fresh) (hstart : fresh.start.1 = true) :
    fresh.start.2.IsOrderly where
  sound := isSound_start hfresh hstart
  plain := by
    rw [Database.HasPlainRules, book_start (book_of_create hfresh) hstart]
    rintro _ ⟨⟩
    exact List.forall_mem_nil _
  order := by
    rw [Database.IsInOrder, book_start (book_of_create hfresh) hstart]
    rintro _ ⟨⟩
    exact .nil

theorem isOrderly_after {e : Exchange} (he : e.IsAnswered) (h : e.before.IsOrderly) :
    e.after.IsOrderly where
  sound := Exchange.isSound_after he h.sound
  plain := Exchange.hasPlainRules_after he h.sound h.plain
  order := he.changes.isInOrder h.sound.ready h.order

theorem Run.isOrderly {server after : Server} {es : List Exchange} (hrun : Run server es after)
    (h : server.IsOrderly) : after.IsOrderly := by
  induction hrun with
  | nil server => exact h
  | cons he hrun ih => exact ih (isOrderly_after he h)

/-- A page is asked for, perhaps after other requests, none of which deletes a rule. -/
structure Asks (server : Server) (size n : Nat) (e : Exchange) : Prop where
  between : ∃ es, Run server es e.before ∧ ∀ f ∈ es, ∀ id, ¬ f.Deletes id
  answered : e.IsAnswered
  page : e.AsksPage size n

/-- Page after page is asked for as long as they are full. These are the pages before the last
one, and the exchange for that one. -/
inductive Paging (size : Nat) : Nat → Server → List (List Value) → Exchange → Prop
  | last {n server e} : Asks server size n e → Paging size n server [] e
  | next {n server e vs pages last} : Asks server size n e → e.Lists vs → vs.length = size →
      Paging size (n + 1) e.after pages last → Paging size n server (vs :: pages) last

section
variable {server : Server} {size n : Nat} {e last : Exchange} {pages : List (List Value)}
  {book : Book}

theorem Asks.exists_book (h : Asks server size n e) (hserver : server.IsOrderly)
    (hb : server.database.book = some book) : ∃ book', e.before.database.book = some book' ∧
      book.rules <+: book'.rules ∧ e.before.IsOrderly := by
  obtain ⟨es, hrun, hkept⟩ := h.between
  obtain ⟨book', hb', hgrows⟩ := hrun.rules_grow hserver.sound hkept hb
  exact ⟨book', hb', hgrows, hrun.isOrderly hserver⟩

theorem Paging.hasOrderedRows (h : Paging size n server pages last)
    (hrows : last.before.database.HasOrderedRows) : server.database.HasOrderedRows := by
  induction h with
  | last hasks =>
      obtain ⟨es, hrun, -⟩ := hasks.between
      exact hrun.hasOrderedRows hrows
  | next hasks hlists hfull hmore ih =>
      obtain ⟨es, hrun, -⟩ := hasks.between
      exact hrun.hasOrderedRows (hasks.answered.changes.hasOrderedRows (ih hrows))

/-- When the last page is asked for, all pages before it show the rules as they stand then. -/
theorem Paging.shows (h : Paging size n server pages last) (hserver : server.IsOrderly)
    (hrows : last.before.database.HasOrderedRows)
    (hb : server.database.book = some book) : ∃ book', last.before.database.book = some book' ∧
      book.rules <+: book'.rules ∧ last.before.IsOrderly ∧ last.IsAnswered ∧
      last.AsksPage size (n + pages.length) ∧
      Shows ((book'.rules.drop (n * size)).take (pages.length * size)) pages.flatten := by
  induction h generalizing book with
  | @last n server e hasks =>
      obtain ⟨book', hb', hgrows, horderly⟩ := hasks.exists_book hserver hb
      refine ⟨book', hb', hgrows, horderly, hasks.answered, hasks.page, ?_⟩
      rw [List.length_nil, Nat.zero_mul, List.take_zero]
      exact .nil
  | @next n server e vs pages last hasks hlists hfull hmore ih =>
      obtain ⟨book₁, hb₁, hgrows₁, horderly⟩ := hasks.exists_book hserver hb
      have hacts := Exchange.acts hasks.answered horderly.sound hasks.page.destination
      have hrows₁ := hasks.answered.changes.hasOrderedRows (hmore.hasOrderedRows hrows)
      obtain ⟨ws, hws, hitems⟩ := hasks.page.exists_lists hacts horderly.sound hb₁
        (horderly.plain book₁ hb₁) (horderly.order.rows_eq hrows₁ hb₁) hlists.status
      obtain rfl : ws = vs := Option.some.inj (hitems.symm.trans hlists.items)
      have hkept : ∀ id, ¬ e.Deletes id := by
        intro id
        exact Exchange.not_deletes_of_status (by simp [hlists.status])
      obtain ⟨book₂, hb₂, hgrows₂⟩ :=
        Exchange.rules_grow hasks.answered horderly.sound hkept hb₁
      obtain ⟨book', hb', hgrows', horderly', hanswered, hpage, hrest⟩ :=
        ih (isOrderly_after hasks.answered horderly) hrows hb₂
      have hfirst : Shows ((book'.rules.drop (n * size)).take size) ws := by
        rwa [take_drop_eq_of_full (hgrows₂.trans hgrows') (hws.length_eq.trans hfull)]
      refine ⟨book', hb', hgrows₁.trans (hgrows₂.trans hgrows'), horderly', hanswered, ?_, ?_⟩
      · rwa [List.length_cons, ← Nat.add_assoc, Nat.add_right_comm]
      · rw [Nat.succ_mul, ← List.drop_drop] at hrest
        rw [List.length_cons, List.flatten_cons, Nat.succ_mul, Nat.add_comm, List.take_add]
        exact List.rel_append hfirst hrest

end

end Server

/-- Values show the whole book of a database: each rule once, in the order of creation, in which a
listing has them too. -/
structure Book.IsListed (d : Database) (book : Book) (vs : List Value) : Prop where
  shown : Service.shownRules book.rules = .ok vs
  once : (vs.map (·.field? "id")).Nodup
  created : book.rules.Pairwise (StoredRule.Precedes d.source d.nextNumber)
  rows : book.rows = book.rules

namespace Server
open Service

theorem run_exchange {r : Request} (hsent : r.fault? = none) (server : Server) :
    Run server [server.exchange r] (server.exchange r).after :=
  .cons (isAnswered_exchange server hsent) (.nil _)

theorem asks_exchange {server after : Server} {es : List Exchange} {r : Request} {size n : Nat}
    (hrun : Run server es after) (hkept : ∀ f ∈ es, ∀ id, ¬ f.Deletes id) (hsent : r.fault? = none)
    (hpage : (after.exchange r).AsksPage size n) : server.Asks size n (after.exchange r) :=
  ⟨⟨es, hrun, hkept⟩, isAnswered_exchange after hsent, hpage⟩

theorem destination_exchange {r : Request} (hsent : r.fault? = none) (server : Server)
    (r' : Request) : (server.exchange r).after.destination r' = server.destination r' := by
  rw [destination, (isAnswered_exchange server hsent).table_after.1]
  rfl

theorem IsOrderly.isListed {server : Server} {book : Book} {vs : List Value}
    (h : server.IsOrderly) (hrows : server.database.HasOrderedRows)
    (hb : server.database.book = some book) (hvs : Shows book.rules vs) :
    book.IsListed server.database vs where
  shown := shownRules_eq_ok_iff.mpr hvs
  once := by
    rw [hvs.ids]
    refine List.Nodup.map (fun a b hab => ?_) (h.sound.rules book hb).ids
    exact Text.ofString_injective (Value.text.inj (Option.some.inj hab))
  created := h.order book hb
  rows := h.order.rows_eq hrows hb

/-- Paging in a run: page after page is asked for, with other requests in between that delete
nothing, while ids increase and times do not decrease from rule to rule. All full pages together
show what the rules that stand when the last page is asked for begin with. If that page is answered
and is not full, all pages together show all these rules. -/
theorem paging_of_run {s : Settings} {url : String} {manual : Option String} {source : RowSource}
    {ids : Log.IdSource} {fresh server : Server} {es : List Exchange}
    (hfresh : create s (.ofUrl url manual source) ids = .ok fresh)
    (hstart : fresh.start.1 = true) (hrun : Run fresh.start.2 es server) {size : Nat}
    {pages : List (List Value)} {last : Exchange} (hpaging : Paging size 0 server pages last)
    (hrows : last.before.database.HasOrderedRows) :
    ∃ book, last.before.database.book = some book ∧
      last.response.status = book.pageStatus size pages.length ∧
      shownRules (book.rules.take (pages.length * size)) = .ok pages.flatten ∧
      (last.response.status = 200 → ∃ vs, last.response.items? = some vs ∧ vs.length ≤ size ∧
        shownRules (book.rules.take ((pages.length + 1) * size)) = .ok (pages.flatten ++ vs) ∧
        (vs.length < size → book.IsListed last.before.database (pages.flatten ++ vs))) := by
  have hserver := hrun.isOrderly (isOrderly_start hfresh hstart)
  obtain ⟨start, hb⟩ := hserver.sound.ready.hasBook
  obtain ⟨book, hbook, -, horderly, hanswered, hpage, hshows⟩ := hpaging.shows hserver hrows hb
  have hacts := Exchange.acts hanswered horderly.sound hpage.destination
  have hplain := horderly.plain book hbook
  rw [Nat.zero_mul, List.drop_zero] at hshows
  rw [Nat.zero_add] at hpage
  refine ⟨book, hbook, hpage.status_eq hacts horderly.sound hbook hplain,
    shownRules_eq_ok_iff.mpr hshows, ?_⟩
  intro h200
  obtain ⟨vs, hvs, hitems⟩ := hpage.exists_lists hacts horderly.sound hbook hplain
    (horderly.order.rows_eq hrows hbook) h200
  have htake : Shows (book.rules.take ((pages.length + 1) * size)) (pages.flatten ++ vs) := by
    rw [Nat.succ_mul, List.take_add]
    exact List.rel_append hshows hvs
  have hlength : min size (book.rules.length - pages.length * size) = vs.length := by
    rw [← hvs.length_eq, List.length_take, List.length_drop]
  refine ⟨vs, hitems, by omega, shownRules_eq_ok_iff.mpr htake, ?_⟩
  intro hshort
  -- a page that is not full is where the book ends
  have hend : book.rules.length ≤ (pages.length + 1) * size := by
    rw [Nat.succ_mul]
    omega
  rw [List.take_of_length_le hend] at htake
  exact horderly.isListed hrows hbook htake

/-- Two rules stand on a page, and the next page shows a third, created in between. -/
theorem paging_of_third_rule :
    let post := toRules "POST" "" "\x7b\"rule\": \"x > 1\"\x7d"
    let first := inMemory.start.2.exchange post
    let second := first.after.exchange post
    let ask := toRules "GET" "?skip=0&limit=2" ""
    let page := second.after.exchange ask
    let third := page.after.exchange post
    let askNext := toRules "GET" "?skip=2&limit=2" ""
    let last := third.after.exchange askNext
    ∃ vs ws book, page.Lists vs ∧ vs.length = 2 ∧ last.Lists ws ∧ ws.length = 1 ∧
      last.before.database.book = some book ∧ book.IsListed last.before.database (vs ++ ws) := by
  intro post first second ask page third askNext last
  have hpost : post.fault? = none := by decide +kernel
  have hask : ask.fault? = none := by decide +kernel
  have haskNext : askNext.fault? = none := by decide +kernel
  obtain ⟨hstatus, hvs, hthird, hnumber, hstatusNext, hws⟩ : page.response.status = 200 ∧
      page.response.items?.map List.length = some 2 ∧ third.response.status = 201 ∧
      last.before.database.nextNumber = 4 ∧ last.response.status = 200 ∧
      last.response.items?.map List.length = some 1 := by
    decide +kernel
  obtain ⟨vs, hvs, hfull⟩ := Option.map_eq_some_iff.mp hvs
  obtain ⟨ws, hws, hshort⟩ := Option.map_eq_some_iff.mp hws
  have hpage : page.AsksPage 2 0 := by
    refine ⟨?_, by decide +kernel, by decide +kernel⟩
    change second.after.destination ask = _
    rw [destination_exchange hpost, destination_exchange hpost]
    decide +kernel
  have hlast : last.AsksPage 2 1 := by
    refine ⟨?_, by decide +kernel, by decide +kernel⟩
    change third.after.destination askNext = _
    rw [destination_exchange hpost, destination_exchange hask, destination_exchange hpost,
      destination_exchange hpost]
    decide +kernel
  have hkept : ∀ f ∈ [third], ∀ id, ¬ f.Deletes id := by
    rw [List.forall_mem_singleton]
    intro id
    exact Exchange.not_deletes_of_status (by simp [hthird])
  have hasks : second.after.Asks 2 0 page := asks_exchange (.nil _) (by simp) hask hpage
  have hasksNext : page.after.Asks 2 1 last :=
    asks_exchange (run_exchange hpost page.after) hkept haskNext hlast
  have hpaging : Paging 2 0 second.after [vs] last :=
    .next hasks ⟨hstatus, hvs⟩ hfull (.last hasksNext)
  have hbefore : Run inMemory.start.2 [first, second] second.after :=
    .cons (isAnswered_exchange inMemory.start.2 hpost) (run_exchange hpost first.after)
  have hrun : Run inMemory.start.2 [first, second, page, third] last.before :=
    .cons (isAnswered_exchange inMemory.start.2 hpost)
      (.cons (isAnswered_exchange first.after hpost)
        (.cons hasks.answered (run_exchange hpost page.after)))
  have hsource : last.before.database.source = .counting :=
    hrun.source.trans (source_of_create create_inMemory)
  have hrows : last.before.database.HasOrderedRows := by
    rw [Database.HasOrderedRows, hsource, hnumber]
    exact ⟨by decide +kernel, by decide +kernel⟩
  obtain ⟨book, hb, -, -, hanswered⟩ :=
    paging_of_run create_inMemory (by decide +kernel) hbefore hpaging hrows
  obtain ⟨ws', hws', -, -, hlisted⟩ := hanswered hstatusNext
  obtain rfl : ws' = ws := Option.some.inj (hws'.symm.trans hws)
  rw [List.flatten_singleton] at hlisted
  exact ⟨vs, ws', book, ⟨hstatus, hvs⟩, hfull, ⟨hstatusNext, hws⟩, hshort, hb,
    hlisted (by omega)⟩

end Server

end Rulebook
