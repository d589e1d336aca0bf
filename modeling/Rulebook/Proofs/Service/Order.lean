import Mathlib.Data.List.Basic
import Rulebook.Proofs.Service.Lifecycle

/-!
The order of stored rules. A new rule is stored behind all others and under a larger number, and
rules change their places only when one of them is deleted. If ids and times follow the numbers, a
listing has the rules in that order.
-/

namespace Rulebook

/-- One rule was created before another: its number is smaller. -/
def StoredRule.Precedes (source : RowSource) (used : Nat) (a b : StoredRule) : Prop :=
  ∃ m n, m < n ∧ n < used ∧ a.IsNumbered source m ∧ b.IsNumbered source n

/-- Ids increase, and times do not decrease, up to a number. -/
structure RowSource.IsOrdered (source : RowSource) (used : Nat) : Prop where
  ids : ∀ n < used, ∀ m < n, source.idAt m < source.idAt n
  times : ∀ n < used, ∀ m < n, source.timeAt m ≤ source.timeAt n

theorem RowSource.IsOrdered.of_le {source : RowSource} {m n : Nat} (h : source.IsOrdered n)
    (hle : m ≤ n) : source.IsOrdered m where
  ids j hj := h.ids j (hj.trans_le hle)
  times j hj := h.times j (hj.trans_le hle)

namespace Database
variable {dest : Http.Destination} {d d' : Database}

/-- The rules in a database stand in the order of their creation. -/
def IsInOrder (d : Database) : Prop :=
  ∀ book ∈ d.book, book.rules.Pairwise (StoredRule.Precedes d.source d.nextNumber)

/-- The numbers that were used up gave increasing ids, and times that do not decrease. -/
def HasOrderedRows (d : Database) : Prop := d.source.IsOrdered d.nextNumber

theorem Changes.isInOrder (h : Changes dest d d') (hd : d.IsReady) (horder : d.IsInOrder) :
    d'.IsInOrder := by
  have hkept {d' : Database} (hk : d.Keeps d') : d'.IsInOrder := by
    unfold IsInOrder
    rwa [hk.book, hk.source, hk.nextNumber]
  have hlater {source : RowSource} {used : Nat} {a b : StoredRule} :
      a.Precedes source used b → a.Precedes source (used + 1) b := by
    rintro ⟨m, n, hlt, hn, hab⟩
    exact ⟨m, n, hlt, Nat.lt_succ_of_lt hn, hab⟩
  cases h with
  | kept hk => exact hkept hk
  | skipped hdest hk => exact fun book hb => (hkept hk book hb).imp hlater
  | @added d' book rule hdest hk hb hnumbered =>
      rintro _ ⟨⟩
      refine List.pairwise_append.mpr
        ⟨(hkept hk book hb).imp hlater, List.pairwise_singleton _ _, ?_⟩
      intro old hold new hnew
      obtain rfl := List.mem_singleton.mp hnew
      obtain ⟨m, hm, hold⟩ := (hk.isReady hd).numbered book hb old hold
      exact ⟨m, d'.nextNumber, hm, Nat.lt_succ_self _, hold, hnumbered⟩
  | removed hdest hk =>
      intro book' hbook'
      obtain ⟨book, hb, rfl⟩ := Option.map_eq_some_iff.mp hbook'
      exact (hkept hk book hb).filter _

theorem Changes.hasOrderedRows (h : Changes dest d d') (hd : d'.HasOrderedRows) :
    d.HasOrderedRows := by
  unfold HasOrderedRows at hd
  rw [h.source] at hd
  exact hd.of_le h.nextNumber_le

/-- If neither ids nor times decrease, a listing has the rules in the order of their creation. -/
theorem IsInOrder.rows_eq (h : d.IsInOrder) (hrows : d.HasOrderedRows) {book : Book}
    (hb : d.book = some book) : book.rows = book.rules := by
  refine Book.rows_eq ((h book hb).imp ?_)
  rintro a b ⟨m, n, hlt, hn, ha, hb⟩
  rw [ha.created, hb.created, ha.id, hb.id]
  exact ⟨hrows.times n hn m hlt, String.not_lt.mp (String.lt_asymm (hrows.ids n hn m hlt))⟩

end Database

namespace Exchange
open Service

/-- A request that deletes nothing leaves all rules where they are. -/
theorem rules_grow {e : Exchange} {book : Book} (he : e.IsAnswered) (hsound : e.before.IsSound)
    (hkept : ∀ id, ¬ e.Deletes id) (hb : e.before.database.book = some book) :
    ∃ book', e.after.database.book = some book' ∧ book.rules <+: book'.rules := by
  obtain ⟨book', hb', htakes⟩ := exists_takes he hsound hb
  refine ⟨book', hb', ?_⟩
  cases htakes with
  | kept hquiet => exact List.prefix_rfl
  | created => exact List.prefix_append _ _
  | left => exact List.prefix_append _ _
  | deleted hdest hf h204 => exact absurd ⟨hdest, h204⟩ (hkept _)

end Exchange

namespace Server

theorem Run.hasOrderedRows {server after : Server} {es : List Exchange} (h : Run server es after)
    (hrows : after.database.HasOrderedRows) : server.database.HasOrderedRows := by
  induction h with
  | nil server => exact hrows
  | cons he h ih => exact he.changes.hasOrderedRows (ih hrows)

theorem Run.rules_grow {server after : Server} {es : List Exchange} {book : Book}
    (h : Run server es after) (hsound : server.IsSound)
    (hkept : ∀ e ∈ es, ∀ id, ¬ e.Deletes id) (hb : server.database.book = some book) :
    ∃ book', after.database.book = some book' ∧ book.rules <+: book'.rules := by
  apply h.preserves hsound
    (I := fun s => ∃ book', s.database.book = some book' ∧ book.rules <+: book'.rules) _
    ⟨book, hb, List.prefix_rfl⟩
  rintro e hmem he hs ⟨book₁, hb₁, hgrows₁⟩
  obtain ⟨book₂, hb₂, hgrows₂⟩ := Exchange.rules_grow he hs (hkept e hmem) hb₁
  exact ⟨book₂, hb₂, hgrows₁.trans hgrows₂⟩

end Server

end Rulebook
