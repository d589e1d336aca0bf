import Rulebook.Proofs.Number.Range
import Rulebook.Proofs.Rule.Meaning

/-!
When a decision is given up. The one failure is an ordering that is asked of an integer beyond the
doubles; everything else that cannot be compared does not match.
-/

namespace Rulebook

/-- A comparison whose comparator is none of the two for equality. -/
structure Comparison.Orders (c : Comparison) : Prop where
  not_equal : Comparator.ofSymbol? c.comparator ≠ some .eq
  not_unequal : Comparator.ofSymbol? c.comparator ≠ some .ne

/-- A comparison that has to order an integer which rounds to no finite double. -/
structure Comparison.Overflows (record : Value) (c : Comparison) : Prop where
  orders : c.Orders
  unquoted : c.isQuoted = false
  beyond : ∃ n, record.field? c.field = some (.int n) ∧ 2 ^ 1024 - 2 ^ 970 ≤ n.natAbs

/-- A comparison that cannot be made: there is no value, or there are no two numbers in order, or
no such comparator. -/
inductive Comparison.Incomparable (record : Value) (c : Comparison) : Prop
  | absent : record.field? c.field = none → Incomparable record c
  | null : record.field? c.field = some .null → Incomparable record c
  | quoted : c.Orders → c.isQuoted = true → Incomparable record c
  | field {v} : c.Orders → record.field? c.field = some v →
      v.number? = .ok none ∨ v.number? = .ok (some .nan) → Incomparable record c
  | literal : c.Orders → textNumber? c.unquoted = none ∨ textNumber? c.unquoted = some .nan →
      Incomparable record c
  | comparator : Comparator.isSymbol c.comparator = false → Incomparable record c

/-- A tree that cannot be compared: a comparison of this kind or a damaged tree. -/
inductive Tree.Incomparable (record : Value) : Tree → Prop
  | leaf {c} : c.Incomparable record → Incomparable record (.leaf c)
  | join {w l r} : Connective.ofWord? w = none → Incomparable record (.join w l r)
  | hole : Incomparable record .hole
  | foreign : Incomparable record .foreign

/-- The comparisons that a decision comes to: those of a right side only if the left side is decided
and leaves the join open. -/
inductive Tree.Reaches (record : Value) : Tree → Comparison → Prop
  | leaf (c) : Reaches record (.leaf c) c
  | left {w k l r c} : Connective.ofWord? w = some k → Reaches record l c →
      Reaches record (.join w l r) c
  | right {w k l r c} : Connective.ofWord? w = some k →
      (l.decideOn record).result = .ok k.neutral → Reaches record r c →
      Reaches record (.join w l r) c

theorem Value.number?_eq_error_iff {v : Value} {e : VerdictFailure} :
    v.number? = .error e ↔ ∃ n, v = .int n ∧ 2 ^ 1024 - 2 ^ 970 ≤ n.natAbs := by
  cases v with
  | int n =>
      simp only [number?, Value.int.injEq, exists_eq_left', ← Double.ofInt?_eq_none_iff]
      cases h : Double.ofInt? n with
      | none =>
          cases e
          simp [integerNumber]
      | some x => simp [integerNumber]
  | null | bool b | real x | text s | list items | dict entries => simp [number?]

namespace Comparison
variable {record v : Value} {c : Comparison} {e : VerdictFailure}

theorem Orders.holdsOf_eq (h : c.Orders) (v : Value) :
    c.holdsOf v = if c.isQuoted then .ok false else c.ordered v := by
  unfold holdsOf
  split
  · exact absurd ‹_› h.not_equal
  · exact absurd ‹_› h.not_unequal
  · rfl

theorem ordered_eq_error_iff : c.ordered v = .error e ↔ v.number? = .error e := by
  unfold ordered
  split
  · simp_all
  · simp_all
  · split <;> simp_all

theorem holdsOf_eq_error_iff :
    c.holdsOf v = .error e ↔ c.Orders ∧ c.isQuoted = false ∧ v.number? = .error e := by
  constructor
  · intro h
    have ho : c.Orders := by
      constructor <;> intro hc <;> simp [holdsOf, hc] at h
    rw [ho.holdsOf_eq] at h
    cases hq : c.isQuoted with
    | true => simp [hq] at h
    | false =>
        rw [hq, if_neg nofun, ordered_eq_error_iff] at h
        exact ⟨ho, rfl, h⟩
  · rintro ⟨ho, hq, hv⟩
    rw [ho.holdsOf_eq, hq, if_neg nofun, ordered_eq_error_iff]
    exact hv

theorem holds_of_field (hv : record.field? c.field = some v) (hnull : v ≠ .null) :
    c.holds record = c.holdsOf v := by
  unfold holds
  rw [hv]
  cases v with
  | null => exact absurd rfl hnull
  | _ => rfl

theorem holds_of_absent (h : ¬ ∃ v, record.field? c.field = some v ∧ v ≠ .null) :
    c.holds record = .ok false := by
  unfold holds
  cases hv : record.field? c.field with
  | none => rfl
  | some v =>
      cases v with
      | null => rfl
      | _ => exact absurd ⟨_, hv, nofun⟩ h

/-- A comparison is given up exactly if it overflows. -/
theorem holds_eq_error_iff : c.holds record = .error e ↔ c.Overflows record := by
  constructor
  · intro h
    cases hv : record.field? c.field with
    | none => simp [holds, hv] at h
    | some v =>
        by_cases hnull : v = .null
        · subst hnull
          simp [holds, hv] at h
        · rw [holds_of_field hv hnull, holdsOf_eq_error_iff, Value.number?_eq_error_iff] at h
          obtain ⟨ho, hq, n, rfl, hn⟩ := h
          exact ⟨ho, hq, n, hv, hn⟩
  · rintro ⟨ho, hq, n, hv, hn⟩
    rw [holds_of_field hv nofun, holdsOf_eq_error_iff, Value.number?_eq_error_iff]
    exact ⟨ho, hq, n, rfl, hn⟩

/-- An ordering does not match if no two numbers are in order, unless it is given up. -/
theorem Orders.holdsOf_eq_false (ho : c.Orders) (hmade : ∀ e, c.holdsOf v ≠ .error e)
    (h : ∀ x y, v.number? = .ok (some x) → textNumber? c.unquoted = some y →
      Comparator.orders (Comparator.ofSymbol? c.comparator) x y = false) :
    c.holdsOf v = .ok false := by
  rw [ho.holdsOf_eq] at hmade ⊢
  split
  · rfl
  · rename_i hq
    rw [if_neg hq] at hmade
    have hnumber : ∀ e, v.number? ≠ .error e := fun e he => hmade e (ordered_eq_error_iff.mpr he)
    unfold ordered
    split
    · exact absurd ‹_› (hnumber _)
    · rfl
    · split
      · rfl
      · rw [h _ _ ‹_› ‹_›]

end Comparison

@[simp] theorem Double.nan_lt (x : Double) : Double.nan.lt x = false := rfl

@[simp] theorem Double.nan_le (x : Double) : Double.nan.le x = false := rfl

@[simp] theorem Double.lt_nan (x : Double) : x.lt .nan = false := by
  unfold lt
  cases x.rank? <;> rfl

@[simp] theorem Double.le_nan (x : Double) : x.le .nan = false := by
  unfold le
  cases x.rank? <;> rfl

theorem Comparator.orders_nan (c : Option Comparator) {x y : Double} (h : x = .nan ∨ y = .nan) :
    Comparator.orders c x y = false := by
  rcases h with rfl | rfl
  · rcases c with _ | c
    · rfl
    · cases c <;> simp [orders]
  · rcases c with _ | c
    · rfl
    · cases c <;> simp [orders]

namespace Comparison
variable {record v : Value} {c : Comparison}

theorem orders_of_unknown (h : Comparator.ofSymbol? c.comparator = none) : c.Orders := by
  constructor <;> simp [h]

theorem Incomparable.holdsOf (h : c.Incomparable record) (hv : record.field? c.field = some v)
    (hnull : v ≠ .null) (hmade : ∀ e, c.holdsOf v ≠ .error e) : c.holdsOf v = .ok false := by
  cases h with
  | absent hf =>
      rw [hv] at hf
      cases hf
  | null hf =>
      rw [hv] at hf
      exact absurd (Option.some.inj hf) hnull
  | quoted ho hq => rw [ho.holdsOf_eq, if_pos hq]
  | field ho hf hn =>
      obtain rfl := Option.some.inj (hv.symm.trans hf)
      refine ho.holdsOf_eq_false hmade fun x y hx hy => ?_
      rcases hn with hn | hn
      · simp [hn] at hx
      · simp only [hn, Except.ok.injEq, Option.some.injEq] at hx
        exact Comparator.orders_nan _ (.inl hx.symm)
  | literal ho hl =>
      refine ho.holdsOf_eq_false hmade fun x y hx hy => ?_
      rcases hl with hl | hl
      · simp [hl] at hy
      · exact Comparator.orders_nan _ (.inr (Option.some.inj (hy.symm.trans hl)))
  | comparator hc =>
      have hunknown := Option.not_isSome_iff_eq_none.mp (Bool.eq_false_iff.mp hc)
      refine (orders_of_unknown hunknown).holdsOf_eq_false hmade fun x y _ _ => ?_
      rw [hunknown]
      rfl

/-- What cannot be compared does not match, unless it overflows before that is seen. -/
theorem Incomparable.holds (h : c.Incomparable record) (hno : ¬ c.Overflows record) :
    c.holds record = .ok false := by
  cases hv : record.field? c.field with
  | none => simp [Comparison.holds, hv]
  | some v =>
      by_cases hnull : v = .null
      · subst hnull
        simp [Comparison.holds, hv]
      · rw [holds_of_field hv hnull]
        refine h.holdsOf hv hnull fun e he => hno ?_
        rw [← holds_of_field hv hnull] at he
        exact holds_eq_error_iff.mp he

end Comparison

namespace Tree
variable {record : Value} {w : Text} {t l r : Tree} {c : Comparison} {e : VerdictFailure}

theorem reaches_join_iff {k : Connective} (hw : Connective.ofWord? w = some k) :
    (join w l r).Reaches record c ↔
      l.Reaches record c ∨ (l.decideOn record).result = .ok k.neutral ∧ r.Reaches record c := by
  constructor
  · intro h
    cases h with
    | left _ hc => exact .inl hc
    | right hw' hl hc =>
        obtain rfl := Option.some.inj (hw.symm.trans hw')
        exact .inr ⟨hl, hc⟩
  · rintro (hc | ⟨hl, hc⟩)
    · exact .left hw hc
    · exact .right hw hl hc

theorem not_reaches_unknown (hw : Connective.ofWord? w = none) :
    ¬ (join w l r).Reaches record c := by
  intro h
  cases h with
  | left hw' _ => simp [hw] at hw'
  | right hw' _ _ => simp [hw] at hw'

theorem thenIf_eq_error_iff {v w : Verdict} {b : Bool} : (v.thenIf b w).result = .error e ↔
    v.result = .error e ∨ v.result = .ok b ∧ w.result = .error e := by
  unfold Verdict.thenIf
  split
  · split <;> simp_all
  · simp_all

/-- A decision is given up exactly if it comes to a comparison that overflows. -/
theorem decideOn_eq_error_iff :
    (t.decideOn record).result = .error e ↔ ∃ c, t.Reaches record c ∧ c.Overflows record := by
  induction t with
  | leaf c =>
      rw [decideOn_leaf, Comparison.holds_eq_error_iff]
      constructor
      · intro h
        exact ⟨c, .leaf c, h⟩
      · rintro ⟨d, hd, h⟩
        cases hd
        exact h
  | join w l r ihl ihr =>
      cases hw : Connective.ofWord? w with
      | some k =>
          rw [decideOn_join hw, thenIf_eq_error_iff, ihl, ihr]
          simp only [reaches_join_iff hw, or_and_right, exists_or, and_assoc, exists_and_left]
      | none =>
          rw [decideOn_unknown hw]
          constructor
          · nofun
          · rintro ⟨c, hc, -⟩
            exact absurd hc (not_reaches_unknown hw)
  | hole =>
      rw [decideOn_hole]
      constructor <;> nofun
  | foreign =>
      rw [decideOn_foreign]
      constructor <;> nofun

theorem Incomparable.decideOn (h : t.Incomparable record)
    (hno : ∀ c, t.Reaches record c → ¬ c.Overflows record) :
    (t.decideOn record).result = .ok false := by
  cases h with
  | leaf hc =>
      rw [decideOn_leaf]
      exact hc.holds (hno _ (.leaf _))
  | join hw => rw [decideOn_unknown hw]
  | hole => rw [decideOn_hole]
  | foreign => rw [decideOn_foreign]

/-- A decision comes out exactly if it comes to no comparison that overflows. What cannot be
compared is then false. -/
theorem decideOn_answers_iff (t : Tree) (record : Value) :
    ((∃ b, (t.decideOn record).result = .ok b) ↔
      ∀ c, t.Reaches record c → ¬ c.Overflows record) ∧
    (t.Incomparable record → (∀ c, t.Reaches record c → ¬ c.Overflows record) →
      (t.decideOn record).result = .ok false) := by
  refine ⟨⟨?_, ?_⟩, Incomparable.decideOn⟩
  · rintro ⟨b, hb⟩ c hc ho
    have hgiven := (decideOn_eq_error_iff (e := .integerTooLarge)).mpr ⟨c, hc, ho⟩
    rw [hb] at hgiven
    cases hgiven
  · intro hno
    cases hr : (t.decideOn record).result with
    | ok b => exact ⟨b, rfl⟩
    | error e =>
        obtain ⟨c, hc, ho⟩ := decideOn_eq_error_iff.mp hr
        exact absurd ho (hno c hc)

/-- The power of two next to the doubles overflows. -/
theorem decideOn_beyond_doubles :
    ((Tree.leaf ⟨"x", ">", "1"⟩).decideOn (.dict [(.text "x", .int (2 ^ 1024))])).result =
      .error .integerTooLarge := by
  refine decideOn_eq_error_iff.mpr ⟨_, .leaf _, ⟨by decide, by decide⟩, by decide, 2 ^ 1024, ?_, ?_⟩
  · simp [Value.field?, Value.lookup]
  · rw [Int.natAbs_pow]
    exact Nat.sub_le ..

end Tree

end Rulebook
