import Rulebook.Proofs.Rule.Literal
import Rulebook.Proofs.Text.Cutting

/-!
The comparators beside each other. On every value the six of them answer as the order of two numbers
has it, or all orderings fail; and the orderings of one field follow the order of their literals.
-/

namespace Rulebook
open Comparison (mark)

/-- What the comparison of a field with a literal comes out as. -/
def Comparator.outcome (k : Comparator) (record : Value) (f l : Text) :
    Except VerdictFailure Bool :=
  ((Tree.leaf ⟨f, k.symbol, l⟩).decideOn record).result

/-- The comparators that order. -/
def Comparator.orderings : List Comparator := [.gt, .lt, .ge, .le]

/-- A field that is there and not null. -/
def Value.HasField (record : Value) (f : Text) : Prop := ∃ v, record.field? f = some v ∧ v ≠ .null

/-- Answers of the six comparators that fit together. -/
structure Comparator.Coherent (present : Prop) (answer : Comparator → Bool) : Prop where
  absent : ¬ present → ∀ k, answer k = false
  equality : present → answer .eq = !answer .ne
  ordering : orderings.filter answer ∈ [[], [.gt, .ge], [.lt, .le], [.ge, .le]]

namespace Double

/-- Two doubles are above, below or level with each other, unless one of them is not a number. -/
theorem filter_orders (x y : Double) :
    Comparator.orderings.filter (fun k => Comparator.orders (some k) x y) ∈
      [[], [Comparator.gt, .ge], [.lt, .le], [.ge, .le]] := by
  cases hx : x.rank? with
  | none => simp [Comparator.orderings, Comparator.orders, lt, le, hx]
  | some a =>
      cases hy : y.rank? with
      | none => simp [Comparator.orderings, Comparator.orders, lt, le, hx, hy]
      | some b =>
          simp only [Comparator.orderings, Comparator.orders, lt, le, hx, hy]
          rcases lt_trichotomy a b with hlt | rfl | hgt
          · simp [List.filter, hlt, hlt.le, hlt.not_gt, hlt.not_ge]
          · simp [List.filter]
          · simp [List.filter, hgt, hgt.le, hgt.not_gt, hgt.not_ge]

theorem lt_iff {x y : Double} :
    x.lt y = true ↔ ∃ a b, x.rank? = some a ∧ y.rank? = some b ∧ a < b := by
  unfold lt
  split <;> simp_all

theorem le_iff {x y : Double} :
    x.le y = true ↔ ∃ a b, x.rank? = some a ∧ y.rank? = some b ∧ a ≤ b := by
  unfold le
  split <;> simp_all

theorem lt_of_le_of_lt {x y z : Double} (hxy : x.le y = true) (hyz : y.lt z = true) :
    x.lt z = true := by
  obtain ⟨a, b, ha, hb, hab⟩ := le_iff.mp hxy
  obtain ⟨b', c, hb', hc, hbc⟩ := lt_iff.mp hyz
  obtain rfl := Option.some.inj (hb.symm.trans hb')
  exact lt_iff.mpr ⟨a, c, ha, hc, Int.lt_of_le_of_lt hab hbc⟩

/-- What begins with a quotation mark is not a number. -/
theorem read?_mark_cons (t : Text) : read? (mark :: t) = none := by
  have hplain : joinDigits false ((mark :: t).map Text.asciiDigit) =
      (joinDigits false (t.map Text.asciiDigit)).map (mark :: ·) := rfl
  rw [read?, hplain]
  cases joinDigits false (t.map Text.asciiDigit) with
  | none => rfl
  | some plain => rfl

end Double

/-- A literal is quoted exactly if it is some text between marks. -/
theorem Comparison.isQuoted_iff {c : Comparison} :
    c.isQuoted = true ↔ ∃ v, c.literal = Text.marked v := by
  constructor
  · intro h
    simp only [isQuoted, Bool.and_eq_true, decide_eq_true_eq, beq_iff_eq] at h
    obtain ⟨⟨hlength, hfirst⟩, hlast⟩ := h
    obtain ⟨rest, hrest⟩ := List.head?_eq_some_iff.mp hfirst
    rw [hrest] at hlength hlast
    have hne : rest ≠ [] := List.ne_nil_of_length_pos (Nat.le_of_succ_le_succ hlength)
    rw [List.getLast?_cons_of_ne_nil hne] at hlast
    obtain ⟨v, rfl⟩ := List.getLast?_eq_some_iff.mp hlast
    exact ⟨v, hrest⟩
  · rintro ⟨v, hv⟩
    simp [isQuoted, hv, Text.marked, List.getLast?_cons]

theorem Comparison.ordered_eq_true_iff {c : Comparison} {v : Value} : c.ordered v = .ok true ↔
    ∃ x y, v.number? = .ok (some x) ∧ textNumber? c.unquoted = some y ∧
      Comparator.orders (Comparator.ofSymbol? c.comparator) x y = true := by
  unfold ordered
  split
  · simp_all
  · simp_all
  · split <;> simp_all

theorem textNumber?_marked (v : Text) : textNumber? (Text.marked v) = none := by
  have hblank : Text.isBlank mark = false := by decide
  have hstrip : Text.strip (Text.marked v) = Text.marked v := by
    apply Text.trimBoth_of_ends
    · rintro p hp
      obtain rfl := Option.some.inj hp
      exact hblank
    · intro p hp
      rw [Text.marked, List.getLast?_cons, List.getLast?_concat] at hp
      obtain rfl := Option.some.inj hp
      exact hblank
  rw [textNumber?, hstrip]
  exact Double.read?_mark_cons _

namespace Comparator
variable {k : Comparator} {record v : Value} {f l : Text}

theorem outcome_eq_holds : k.outcome record f l = Comparison.holds ⟨f, k.symbol, l⟩ record := by
  rw [outcome, Tree.decideOn_leaf]

theorem outcome_of_absent (h : ¬ record.HasField f) : k.outcome record f l = .ok false := by
  rw [outcome_eq_holds]
  exact Comparison.holds_of_absent h

/-- On a value that is there one of the two comparators for equality holds. -/
theorem exists_outcome_of_present (h : record.HasField f) (l : Text) :
    ∃ b, Comparator.eq.outcome record f l = .ok b ∧ Comparator.ne.outcome record f l = .ok !b := by
  obtain ⟨v, hv, hnull⟩ := h
  refine ⟨v.display == Comparison.unquoted ⟨f, Comparator.eq.symbol, l⟩, ?_, ?_⟩
  · rw [outcome_eq_holds, Comparison.holds_of_field hv hnull, Comparison.holdsOf,
      Comparator.eq.ofSymbol?_symbol]
  · rw [outcome_eq_holds, Comparison.holds_of_field hv hnull, Comparison.holdsOf,
      Comparator.ne.ofSymbol?_symbol]
    rfl

theorem orders_of_mem_orderings (hk : k ∈ orderings) (f l : Text) :
    Comparison.Orders ⟨f, k.symbol, l⟩ := by
  constructor
  · rw [k.ofSymbol?_symbol]
    rintro ⟨⟩
    exact absurd hk (by decide)
  · rw [k.ofSymbol?_symbol]
    rintro ⟨⟩
    exact absurd hk (by decide)

/-- An ordering holds exactly of two numbers that are in this order. -/
theorem outcome_eq_true_iff (hk : k ∈ orderings) : k.outcome record f l = .ok true ↔
    ∃ v x y, record.field? f = some v ∧ v.number? = .ok (some x) ∧ textNumber? l = some y ∧
      orders (some k) x y = true := by
  have horders := orders_of_mem_orderings hk f l
  constructor
  · intro h
    have hpresent : record.HasField f := by
      apply Classical.byContradiction
      intro habsent
      rw [outcome_of_absent habsent] at h
      cases h
    obtain ⟨v, hv, hnull⟩ := hpresent
    rw [outcome_eq_holds, Comparison.holds_of_field hv hnull, horders.holdsOf_eq] at h
    split at h
    · cases h
    · rename_i hquoted
      obtain ⟨x, y, hx, hy, hxy⟩ := Comparison.ordered_eq_true_iff.mp h
      rw [Comparison.unquoted, if_neg hquoted] at hy
      rw [k.ofSymbol?_symbol] at hxy
      exact ⟨v, x, y, hv, hx, hy, hxy⟩
  · rintro ⟨v, x, y, hv, hx, hy, hxy⟩
    have hnull : v ≠ .null := by
      rintro rfl
      cases hx
    have hquoted : ¬ Comparison.isQuoted ⟨f, k.symbol, l⟩ = true := by
      rw [Comparison.isQuoted_iff]
      rintro ⟨w, rfl⟩
      rw [textNumber?_marked] at hy
      cases hy
    rw [outcome_eq_holds, Comparison.holds_of_field hv hnull, horders.holdsOf_eq, if_neg hquoted,
      Comparison.ordered_eq_true_iff]
    refine ⟨x, y, hx, ?_, ?_⟩
    · rw [Comparison.unquoted, if_neg hquoted]
      exact hy
    · rw [k.ofSymbol?_symbol]
      exact hxy

/-- The orderings that hold are those of two numbers, or none. -/
theorem filter_outcomes {answer : Comparator → Bool}
    (h : ∀ k ∈ orderings, k.outcome record f l = .ok (answer k)) :
    orderings.filter answer ∈ [[], [.gt, .ge], [.lt, .le], [.ge, .le]] := by
  have hanswer : ∀ k ∈ orderings, answer k = true ↔ ∃ v x y, record.field? f = some v ∧
      v.number? = .ok (some x) ∧ textNumber? l = some y ∧ orders (some k) x y = true := by
    intro k hk
    rw [← outcome_eq_true_iff hk, h k hk, Except.ok.injEq]
  -- the two numbers are the same for all orderings, so that they are fixed before the orderings
  by_cases hnumbers : ∃ v x y, record.field? f = some v ∧ v.number? = .ok (some x) ∧
      textNumber? l = some y
  · obtain ⟨v, x, y, hv, hx, hy⟩ := hnumbers
    have horders : orderings.filter answer = orderings.filter fun k => orders (some k) x y := by
      refine List.filter_congr fun k hk => Bool.eq_iff_iff.mpr ?_
      rw [hanswer k hk]
      constructor
      · rintro ⟨v', x', y', hv', hx', hy', hxy⟩
        obtain rfl := Option.some.inj (hv.symm.trans hv')
        obtain rfl := Option.some.inj (Except.ok.inj (hx.symm.trans hx'))
        obtain rfl := Option.some.inj (hy.symm.trans hy')
        exact hxy
      · intro hxy
        exact ⟨v, x, y, hv, hx, hy, hxy⟩
    rw [horders]
    exact Double.filter_orders x y
  · have hnone : orderings.filter answer = [] := by
      refine List.filter_eq_nil_iff.mpr fun k hk htrue => hnumbers ?_
      obtain ⟨v, x, y, hv, hx, hy, -⟩ := (hanswer k hk).mp htrue
      exact ⟨v, x, y, hv, hx, hy⟩
    rw [hnone]
    exact .head _

/-- What is above a literal is above every literal that is not above this one. -/
theorem gt_of_le {holder : Value} {g l₁ l₂ : Text} (hg : holder.field? g = some (.text l₁))
    (hle : Comparator.le.outcome holder g l₂ = .ok true)
    (hgt : Comparator.gt.outcome record f l₂ = .ok true) :
    Comparator.gt.outcome record f l₁ = .ok true := by
  obtain ⟨v, x, y, hv, hx, hy, hxy⟩ := (outcome_eq_true_iff (by decide)).mp hle
  obtain ⟨w, z, y', hw, hz, hy', hyz⟩ := (outcome_eq_true_iff (by decide)).mp hgt
  obtain rfl := Option.some.inj (hg.symm.trans hv)
  obtain rfl := Option.some.inj (hy.symm.trans hy')
  exact (outcome_eq_true_iff (by decide)).mpr
    ⟨w, z, x, hw, hz, Except.ok.inj hx, Double.lt_of_le_of_lt hxy hyz⟩

/-- The six comparators fit together on every value and every literal: nothing matches what is
absent, equality and inequality exclude each other on what is there, and the orderings are those of
two numbers or fail together. A field that is above a literal is above every smaller one. -/
theorem outcomes_coherent (record : Value) (f : Text) :
    (∀ (l : Text) (answer : Comparator → Bool),
      (∀ k : Comparator, k.outcome record f l = .ok (answer k)) →
      Coherent (record.HasField f) answer) ∧
    ∀ (holder : Value) (g l₁ l₂ : Text), holder.field? g = some (.text l₁) →
      Comparator.le.outcome holder g l₂ = .ok true →
      Comparator.gt.outcome record f l₂ = .ok true →
      Comparator.gt.outcome record f l₁ = .ok true := by
  constructor
  · intro l answer h
    constructor
    · intro habsent k
      have hfalse := outcome_of_absent (k := k) (l := l) habsent
      rw [h k] at hfalse
      exact Except.ok.inj hfalse
    · intro hpresent
      obtain ⟨b, heq, hne⟩ := exists_outcome_of_present hpresent l
      rw [h] at heq hne
      rw [Except.ok.inj heq, Except.ok.inj hne, Bool.not_not]
    · exact filter_outcomes fun k _ => h k
  · intro holder g l₁ l₂ hg hle hgt
    exact gt_of_le hg hle hgt

/-- An integer and its scientific spelling are level, but differ as texts. -/
theorem outcomes_coherent_of_level :
    let record := Value.object [("age", .int 30)]
    let holder := Value.object [("least", .ofString " -7 ")]
    let answer : Comparator → Bool := fun k => k ∈ [Comparator.ne, .ge, .le]
    (∀ k : Comparator, k.outcome record "age" "3e1" = .ok (answer k)) ∧
      Coherent (record.HasField "age") answer ∧
      Comparator.le.outcome holder "least" "2.5" = .ok true ∧
      Comparator.gt.outcome record "age" "2.5" = .ok true ∧
      Comparator.gt.outcome record "age" " -7 " = .ok true := by
  intro record holder answer
  have hanswer : ∀ k : Comparator, k.outcome record "age" "3e1" = .ok (answer k) := by
    intro k
    rw [outcome_eq_holds]
    cases k <;> decide +kernel
  have hle : Comparator.le.outcome holder "least" "2.5" = .ok true := by
    rw [outcome_eq_holds]
    decide +kernel
  have hgt : Comparator.gt.outcome record "age" "2.5" = .ok true := by
    rw [outcome_eq_holds]
    decide +kernel
  obtain ⟨hcoherent, horder⟩ := outcomes_coherent record "age"
  exact ⟨hanswer, hcoherent _ _ hanswer, hle, hgt, horder holder "least" " -7 " "2.5" rfl hle hgt⟩

end Comparator

end Rulebook
