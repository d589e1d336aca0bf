import Rulebook.Proofs.Rule.Meaning

/-!
What a verdict depends on. Records that agree on the fields that were looked up get the same
verdict, and the fields are looked up in the order in which a walk over the tree comes to them.
-/

namespace Rulebook

/-- Two records have the same under each of these fields, or both have nothing there. -/
def Value.AgreesOn (fields : List Text) (record other : Value) : Prop :=
  ∀ field ∈ fields, other.field? field = record.field? field

/-- The size of the trees on a stack. -/
def stackWeight : List Tree → Nat
  | [] => 0
  | t :: stack => t.weight + stackWeight stack

/-- The comparisons of trees on a stack. The tree on top is taken off, and the sides of a join are
put back, the left one on top. -/
def stackedComparisons : List Tree → List Comparison
  | [] => []
  | .leaf c :: stack => c :: stackedComparisons stack
  | .join _ left right :: stack => stackedComparisons (left :: right :: stack)
  | .hole :: stack => stackedComparisons stack
  | .foreign :: stack => stackedComparisons stack
termination_by stack => stackWeight stack
decreasing_by
  all_goals
    simp only [stackWeight, Tree.weight]
    omega

theorem stackedComparisons_eq (stack : List Tree) :
    stackedComparisons stack = stack.flatMap Tree.comparisons := by
  fun_induction stackedComparisons stack with
  | case1 => rfl
  | case2 c stack ih => rw [ih, List.flatMap_cons, Tree.comparisons, List.singleton_append]
  | case3 w left right stack ih =>
      rw [ih, List.flatMap_cons, List.flatMap_cons, List.flatMap_cons, Tree.comparisons,
        List.append_assoc]
  | case4 stack ih | case5 stack ih => rw [ih, List.flatMap_cons, Tree.comparisons, List.nil_append]

section
variable {v w : Verdict} {b : Bool} {record other : Value} {c : Comparison} {t : Tree}

theorem Verdict.thenIf_of_eq (h : v.result = .ok b) :
    v.thenIf b w = ⟨w.result, v.lookups ++ w.lookups⟩ := by
  rw [thenIf, h]
  exact if_pos rfl

theorem Verdict.thenIf_of_ne (h : v.result ≠ .ok b) : v.thenIf b w = v := by
  unfold thenIf
  split
  · rename_i side hside
    rw [if_neg]
    rintro rfl
    exact h hside
  · rfl

theorem Comparison.holds_congr (h : other.field? c.field = record.field? c.field) :
    c.holds other = c.holds record := by
  rw [holds, holds, h]

namespace Tree

/-- A record that agrees on the fields that were looked up takes every turn that the other took. -/
theorem decideOn_congr (h : record.AgreesOn (t.decideOn record).lookups other) :
    t.decideOn other = t.decideOn record := by
  induction t with
  | leaf c =>
      rw [decideOn_leaf] at h
      have hfield : other.field? c.field = record.field? c.field :=
        h c.field (List.mem_singleton_self _)
      rw [decideOn_leaf, decideOn_leaf, Comparison.holds_congr hfield]
  | join w l r ihl ihr =>
      cases hw : Connective.ofWord? w with
      | none => rw [decideOn_unknown hw, decideOn_unknown hw]
      | some k =>
          rw [decideOn_join hw] at h
          rw [decideOn_join hw, decideOn_join hw]
          by_cases hopen : (l.decideOn record).result = .ok k.neutral
          · rw [Verdict.thenIf_of_eq hopen] at h
            obtain ⟨hl, hr⟩ := List.forall_mem_append.mp h
            rw [ihl hl, ihr hr]
          · -- the left side settles the join in both runs
            rw [Verdict.thenIf_of_ne hopen] at h
            rw [ihl h, Verdict.thenIf_of_ne hopen, Verdict.thenIf_of_ne hopen]
  | hole => rw [decideOn_hole, decideOn_hole]
  | foreign => rw [decideOn_foreign, decideOn_foreign]

/-- Fields are looked up from left to right; those of a side that is not taken are left out. -/
theorem lookups_sublist (t : Tree) (record : Value) :
    (t.decideOn record).lookups.Sublist (t.comparisons.map Comparison.field) := by
  induction t with
  | leaf c =>
      rw [decideOn_leaf]
      exact List.Sublist.refl _
  | join w l r ihl ihr =>
      rw [comparisons, List.map_append]
      cases hw : Connective.ofWord? w with
      | none =>
          rw [decideOn_unknown hw]
          exact List.nil_sublist _
      | some k =>
          rw [decideOn_join hw]
          by_cases hopen : (l.decideOn record).result = .ok k.neutral
          · rw [Verdict.thenIf_of_eq hopen]
            exact ihl.append ihr
          · rw [Verdict.thenIf_of_ne hopen]
            exact ihl.trans (List.sublist_append_left _ _)
  | hole =>
      rw [decideOn_hole]
      exact List.nil_sublist _
  | foreign =>
      rw [decideOn_foreign]
      exact List.nil_sublist _

end Tree

end

/-- A verdict depends only on the fields that it looked up: a record that agrees on them gets the
same result or failure with the same lookups. These fields are among those of the comparisons, in
the order of a walk over the tree from left to right. -/
theorem Tree.verdict_depends_on_lookups (t : Tree) (record : Value) :
    (∀ other, record.AgreesOn (t.decideOn record).lookups other →
        (t.decideOn other).result = (t.decideOn record).result ∧
          (t.decideOn other).lookups = (t.decideOn record).lookups) ∧
      (t.decideOn record).lookups.Sublist ((stackedComparisons [t]).map Comparison.field) ∧
      stackedComparisons [t] = t.comparisons := by
  have hwalk : stackedComparisons [t] = t.comparisons := by
    rw [stackedComparisons_eq, List.flatMap_singleton]
  refine ⟨?_, ?_, hwalk⟩
  · intro other hagrees
    rw [decideOn_congr hagrees]
    exact ⟨rfl, rfl⟩
  · rw [hwalk]
    exact t.lookups_sublist record

/-- The left side settles the join, so that it does not matter what the right side compares. -/
theorem Tree.verdict_of_settled_join :
    let t := join "OR" (leaf ⟨"a", "=", "5"⟩) (leaf ⟨"b", ">", "2"⟩)
    let record := Value.object [("a", .int 5), ("b", .int 10)]
    let other := Value.object [("b", .null), ("a", .int 5)]
    record.AgreesOn (t.decideOn record).lookups other ∧
      (t.decideOn other).result = (t.decideOn record).result ∧
      (t.decideOn record).lookups = [Text.ofString "a"] := by
  intro t record other
  have hlookups : (t.decideOn record).lookups = [Text.ofString "a"] := by
    unfold Tree.decideOn
    rw [decideFrom_nil]
    decide
  have hagrees : record.AgreesOn (t.decideOn record).lookups other := by
    rw [hlookups]
    exact List.forall_mem_singleton.mpr rfl
  exact ⟨hagrees, ((t.verdict_depends_on_lookups record).1 other hagrees).1, hlookups⟩

end Rulebook
