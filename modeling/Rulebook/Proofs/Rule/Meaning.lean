import Rulebook.Rule.Verdict

/-!
The recursive meaning of trees. Deciding a tree with joins that wait on a stack gives the verdict
of the recursion, with the same lookups in the same order.
-/

namespace Rulebook

/-- The verdict `v`, and only if it comes out as `b` the verdict `w` after it. -/
def Verdict.thenIf (v : Verdict) (b : Bool) (w : Verdict) : Verdict :=
  match v.result with
  | .ok side => if side = b then ⟨w.result, v.lookups ++ w.lookups⟩ else v
  | .error _ => v

/-- The verdict of a tree by recursion. `AND` decides its right side only after a true left one,
`OR` only after a false one; a comparison looks up its field, and all else is false. -/
def Tree.meaning (record : Value) : Tree → Verdict
  | .leaf c => ⟨c.holds record, [c.field]⟩
  | .join w left right =>
    if w = "AND" then (left.meaning record).thenIf true (right.meaning record)
    else if w = "OR" then (left.meaning record).thenIf false (right.meaning record)
    else ⟨.ok false, []⟩
  | .hole => ⟨.ok false, []⟩
  | .foreign => ⟨.ok false, []⟩

/-- The side that leaves a join to its other side. -/
def Connective.neutral : Connective → Bool
  | .and => true
  | .or => false

theorem Connective.isSettledBy_eq (c : Connective) (side : Bool) :
    c.isSettledBy side = !decide (side = c.neutral) := by
  cases c <;> cases side <;> rfl

/-- A verdict with lookups before its own. -/
def Verdict.after (seen : List Text) (v : Verdict) : Verdict := ⟨v.result, seen ++ v.lookups⟩

/-- What the joins that wait make of the verdict on a side. -/
def Verdict.through (record : Value) (v : Verdict) : List WaitingJoin → Verdict
  | [] => v
  | j :: waiting =>
    (if j.rightTaken then v
      else v.thenIf j.connective.neutral (j.right.meaning record)).through record waiting

section
variable {record : Value} {w : Text} {l r : Tree}

theorem Tree.meaning_join {c : Connective} (h : Connective.ofWord? w = some c) :
    (Tree.join w l r).meaning record =
      (l.meaning record).thenIf c.neutral (r.meaning record) := by
  unfold Connective.ofWord? at h
  rw [meaning]
  by_cases ha : w = "AND"
  · rw [if_pos ha] at h ⊢
    obtain rfl := Option.some.inj h
    rfl
  · rw [if_neg ha] at h ⊢
    by_cases ho : w = "OR"
    · rw [if_pos ho] at h ⊢
      obtain rfl := Option.some.inj h
      rfl
    · rw [if_neg ho] at h
      cases h

theorem Tree.meaning_unknown (h : Connective.ofWord? w = none) :
    (Tree.join w l r).meaning record = ⟨.ok false, []⟩ := by
  unfold Connective.ofWord? at h
  rw [meaning]
  split at h
  · cases h
  · rename_i ha
    split at h
    · cases h
    · rename_i ho
      rw [if_neg ha, if_neg ho]

/-- Going down to the first atom only puts joins on the stack that its verdict goes through. -/
theorem descend_through (t : Tree) (waiting : List WaitingJoin) :
    (atomVerdict record (descend t waiting).1).through record (descend t waiting).2 =
      (t.meaning record).through record waiting := by
  induction t generalizing waiting with
  | leaf c => rfl
  | join w l r ihl ihr =>
      unfold descend
      cases h : Connective.ofWord? w with
      | some c =>
          rw [Tree.meaning_join h]
          exact ihl _
      | none =>
          rw [Tree.meaning_unknown h]
          rfl
  | hole => rfl
  | foreign => rfl

theorem Verdict.through_error {v : Verdict} {e : VerdictFailure} (h : v.result = .error e)
    (waiting : List WaitingJoin) : v.through record waiting = v := by
  induction waiting with
  | nil => rfl
  | cons j waiting ih =>
      have hstay : ∀ b w, v.thenIf b w = v := by
        intro b w
        simp only [thenIf, h]
      simp only [through, hstay, ite_self, ih]

theorem Verdict.thenIf_after (seen : List Text) (v : Verdict) (b : Bool) (w : Verdict) :
    (v.after seen).thenIf b w = (v.thenIf b w).after seen := by
  unfold thenIf after
  split
  · split <;> simp_all
  · simp_all

theorem Verdict.through_after (seen : List Text) (v : Verdict) (waiting : List WaitingJoin) :
    (v.after seen).through record waiting = (v.through record waiting).after seen := by
  induction waiting generalizing v with
  | nil => rfl
  | cons j waiting ih =>
      simp only [through]
      split
      · exact ih v
      · rw [thenIf_after, ih]

/-- A side goes through the joins that it settles, up to the right side that comes next. -/
theorem nextTurn?_through {v : Verdict} {side : Bool} (hv : v.result = .ok side)
    (waiting : List WaitingJoin) : v.through record waiting =
      match nextTurn? side waiting with
      | none => v
      | some (next, after) => ((next.meaning record).after v.lookups).through record after := by
  induction waiting with
  | nil => rfl
  | cons j waiting ih =>
      unfold nextTurn?
      by_cases hj : j.rightTaken = true
      · simp only [Verdict.through, hj, if_true, Bool.true_or, ih]
      · rw [j.connective.isSettledBy_eq]
        by_cases hs : side = j.connective.neutral
        · simp [Verdict.through, hj, Verdict.thenIf, hv, hs, Verdict.after]
        · simp [Verdict.through, hj, Verdict.thenIf, hv, hs, ih]

/-- The stack of joins decides what the recursion does, after what was seen before. -/
theorem decideFrom_eq (t : Tree) (waiting : List WaitingJoin) (seen : List Text) :
    decideFrom record t waiting seen =
      ((t.meaning record).through record waiting).after seen.reverse := by
  -- on the work that is left, whatever joins wait
  induction hn : t.weight + waitingWeight waiting using Nat.strongRecOn
    generalizing t waiting seen with
  | _ n ih =>
      rw [decideFrom, ← descend_through]
      have hweight := descend_weight_le t waiting
      generalize atomVerdict record (descend t waiting).1 = v
      cases hv : v.result with
      | error e =>
          rw [Verdict.through_error hv]
          simp [Verdict.after, hv]
      | ok side =>
          simp only
          split
          · rename_i h
            rw [nextTurn?_through hv, h]
            simp [Verdict.after, hv]
          · rename_i next after h
            have hlt := nextTurn?_weight_lt h
            rw [nextTurn?_through hv, h, ih _ (by omega) next after _ rfl]
            simp only [Verdict.through_after]
            simp [Verdict.after]

theorem decideFrom_nil (t : Tree) (record : Value) :
    decideFrom record t [] [] = t.meaning record := by
  rw [decideFrom_eq]
  rfl

theorem Tree.decideOn_leaf (c : Comparison) :
    (Tree.leaf c).decideOn record = ⟨c.holds record, [c.field]⟩ :=
  decideFrom_nil (.leaf c) record

/-- A known join decides its right side only after a left side that does not settle it. -/
theorem Tree.decideOn_join {c : Connective} (h : Connective.ofWord? w = some c) :
    (Tree.join w l r).decideOn record =
      (l.decideOn record).thenIf c.neutral (r.decideOn record) := by
  unfold decideOn
  rw [decideFrom_nil, decideFrom_nil, decideFrom_nil, Tree.meaning_join h]

theorem Tree.decideOn_unknown (h : Connective.ofWord? w = none) :
    (Tree.join w l r).decideOn record = ⟨.ok false, []⟩ := by
  unfold decideOn
  rw [decideFrom_nil, Tree.meaning_unknown h]

theorem Tree.decideOn_hole : Tree.hole.decideOn record = ⟨.ok false, []⟩ :=
  decideFrom_nil .hole record

theorem Tree.decideOn_foreign : Tree.foreign.decideOn record = ⟨.ok false, []⟩ :=
  decideFrom_nil .foreign record

end

/-- Deciding a tree is its recursive meaning: the same result or failure, and the same lookups in
the same order. -/
theorem Tree.decideOn_eq_meaning (t : Tree) (record : Value) :
    t.decideOn record = t.meaning record :=
  decideFrom_nil t record

end Rulebook
