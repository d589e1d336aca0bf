import Rulebook.Rule.Assembly

/-!
The turns of an assembly: what it does with each kind of token, before a primary and after one,
as equations between whole runs.
-/

namespace Rulebook.Assembly

/-- The rest of a run, once a primary is complete. -/
def resume (s : Assembly) : AssemblyStep Unit :=
  match s.afterPrimary with
  | (.error e, s₁) => (.error e, s₁)
  | (.ok true, s₁) => (.ok (), s₁)
  | (.ok false, s₁) => s₁.run

theorem run_eq (s : Assembly) : s.run =
    match s.primary with
    | (.error e, s₁) => (.error e, s₁)
    | (.ok _, s₁) => s₁.resume := by
  rw [run]
  split
  · rename_i e s₁ h
    simp only [h]
  · rename_i s₁ h
    simp only [h]
    unfold resume
    split <;> simp_all

theorem primary_eq (s : Assembly) : s.primary =
    match s.kind? with
    | none => (.error .noOperand, s)
    | some .opening =>
      match s.openGroup with
      | (.error e, s₁) => (.error e, s₁)
      | (.ok _, s₁) => s₁.primary
    | some .and | some .or => s.faultAt (.missingLeft s.current.shown) s.current.position
    | some .closing => s.faultAt .unmatchedClosing s.current.position
    | some .finish => s.faultAt .noCondition s.current.position
    | some .word =>
      match s.comparison with
      | (.error e, s₁) => (.error e, s₁)
      | (.ok c, s₁) => (.ok (), { s₁ with operands := .leaf c :: s₁.operands }) := by
  rw [primary]
  split
  · rename_i hk
    simp only [hk]
  · rename_i hk
    simp only [hk]
    split <;> simp_all
  · rename_i hk
    simp only [hk]
  · rename_i hk
    simp only [hk]
  · rename_i hk
    simp only [hk]
  · rename_i hk
    simp only [hk]
  · rename_i hk
    rcases hc : s.comparison with ⟨_ | _, s₁⟩ <;> simp only [hk]

theorem afterPrimary_eq (s : Assembly) : s.afterPrimary =
    match s.kind? with
    | none => (.error .noOperand, s)
    | some .closing =>
      match s.closeGroup with
      | (.error e, s₁) => (.error e, s₁)
      | (.ok _, s₁) => s₁.afterPrimary
    | some .finish => s.complete
    | some .or => s.connect 1
    | some .and => s.connect 2
    | some .word | some .opening =>
      s.faultAt (.unexpected s.current.shown s.isGrouped) s.current.position := by
  rw [afterPrimary]
  split
  · rename_i hk
    simp only [hk]
  · rename_i hk
    simp only [hk]
    split <;> simp_all
  all_goals
    rename_i hk
    simp only [hk]

section
variable {t : Token} {ahead p p' : List Token} {os os' : List Tree} {i : Nat}

@[simp] theorem current_cons : current ⟨i, t :: ahead, p, os⟩ = t := rfl

@[simp] theorem kind?_cons : kind? ⟨i, t :: ahead, p, os⟩ = some t.kind := rfl

@[simp] theorem onCurrent_cons {α : Type} (step : Token → AssemblyStep α) :
    onCurrent ⟨i, t :: ahead, p, os⟩ step = step t := rfl

theorem precedence_bounds {q : Nat} (ht : t.kind.precedence? = some q) : 1 ≤ q ∧ q ≤ 2 := by
  cases hk : t.kind <;> simp_all [TokenKind.precedence?] <;> omega

theorem passed_cons (ht : t.kind ≠ .finish) :
    passed ⟨i, t :: ahead, p, os⟩ = ⟨i + 1, ahead, p, os⟩ := by
  simp [passed, ht]

/-- An opening parenthesis waits on the stack, unless its group is empty or never begins. -/
theorem run_opening {x : Token} (ht : t.kind = .opening) : run ⟨i, t :: x :: ahead, p, os⟩ =
    match x.kind with
    | .closing => faultAt ⟨i + 1, x :: ahead, p, os⟩ .emptyGroup t.position
    | .finish => faultAt ⟨i + 1, x :: ahead, p, os⟩ .missingClosing t.position
    | _ => run ⟨i + 1, x :: ahead, t :: p, os⟩ := by
  rw [run_eq, primary_eq]
  simp only [kind?_cons, current_cons, ht, openGroup, passed_cons (t := t) (by rw [ht]; decide),
    onCurrent_cons]
  cases hk : x.kind <;> simp only [faultAt, run_eq]

theorem run_opened {x : Token} (ht : t.kind = .opening) (hc : x.kind ≠ .closing)
    (hf : x.kind ≠ .finish) :
    run ⟨i, t :: x :: ahead, p, os⟩ = run ⟨i + 1, x :: ahead, t :: p, os⟩ := by
  rw [run_opening ht]
  cases hx : x.kind <;> simp_all

theorem run_emptyGroup {x : Token} (ht : t.kind = .opening) (hx : x.kind = .closing) :
    run ⟨i, t :: x :: ahead, p, os⟩ =
      faultAt ⟨i + 1, x :: ahead, p, os⟩ .emptyGroup t.position := by
  simp only [run_opening ht, hx]

theorem run_unclosed {x : Token} (ht : t.kind = .opening) (hx : x.kind = .finish) :
    run ⟨i, t :: x :: ahead, p, os⟩ =
      faultAt ⟨i + 1, x :: ahead, p, os⟩ .missingClosing t.position := by
  simp only [run_opening ht, hx]

/-- A word begins a comparison, which becomes an operand. -/
theorem run_word (ht : t.kind = .word) : run ⟨i, t :: ahead, p, os⟩ =
    match comparison ⟨i, t :: ahead, p, os⟩ with
    | (.error e, s₁) => (.error e, s₁)
    | (.ok c, s₁) => resume { s₁ with operands := .leaf c :: s₁.operands } := by
  rw [run_eq, primary_eq]
  simp only [kind?_cons, ht]
  rcases comparison ⟨i, t :: ahead, p, os⟩ with ⟨_ | c, s₁⟩ <;> rfl

/-- A connective or a closing parenthesis does not begin a primary. -/
theorem run_connective {q : Nat} (ht : t.kind.precedence? = some q) :
    run ⟨i, t :: ahead, p, os⟩ =
      faultAt ⟨i, t :: ahead, p, os⟩ (.missingLeft t.shown) t.position := by
  rw [run_eq, primary_eq]
  cases hk : t.kind <;> simp_all [TokenKind.precedence?, faultAt]

theorem run_closing (ht : t.kind = .closing) : run ⟨i, t :: ahead, p, os⟩ =
    faultAt ⟨i, t :: ahead, p, os⟩ .unmatchedClosing t.position := by
  rw [run_eq, primary_eq]
  simp only [kind?_cons, current_cons, ht, faultAt]

/-- Three words, of which the second alone is a comparator. -/
structure Compares (f k l : Token) : Prop where
  field_word : f.kind = .word
  comparator_word : k.kind = .word
  literal_word : l.kind = .word
  field : isComparator f = false
  comparator : isComparator k = true
  literal : isComparator l = false

theorem comparison_eq {f k l : Token} (h : Compares f k l) :
    comparison ⟨i, f :: k :: l :: ahead, p, os⟩ =
      (.ok ⟨f.shown, k.shown, l.shown⟩, ⟨i + 1 + 1 + 1, ahead, p, os⟩) := by
  have hf : f.kind ≠ .finish := by rw [h.field_word]; decide
  have hk : k.kind ≠ .finish := by rw [h.comparator_word]; decide
  have hl : l.kind ≠ .finish := by rw [h.literal_word]; decide
  unfold comparison
  simp only [onCurrent_cons, passed_cons hf, passed_cons hk, passed_cons hl, h.field,
    h.comparator_word, h.comparator, h.literal_word, h.literal, and_self, Bool.false_eq_true,
    if_false, if_true]

/-- Three words that compare become an operand. -/
theorem run_comparison {f k l : Token} (h : Compares f k l) :
    run ⟨i, f :: k :: l :: ahead, p, os⟩ =
      resume ⟨i + 1 + 1 + 1, ahead, p, .leaf ⟨f.shown, k.shown, l.shown⟩ :: os⟩ := by
  rw [run_word h.field_word, comparison_eq h]

theorem run_missingField (ht : t.kind = .word) (hc : isComparator t = true) :
    run ⟨i, t :: ahead, p, os⟩ =
      faultAt ⟨i + 1, ahead, p, os⟩ (.missingField t.shown) t.position := by
  rw [run_word ht, comparison]
  simp only [onCurrent_cons, passed_cons (t := t) (by rw [ht]; decide), hc, if_true, faultAt]

theorem run_missingComparator {f k : Token} (hf : f.kind = .word) (hfc : isComparator f = false)
    (hk : ¬ (k.kind = .word ∧ isComparator k = true)) : run ⟨i, f :: k :: ahead, p, os⟩ =
      faultAt ⟨i + 1, k :: ahead, p, os⟩ (.missingComparator f.shown (found k)) k.position := by
  rw [run_word hf, comparison]
  simp only [onCurrent_cons, passed_cons (t := f) (by rw [hf]; decide), hfc, if_neg hk, faultAt,
    Bool.false_eq_true, if_false]

theorem run_missingLiteral {f k l : Token} (hf : f.kind = .word) (hfc : isComparator f = false)
    (hk : k.kind = .word) (hkc : isComparator k = true)
    (hl : ¬ (l.kind = .word ∧ isComparator l = false)) : run ⟨i, f :: k :: l :: ahead, p, os⟩ =
      faultAt ⟨i + 1 + 1, l :: ahead, p, os⟩ (.missingLiteral f.shown k.shown (found l))
        l.position := by
  rw [run_word hf, comparison]
  simp only [onCurrent_cons, passed_cons (t := f) (by rw [hf]; decide),
    passed_cons (t := k) (by rw [hk]; decide), hfc, hk, hkc, and_self, if_true, if_neg hl, faultAt,
    Bool.false_eq_true, if_false]

theorem fold_eq {least : Int} (h : foldStacks least p os = (p', os', true)) :
    fold ⟨i, ahead, p, os⟩ least = (.ok (), ⟨i, ahead, p', os'⟩) := by
  simp [fold, h]

/-- The end of the tokens completes the tree, if no group is open. -/
theorem resume_finish (ht : t.kind = .finish) (h : foldStacks 0 p os = ([], os', true)) :
    resume ⟨i, t :: ahead, p, os⟩ = (.ok (), ⟨i, t :: ahead, [], os'⟩) := by
  rw [resume, afterPrimary_eq]
  simp only [kind?_cons, ht, complete, fold_eq h]

theorem resume_finish_open {g : Token} (ht : t.kind = .finish)
    (h : foldStacks 0 p os = (g :: p', os', true)) : resume ⟨i, t :: ahead, p, os⟩ =
      faultAt ⟨i, t :: ahead, g :: p', os'⟩ .missingClosing g.position := by
  rw [resume, afterPrimary_eq]
  simp only [kind?_cons, ht, complete, fold_eq h, faultAt]

/-- A closing parenthesis takes the open group from the stack. -/
theorem resume_closing {g : Token} (ht : t.kind = .closing)
    (h : foldStacks 0 p os = (g :: p', os', true)) :
    resume ⟨i, t :: ahead, p, os⟩ = resume ⟨i + 1, ahead, p', os'⟩ := by
  rw [resume, afterPrimary_eq]
  simp only [kind?_cons, ht, closeGroup, fold_eq h,
    passed_cons (t := t) (by rw [ht]; decide), resume]

theorem resume_closing_unmatched (ht : t.kind = .closing)
    (h : foldStacks 0 p os = ([], os', true)) : resume ⟨i, t :: ahead, p, os⟩ =
      faultAt ⟨i, t :: ahead, [], os'⟩ .unmatchedClosing t.position := by
  rw [resume, afterPrimary_eq]
  simp only [kind?_cons, current_cons, ht, closeGroup, fold_eq h, faultAt]

theorem afterPrimary_connective {least : Nat} (ht : t.kind.precedence? = some least) :
    afterPrimary ⟨i, t :: ahead, p, os⟩ = connect ⟨i, t :: ahead, p, os⟩ least := by
  rw [afterPrimary_eq]
  cases hk : t.kind <;> simp_all [TokenKind.precedence?]

/-- A connective folds what binds as tight as it does and waits for its right side. -/
theorem resume_connective {x : Token} (least : Nat) (ht : t.kind.precedence? = some least)
    (h : foldStacks least p os = (p', os', true)) : resume ⟨i, t :: x :: ahead, p, os⟩ =
    match x.kind with
    | .finish | .closing | .and | .or =>
      faultAt ⟨i + 1, x :: ahead, p', os'⟩ (.missingRight t.shown) t.position
    | _ => run ⟨i + 1, x :: ahead, t :: p', os'⟩ := by
  have hft : t.kind ≠ .finish := by
    intro hk
    rw [hk] at ht
    cases ht
  rw [resume, afterPrimary_connective ht]
  simp only [connect, current_cons, fold_eq h, passed_cons hft, onCurrent_cons]
  cases x.kind <;> rfl

theorem resume_joined {x : Token} (least : Nat) (ht : t.kind.precedence? = some least)
    (h : foldStacks least p os = (p', os', true)) (hx : x.kind = .word ∨ x.kind = .opening) :
    resume ⟨i, t :: x :: ahead, p, os⟩ = run ⟨i + 1, x :: ahead, t :: p', os'⟩ := by
  rw [resume_connective least ht h]
  rcases hx with hx | hx <;> simp only [hx]

theorem resume_missingRight {x : Token} (least : Nat) (ht : t.kind.precedence? = some least)
    (h : foldStacks least p os = (p', os', true)) (hw : x.kind ≠ .word) (ho : x.kind ≠ .opening) :
    resume ⟨i, t :: x :: ahead, p, os⟩ =
      faultAt ⟨i + 1, x :: ahead, p', os'⟩ (.missingRight t.shown) t.position := by
  rw [resume_connective least ht h]
  cases hx : x.kind <;> simp_all

/-- A primary is not followed by another one. -/
theorem resume_primary (ht : t.kind = .word ∨ t.kind = .opening) : resume ⟨i, t :: ahead, p, os⟩ =
    faultAt ⟨i, t :: ahead, p, os⟩ (.unexpected t.shown (p.any fun x => x.kind = .opening))
      t.position := by
  rw [resume, afterPrimary_eq]
  rcases ht with hk | hk <;> simp only [kind?_cons, current_cons, hk, faultAt, isGrouped]

end

end Rulebook.Assembly
