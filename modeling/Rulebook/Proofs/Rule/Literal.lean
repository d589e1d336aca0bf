import Rulebook.Proofs.Rule.RoundTrip
import Rulebook.Proofs.Rule.Totality

/-!
Quoted literals. Whatever stands between two quotation marks is one word of rule text, and a
comparison with it goes by the very text between the marks.
-/

namespace Rulebook
open Comparison (mark)

/-- A text between quotation marks. -/
def Text.marked (v : Text) : Text := mark :: (v ++ [mark])

section
variable {v f : Text} {c : Comparison} {record : Value}

/-- A quoted run goes on up to the first mark, whatever else is in it. -/
theorem pairsQuotes_of_not_mem (hv : mark ∉ v) : pairsQuotes true (v ++ [mark]) = true := by
  induction v with
  | nil => rfl
  | cons d v ih =>
      rw [List.mem_cons, not_or] at hv
      have hd : (d == CodePoint.char '\x27') = false := beq_eq_false_iff_ne.mpr (Ne.symm hv.1)
      rw [List.cons_append, pairsQuotes, hd]
      exact ih hv.2

theorem isWord_marked (hv : mark ∉ v) : IsWord (Text.marked v) := by
  refine ⟨List.cons_ne_nil _ _, ?_⟩
  have hmark : (!endsWord mark) = true := by decide
  rw [Text.marked, pairsQuotes, hmark]
  exact pairsQuotes_of_not_mem hv

theorem marked_ne_of_head? {w : Text} (hw : w.head? ≠ some mark) (v : Text) :
    Text.marked v ≠ w := by
  rintro rfl
  exact hw rfl

/-- A quoted literal is read as itself, even if a keyword or a comparator stands between the
marks. -/
theorem isRenderable_marked (hv : mark ∉ v) : IsRenderable (Text.marked v) := by
  refine isRenderable_iff.mpr ⟨isWord_marked hv, ?_, ?_⟩
  · have hand : Text.marked v ≠ "AND" := marked_ne_of_head? (by decide) v
    have hor : Text.marked v ≠ "OR" := marked_ne_of_head? (by decide) v
    rw [TokenKind.ofWord, if_neg hand, if_neg hor]
  · rw [Bool.eq_false_iff]
    intro hsymbol
    obtain ⟨k, hk⟩ := Comparator.symbol_of_isSymbol hsymbol
    have hhead : k.symbol.head? ≠ some mark := by cases k <;> decide
    exact marked_ne_of_head? hhead v hk

theorem Comparator.ofSymbol?_symbol (k : Comparator) : ofSymbol? k.symbol = some k := by
  cases k <;> decide

theorem isSymbol_symbol (k : Comparator) : Comparator.isSymbol k.symbol = true := by
  rw [Comparator.isSymbol, k.ofSymbol?_symbol]
  rfl

/-- A comparison of a field with a quoted literal. -/
def Comparison.marked (f : Text) (k : Comparator) (v : Text) : Comparison :=
  ⟨f, k.symbol, Text.marked v⟩

theorem compile_marked (hf : IsRenderable f) (hv : mark ∉ v) (k : Comparator) :
    compile (f ++ " " ++ k.symbol ++ " " ++ Text.marked v) =
      .ok (.leaf (Comparison.marked f k v)) := by
  have hprints := Prints.comparison (c := Comparison.marked f k v) hf (isSymbol_symbol k)
    (isRenderable_marked hv)
  have htext : (Tree.leaf (Comparison.marked f k v)).textBefore [] =
      f ++ " " ++ k.symbol ++ " " ++ Text.marked v := List.append_nil _
  rw [← htext]
  exact hprints.compile

theorem isQuoted_marked (f : Text) (k : Comparator) (v : Text) :
    (Comparison.marked f k v).isQuoted = true := by
  simp [Comparison.isQuoted, Comparison.marked, Text.marked, List.getLast?_cons]

theorem unquoted_marked (f : Text) (k : Comparator) (v : Text) :
    (Comparison.marked f k v).unquoted = v := by
  rw [Comparison.unquoted, if_pos (isQuoted_marked f k v)]
  simp [Comparison.marked, Text.marked]

namespace Comparator

/-- What a comparator says of the text of a value and of a quoted literal. Only the comparators for
equality say anything. -/
def saysOfText : Comparator → Text → Text → Bool
  | .eq, shown, v => shown == v
  | .ne, shown, v => shown != v
  | _, _, _ => false

end Comparator

theorem holdsOf_marked (f : Text) (k : Comparator) (v : Text) (x : Value) :
    (Comparison.marked f k v).holdsOf x = .ok (k.saysOfText x.display v) := by
  have hcomparator : Comparator.ofSymbol? (Comparison.marked f k v).comparator = some k :=
    k.ofSymbol?_symbol
  rw [Comparison.holdsOf, hcomparator, isQuoted_marked, unquoted_marked]
  cases k <;> rfl

/-- A comparison with a quoted literal always comes out, and fails if there is no value. -/
theorem exists_holds_marked (f v : Text) (record : Value) : ∃ answer : Comparator → Bool,
    (∀ k, (Comparison.marked f k v).holds record = .ok (answer k)) ∧
      ∀ k, answer k = true ↔
        ∃ x, record.field? f = some x ∧ x ≠ .null ∧ k.saysOfText x.display v = true := by
  by_cases hpresent : ∃ x, record.field? f = some x ∧ x ≠ .null
  · obtain ⟨x, hx, hnull⟩ := hpresent
    refine ⟨fun k => k.saysOfText x.display v, ?_, ?_⟩
    · intro k
      rw [Comparison.holds_of_field hx hnull, holdsOf_marked]
    · intro k
      constructor
      · intro hk
        exact ⟨x, hx, hnull, hk⟩
      · rintro ⟨y, hy, -, hk⟩
        obtain rfl := Option.some.inj (hx.symm.trans hy)
        exact hk
  · refine ⟨fun _ => false, ?_, ?_⟩
    · intro k
      exact Comparison.holds_of_absent hpresent
    · intro k
      constructor
      · intro hfalse
        cases hfalse
      · rintro ⟨x, hx, hnull, -⟩
        exact absurd ⟨x, hx, hnull⟩ hpresent

end

/-- A quoted literal stands for the text between its marks, whatever that is: with each comparator
the rule compiles and comes out on every record. Equality and inequality go by the text of a value
that is there; no ordering holds. -/
theorem marked_literal_is_inert {f v : Text} (hf : IsRenderable f) (hv : mark ∉ v)
    (record : Value) : ∃ answer : Comparator → Bool,
      (∀ k : Comparator, ∃ tree, compile (f ++ " " ++ k.symbol ++ " " ++ Text.marked v) = .ok tree ∧
        (tree.decideOn record).result = .ok (answer k)) ∧
      (answer .eq = true ↔ ∃ x, record.field? f = some x ∧ x ≠ .null ∧ x.display = v) ∧
      (answer .ne = true ↔ ∃ x, record.field? f = some x ∧ x ≠ .null ∧ x.display ≠ v) ∧
      answer .gt = false ∧ answer .lt = false ∧ answer .ge = false ∧ answer .le = false := by
  obtain ⟨answer, hholds, hanswer⟩ := exists_holds_marked f v record
  have hordering : ∀ k : Comparator, (∀ shown, k.saysOfText shown v = false) →
      answer k = false := by
    intro k hk
    rw [Bool.eq_false_iff]
    intro htrue
    obtain ⟨x, -, -, hx⟩ := (hanswer k).mp htrue
    exact Bool.false_ne_true ((hk x.display).symm.trans hx)
  refine ⟨answer, ?_, ?_, ?_, hordering .gt fun _ => rfl, hordering .lt fun _ => rfl,
    hordering .ge fun _ => rfl, hordering .le fun _ => rfl⟩
  · intro k
    refine ⟨_, compile_marked hf hv k, ?_⟩
    rw [Tree.decideOn_leaf]
    exact hholds k
  · simpa only [Comparator.saysOfText, beq_iff_eq] using hanswer .eq
  · simpa only [Comparator.saysOfText, bne_iff_ne] using hanswer .ne

/-- Keywords, parentheses, comparators and digits between the marks are text like any other. -/
theorem marked_literal_of_keywords :
    IsRenderable "note" ∧ mark ∉ Text.ofString ") OR 7 >= (" ∧
      ∃ tree, compile "note = ') OR 7 >= ('" = .ok tree ∧
        (tree.decideOn (.object [("note", .ofString ") OR 7 >= (")])).result = .ok true := by
  have hf : IsRenderable "note" :=
    isRenderable_iff.mpr ⟨⟨by decide, by decide⟩, by decide, by decide⟩
  have hv : mark ∉ Text.ofString ") OR 7 >= (" := by decide
  obtain ⟨answer, hcompile, heq, -⟩ :=
    marked_literal_is_inert hf hv (.object [("note", .ofString ") OR 7 >= (")])
  obtain ⟨tree, htree, hresult⟩ := hcompile .eq
  have htext : Text.ofString "note" ++ " " ++ Comparator.eq.symbol ++ " " ++
      Text.marked ") OR 7 >= (" = "note = ') OR 7 >= ('" := by decide
  have htrue : answer .eq = true := heq.mpr ⟨_, rfl, nofun, rfl⟩
  rw [htrue] at hresult
  exact ⟨hf, hv, tree, htext ▸ htree, hresult⟩

end Rulebook
