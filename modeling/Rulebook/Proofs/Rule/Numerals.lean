import Mathlib.Logic.Relation
import Rulebook.Proofs.Number.Decimal
import Rulebook.Proofs.Rule.Meaning
import Rulebook.Proofs.Value.Entries

/-!
Numerals. A record may hold the decimal text of an integer in place of the integer, as long as the
integer rounds to a finite double: no tree tells the two apart.
-/

namespace Rulebook

/-- An integer in a field of a record is replaced by its decimal text. -/
inductive Value.Respells : Value → Value → Prop
  | field {entries : List (Value × Value)} {name : Text} {n : Int} :
      Value.lookup name entries = some (.int n) → n.natAbs < 2 ^ 1024 - 2 ^ 970 →
      Respells (.dict entries) (.dict (Value.put (.text name) (.text (Text.ofInt n)) entries))

/-- An integer that rounds to a finite double is ordered as that double. -/
theorem Value.number?_int {n : Int} (h : n.natAbs < 2 ^ 1024 - 2 ^ 970) :
    (Value.int n).number? = .ok (some (Double.ofRatio (n < 0) n.natAbs 1)) := by
  have hfinite : Double.ofInt? n ≠ none :=
    fun hnone => Nat.not_le.mpr h ((Double.ofInt?_eq_none_iff n).mp hnone)
  rw [number?, Double.ofInt?, Double.bounded?_eq_some hfinite, integerNumber]

/-- The decimal text of an integer is ordered as the double nearest to the integer. -/
theorem Value.number?_text_ofInt (n : Int) :
    (Value.text (Text.ofInt n)).number? = .ok (some (Double.ofRatio (n < 0) n.natAbs 1)) := by
  rw [number?, textNumber?, Text.strip_ofInt, Double.read?_ofInt]

section
variable {c : Comparison} {v w record other : Value}

/-- A comparison asks of a value its text and its number, and nothing else. -/
theorem Comparison.holdsOf_congr (htext : w.display = v.display) (hnumber : w.number? = v.number?) :
    c.holdsOf w = c.holdsOf v := by
  simp only [holdsOf, ordered, htext, hnumber]

/-- No comparison tells an integer from its decimal text. -/
theorem Comparison.holdsOf_ofInt {n : Int} (h : n.natAbs < 2 ^ 1024 - 2 ^ 970) :
    c.holdsOf (.text (Text.ofInt n)) = c.holdsOf (.int n) := by
  refine holdsOf_congr rfl ?_
  rw [Value.number?_text_ofInt, Value.number?_int h]

theorem Value.Respells.holds (h : record.Respells other) (c : Comparison) :
    c.holds other = c.holds record := by
  cases h with
  | @field entries name n hfield hn =>
      by_cases hname : c.field = name
      · subst hname
        simp only [Comparison.holds, Value.field?, Value.lookup_put_self, hfield]
        exact Comparison.holdsOf_ofInt hn
      · simp only [Comparison.holds, Value.field?, Value.lookup_put_of_ne hname]

/-- Records that no comparison tells apart get the same verdict. -/
theorem Tree.decideOn_eq_of_holds (h : ∀ c : Comparison, c.holds other = c.holds record)
    (t : Tree) : t.decideOn other = t.decideOn record := by
  induction t with
  | leaf c => rw [decideOn_leaf, decideOn_leaf, h]
  | join w l r ihl ihr =>
      cases hw : Connective.ofWord? w with
      | none => rw [decideOn_unknown hw, decideOn_unknown hw]
      | some k => rw [decideOn_join hw, decideOn_join hw, ihl, ihr]
  | hole => rw [decideOn_hole, decideOn_hole]
  | foreign => rw [decideOn_foreign, decideOn_foreign]

end

/-- However many of the integers of a record are replaced by their decimal texts, a tree comes out
the same on it, with the same lookups. -/
theorem Tree.verdict_of_respelled {record other : Value}
    (h : Relation.ReflTransGen Value.Respells record other) (t : Tree) :
    (t.decideOn other).result = (t.decideOn record).result ∧
      (t.decideOn other).lookups = (t.decideOn record).lookups := by
  induction h with
  | refl => exact ⟨rfl, rfl⟩
  | tail _ hlast ih =>
      rw [decideOn_eq_of_holds hlast.holds]
      exact ih

/-- A negative age and a sum beyond every machine word, one replaced after the other. -/
theorem Tree.verdict_of_two_respelled :
    let record := Value.object [("age", .int (-5)), ("sum", .int (10 ^ 30))]
    let other := Value.object [("age", .ofString "-5"),
      ("sum", .ofString "1000000000000000000000000000000")]
    let t := join "AND" (leaf ⟨"age", "<=", "-4.5"⟩) (leaf ⟨"sum", ">", "1e29"⟩)
    Relation.ReflTransGen Value.Respells record other ∧
      (t.decideOn other).result = .ok true ∧
      (t.decideOn other).lookups = [Text.ofString "age", Text.ofString "sum"] := by
  intro record other t
  have hverdict : (t.decideOn record).result = .ok true ∧
      (t.decideOn record).lookups = [Text.ofString "age", Text.ofString "sum"] := by
    unfold decideOn
    rw [decideFrom_nil]
    decide +kernel
  have hage : Value.Respells record
      (.dict (Value.put (.ofString "age") (.text (Text.ofInt (-5)))
        [(.ofString "age", .int (-5)), (.ofString "sum", .int (10 ^ 30))])) :=
    .field rfl (by decide +kernel)
  have hsum : Value.Respells
      (.dict [(.ofString "age", .ofString "-5"), (.ofString "sum", .int (10 ^ 30))])
      (.dict (Value.put (.ofString "sum") (.text (Text.ofInt (10 ^ 30)))
        [(.ofString "age", .ofString "-5"), (.ofString "sum", .int (10 ^ 30))])) :=
    .field rfl (by decide +kernel)
  have hboth : Relation.ReflTransGen Value.Respells record other := .tail (.single hage) hsum
  obtain ⟨hresult, hlookups⟩ := verdict_of_respelled hboth t
  exact ⟨hboth, hresult.trans hverdict.1, hlookups.trans hverdict.2⟩

end Rulebook
