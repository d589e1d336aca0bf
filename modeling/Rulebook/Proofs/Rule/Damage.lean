import Mathlib.Logic.Relation
import Rulebook.Proofs.Rule.Storage
import Rulebook.Proofs.Rule.Totality
import Rulebook.Proofs.Value.Entries

/-!
Damage. A stored tree that lost parts, decided on a record that lost fields, matches only if the
whole tree matches the whole record, or cannot be decided on it.
-/

namespace Rulebook

/-- A part of a stored tree is replaced by what stands for nothing. The part is reached through the
sides of joins. -/
inductive Value.LosesPart : Value → Value → Prop
  | here {v v'} : Tree.ofStored v' = .hole → LosesPart v v'
  | side {entries w v v'} {name : Text} : nodeKind entries = .joining w →
      name = "left" ∨ name = "right" → Value.lookup name entries = some v → LosesPart v v' →
      LosesPart (.dict entries) (.dict (Value.put (.text name) v' entries))

/-- Any number of parts are lost, one after the other. -/
abbrev Value.LosesParts : Value → Value → Prop := Relation.ReflTransGen Value.LosesPart

/-- Fields of a record are removed or set to null, the others are kept. -/
def Value.LosesFields (record lossy : Value) : Prop :=
  ∀ name, lossy.field? name = record.field? name ∨ lossy.field? name = none ∨
    lossy.field? name = some .null

/-- A tree in which holes stand for some subtrees. -/
inductive Tree.Loses : Tree → Tree → Prop
  | lost (t) : Loses t .hole
  | leaf (c) : Loses (.leaf c) (.leaf c)
  | join {l l' r r'} (w) : Loses l l' → Loses r r' → Loses (.join w l r) (.join w l' r')
  | foreign : Loses .foreign .foreign

namespace Tree

theorem Loses.refl (t : Tree) : t.Loses t := by
  induction t with
  | leaf c => exact .leaf c
  | join w l r ihl ihr => exact .join w ihl ihr
  | hole => exact .lost .hole
  | foreign => exact .foreign

theorem Loses.trans {t u v : Tree} (h : t.Loses u) (h' : u.Loses v) : t.Loses v := by
  induction h generalizing v with
  | lost t =>
      cases h' with
      | lost => exact .lost t
  | leaf c =>
      cases h' with
      | lost => exact .lost _
      | leaf => exact .leaf c
  | join w hl hr ihl ihr =>
      cases h' with
      | lost => exact .lost _
      | join _ hl' hr' => exact .join w (ihl hl') (ihr hr')
  | foreign =>
      cases h' with
      | lost => exact .lost _
      | foreign => exact .foreign

end Tree

/-- Replacing a side leaves the kind of a node as it is. -/
theorem nodeKind_put {name : Text} (hname : name = "left" ∨ name = "right") (v : Value)
    (entries : List (Value × Value)) :
    nodeKind (Value.put (.text name) v entries) = nodeKind entries := by
  have hkind : ("node_type" : Text) ≠ name := by
    rcases hname with rfl | rfl <;> decide
  have hvalue : ("value" : Text) ≠ name := by
    rcases hname with rfl | rfl <;> decide
  unfold nodeKind
  rw [Value.lookup_put_of_ne hkind, Value.lookup_put_of_ne hvalue]

theorem sideUnder_put_self (name : Text) (v : Value) (entries : List (Value × Value)) :
    sideUnder name (Value.put (.text name) v entries) = v := by
  rw [sideUnder, Value.lookup_put_self]
  rfl

theorem sideUnder_put_of_ne {name other : Text} (h : other ≠ name) (v : Value)
    (entries : List (Value × Value)) :
    sideUnder other (Value.put (.text name) v entries) = sideUnder other entries := by
  rw [sideUnder, Value.lookup_put_of_ne h]
  rfl

theorem sideUnder_of_lookup {name : Text} {entries : List (Value × Value)} {v : Value}
    (h : Value.lookup name entries = some v) : sideUnder name entries = v := by
  rw [sideUnder, h]
  rfl

/-- Damage stays where it is: reading puts a hole in place of the part that was lost. -/
theorem Value.LosesPart.ofStored {v v' : Value} (h : v.LosesPart v') :
    (Tree.ofStored v).Loses (Tree.ofStored v') := by
  induction h with
  | here hv =>
      rw [hv]
      exact .lost _
  | @side entries w v v' name hk hname hv h ih =>
      have hk' := nodeKind_put hname v' entries
      rw [hk] at hk'
      rw [Tree.ofStored_joining hk, Tree.ofStored_joining hk']
      rcases hname with rfl | rfl
      · have hright : ("right" : Text) ≠ "left" := by decide
        rw [sideUnder_put_self, sideUnder_put_of_ne hright, sideUnder_of_lookup hv]
        exact .join w ih (.refl _)
      · have hleft : ("left" : Text) ≠ "right" := by decide
        rw [sideUnder_put_self, sideUnder_put_of_ne hleft, sideUnder_of_lookup hv]
        exact .join w (.refl _) ih

theorem Value.LosesParts.ofStored {v v' : Value} (h : v.LosesParts v') :
    (Tree.ofStored v).Loses (Tree.ofStored v') := by
  induction h with
  | refl => exact .refl _
  | tail h hpart ih => exact ih.trans hpart.ofStored

/-- A comparison that holds of what is left of a record holds of the record. -/
theorem Comparison.holds_of_losesFields {c : Comparison} {record lossy : Value}
    (hr : record.LosesFields lossy) (h : c.holds lossy = .ok true) : c.holds record = .ok true := by
  rcases hr c.field with hkept | habsent | hnull
  · unfold holds at h ⊢
    rw [← hkept]
    exact h
  · simp [holds, habsent] at h
  · simp [holds, hnull] at h

/-- A join matches if its side settles it so, or leaves it open and the other side matches. -/
theorem Verdict.thenIf_eq_true_iff {v w : Verdict} {b : Bool} : (v.thenIf b w).result = .ok true ↔
    v.result = .ok b ∧ w.result = .ok true ∨ v.result = .ok true ∧ b = false := by
  unfold thenIf
  split
  · rename_i side hside
    rw [hside]
    split
    · rename_i hb
      subst hb
      cases side <;> simp
    · rename_i hb
      cases side <;> cases b <;> simp_all
  · simp_all

section
variable {record lossy : Value}

/-- A tree that lost subtrees matches on a record that lost fields only if the whole tree matches on
the whole record, where that can be decided. -/
theorem Tree.Loses.decideOn_eq_true {t t' : Tree} (h : t.Loses t')
    (hr : record.LosesFields lossy) (hmatch : (t'.decideOn lossy).result = .ok true)
    (hmade : ∀ e, (t.decideOn record).result ≠ .error e) :
    (t.decideOn record).result = .ok true := by
  induction h with
  | lost t =>
      rw [decideOn_hole] at hmatch
      cases hmatch
  | leaf c =>
      rw [decideOn_leaf] at hmatch ⊢
      exact Comparison.holds_of_losesFields hr hmatch
  | @join l l' r r' w hl hr' ihl ihr =>
      cases hw : Connective.ofWord? w with
      | none =>
          rw [decideOn_unknown hw] at hmatch
          cases hmatch
      | some k =>
          rw [decideOn_join hw] at hmatch hmade ⊢
          have hleft : ∀ e, (l.decideOn record).result ≠ .error e :=
            fun e he => hmade e (thenIf_eq_error_iff.mpr (.inl he))
          have hright : (l.decideOn record).result = .ok k.neutral →
              ∀ e, (r.decideOn record).result ≠ .error e :=
            fun hopen e he => hmade e (thenIf_eq_error_iff.mpr (.inr ⟨hopen, he⟩))
          rw [Verdict.thenIf_eq_true_iff] at hmatch ⊢
          -- the two runs may take different sides, so it is the whole left side that decides
          cases hside : (l.decideOn record).result with
          | error e => exact absurd hside (hleft e)
          | ok side =>
              by_cases hopen : side = k.neutral
              · rcases hmatch with ⟨-, hr⟩ | ⟨hl, hk⟩
                · exact .inl ⟨by rw [hopen], ihr hr (hright (by rw [hside, hopen]))⟩
                · have hl := ihl hl hleft
                  rw [hside] at hl
                  exact .inr ⟨hl, hk⟩
              · rcases hmatch with ⟨hl, -⟩ | ⟨hl, hk⟩
                · cases hk : k.neutral with
                  | true =>
                      rw [hk] at hl hopen
                      have hl := ihl hl hleft
                      rw [hside] at hl
                      exact absurd (Except.ok.inj hl) hopen
                  | false =>
                      rw [hk] at hopen
                      exact .inr ⟨by rw [Bool.eq_true_of_not_eq_false hopen], rfl⟩
                · have hl := ihl hl hleft
                  rw [hside] at hl
                  exact .inr ⟨hl, hk⟩
  | foreign =>
      rw [decideOn_foreign] at hmatch
      cases hmatch

/-- Lost parts and lost fields grant no match: what matches with them missing matches with them,
unless it cannot be decided then. -/
theorem Tree.decideOn_true_of_loses {stored damaged : Value} (hd : stored.LosesParts damaged)
    (hr : record.LosesFields lossy)
    (hmatch : ((ofStored damaged).decideOn lossy).result = .ok true)
    (hmade : ∀ e, ((ofStored stored).decideOn record).result ≠ .error e) :
    ((ofStored stored).decideOn record).result = .ok true :=
  hd.ofStored.decideOn_eq_true hr hmatch hmade

end

/-- The left side of a stored join is lost, and so is a field that it compares. -/
theorem Tree.decideOn_true_of_lost_left :
    (storedJoin "OR" (Comparison.stored ⟨"a", "!=", "1"⟩)
        (Comparison.stored ⟨"b", "=", "2"⟩)).LosesParts
      (storedJoin "OR" (.text "lost") (Comparison.stored ⟨"b", "=", "2"⟩)) ∧
    (Value.object [("a", .int 3), ("b", .int 2)]).LosesFields
      (.object [("a", .null), ("b", .int 2)]) ∧
    ((ofStored (storedJoin "OR" (Comparison.stored ⟨"a", "!=", "1"⟩)
      (Comparison.stored ⟨"b", "=", "2"⟩))).decideOn
        (.object [("a", .int 3), ("b", .int 2)])).result = .ok true := by
  have hleft : ofStored (Comparison.stored ⟨"a", "!=", "1"⟩) = .leaf ⟨"a", "!=", "1"⟩ :=
    Comparison.ofStored_stored (by decide)
  have hright : ofStored (Comparison.stored ⟨"b", "=", "2"⟩) = .leaf ⟨"b", "=", "2"⟩ :=
    Comparison.ofStored_stored (by decide)
  have hlost : ofStored (.text "lost") = .hole := ofStored_of_not_dict nofun
  have hparts : (storedJoin "OR" (Comparison.stored ⟨"a", "!=", "1"⟩)
      (Comparison.stored ⟨"b", "=", "2"⟩)).LosesParts
      (storedJoin "OR" (.text "lost") (Comparison.stored ⟨"b", "=", "2"⟩)) :=
    .single (.side (w := "OR") rfl (.inl rfl) rfl (.here hlost))
  have hfields : (Value.object [("a", .int 3), ("b", .int 2)]).LosesFields
      (.object [("a", .null), ("b", .int 2)]) := by
    intro name
    by_cases ha : ("a" : Text) = name
    · subst ha
      exact .inr (.inr rfl)
    · have hne : (("a" : Text) == name) = false := by simpa using ha
      left
      simp [Value.field?, Value.object, Value.ofString, Value.lookup, hne]
  refine ⟨hparts, hfields, decideOn_true_of_loses hparts hfields ?_ ?_⟩
  · rw [ofStored_storedJoin (by decide), hlost, hright, decideOn, decideFrom_nil]
    decide
  · rw [ofStored_storedJoin (by decide), hleft, hright, decideOn, decideFrom_nil]
    intro e
    cases e
    decide

end Rulebook
