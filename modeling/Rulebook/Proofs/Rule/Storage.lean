import Rulebook.Proofs.Rule.Walk
import Rulebook.Rule.Stored

/-!
Storing trees and reading them back. What is read from any value has known connectives and valid
comparisons, and such a tree is read back from its stored form, holes included.
-/

namespace Rulebook

/-- The entries of a stored join. -/
theorem storedJoin_entries (w : Text) (l r : Value) : ∃ entries, storedJoin w l r = .dict entries ∧
    nodeKind entries = (if (Connective.ofWord? w).isSome then .joining w else .unknown) ∧
    sideUnder "left" entries = l ∧ sideUnder "right" entries = r :=
  ⟨_, rfl, rfl, rfl, rfl⟩

/-- The entries of a stored comparison. -/
theorem Comparison.stored_entries (c : Comparison) : ∃ entries, c.stored = .dict entries ∧
    nodeKind entries = .comparing ∧ Value.lookup "field" entries = some (.text c.field) ∧
    Value.lookup "comparator" entries = some (.text c.comparator) ∧
    Value.lookup "literal" entries = some (.text c.literal) :=
  ⟨_, rfl, rfl, rfl, rfl, rfl⟩

namespace Tree

theorem stored_leaf (c : Comparison) : (leaf c).stored = c.stored := storing.result_eq ..

theorem stored_join (w : Text) (l r : Tree) :
    (join w l r).stored = storedJoin w l.stored r.stored := storing.result_eq ..

theorem stored_hole : hole.stored = .null := storing.result_eq ..

theorem stored_foreign : foreign.stored = .null := storing.result_eq ..

section
variable {entries : List (Value × Value)} {w : Text}

theorem ofStored_dict (entries : List (Value × Value)) : ofStored (.dict entries) =
    match nodeKind entries with
    | .joining w =>
      .join w (ofStored (sideUnder "left" entries)) (ofStored (sideUnder "right" entries))
    | .comparing => ((Comparison.ofEntries? entries).map leaf).getD hole
    | .unknown => hole := by
  have hvisit : reading.visit = visitStored := rfl
  unfold ofStored
  rw [reading.result_eq, hvisit]
  simp only [visitStored]
  cases nodeKind entries with
  | joining w => rfl
  | comparing => cases Comparison.ofEntries? entries <;> rfl
  | unknown => rfl

theorem ofStored_joining (h : nodeKind entries = .joining w) : ofStored (.dict entries) =
    .join w (ofStored (sideUnder "left" entries)) (ofStored (sideUnder "right" entries)) := by
  rw [ofStored_dict, h]

/-- What is no dictionary stands for no node. -/
theorem ofStored_of_not_dict {v : Value} (h : ∀ entries, v ≠ .dict entries) :
    ofStored v = hole := by
  cases v with
  | dict entries => exact absurd rfl (h entries)
  | _ => exact reading.result_eq ..

end

theorem ofStored_storedJoin {w : Text} (hw : (Connective.ofWord? w).isSome = true)
    (l r : Value) : ofStored (storedJoin w l r) = .join w (ofStored l) (ofStored r) := by
  obtain ⟨entries, he, hk, hl, hr⟩ := storedJoin_entries w l r
  rw [if_pos hw] at hk
  rw [he, ofStored_joining hk, hl, hr]

end Tree

namespace Comparison
variable {c : Comparison}

theorem isValid_iff : c.isValid = true ↔
    c.field ≠ [] ∧ Comparator.isSymbol c.comparator = true ∧ c.literal ≠ [] := by
  simp [isValid, and_assoc]

theorem comparator_ne_nil (h : Comparator.isSymbol c.comparator = true) : c.comparator ≠ [] := by
  intro hnil
  rw [hnil] at h
  exact absurd h (by decide)

theorem ofStored_stored (h : c.isValid = true) : Tree.ofStored c.stored = .leaf c := by
  obtain ⟨entries, he, hk, hf, hc, hl⟩ := c.stored_entries
  obtain ⟨hfield, hsymbol, hliteral⟩ := isValid_iff.mp h
  have hcomparator := comparator_ne_nil hsymbol
  have hparts : splitParts? entries =
      some (.text c.field, .text c.comparator, .text c.literal) := by
    simp [splitParts?, hf, hc, hl, Value.isEmpty, hfield, hcomparator, hliteral]
  rw [he, Tree.ofStored_dict, hk]
  simp only [ofEntries?, hparts, ofParts?, if_pos hsymbol]
  rfl

theorem ofParts?_eq_some {f k l : Value} (h : ofParts? (f, k, l) = some c) :
    f = .text c.field ∧ l = .text c.literal ∧ Comparator.isSymbol c.comparator = true := by
  unfold ofParts? at h
  split at h
  · rename_i heq
    cases heq
    split at h
    · rename_i hk
      cases h
      exact ⟨rfl, rfl, hk⟩
    · cases h
  · cases h

end Comparison

/-- Parts that stand apart are not empty. -/
theorem splitParts?_eq_some {entries : List (Value × Value)} {f k l : Value}
    (h : splitParts? entries = some (f, k, l)) : f.isEmpty = false ∧ l.isEmpty = false := by
  unfold splitParts? at h
  split at h
  · split at h
    · cases h
    · rename_i hne
      cases h
      simp only [Bool.or_eq_true, not_or, Bool.not_eq_true] at hne
      exact ⟨hne.1.1, hne.2⟩
  · cases h

/-- A text that splits has something in its first part and in its last. -/
theorem Text.splitThree_eq_some {t f k l : Text} (h : splitThree t = some (f, k, l)) :
    f ≠ [] ∧ l ≠ [] := by
  simp only [splitThree] at h
  split at h
  · cases h
  · rename_i hthird
    cases h
    refine ⟨?_, by simpa using hthird⟩
    cases hfirst : t.dropWhile isBlank with
    | nil =>
        rw [hfirst] at hthird
        exact absurd rfl hthird
    | cons x rest =>
        have hx : isBlank x = false := by
          have := List.head?_dropWhile_not isBlank t
          rw [hfirst] at this
          simpa using this
        simp [firstWord, hx]

theorem lineParts?_eq_some {entries : List (Value × Value)} {f k l : Value}
    (h : lineParts? entries = some (f, k, l)) : f.isEmpty = false ∧ l.isEmpty = false := by
  unfold lineParts? at h
  split at h
  · obtain ⟨⟨f', k', l'⟩, hsplit, he⟩ := Option.map_eq_some_iff.mp h
    cases he
    obtain ⟨hf, hl⟩ := Text.splitThree_eq_some hsplit
    exact ⟨by simpa [Value.isEmpty] using hf, by simpa [Value.isEmpty] using hl⟩
  · cases h

/-- A comparison that is read from a dictionary is valid, whichever way its parts stand there. -/
theorem Comparison.isValid_of_ofEntries? {entries : List (Value × Value)} {c : Comparison}
    (h : ofEntries? entries = some c) : c.isValid = true := by
  have hvalid : ∀ {f k l : Value}, f.isEmpty = false ∧ l.isEmpty = false →
      ofParts? (f, k, l) = some c → c.isValid = true := by
    rintro f k l ⟨hf, hl⟩ hp
    obtain ⟨rfl, rfl, hk⟩ := ofParts?_eq_some hp
    refine isValid_iff.mpr ⟨?_, hk, ?_⟩
    · simpa [Value.isEmpty] using hf
    · simpa [Value.isEmpty] using hl
  unfold ofEntries? at h
  split at h
  · rename_i parts hsplit
    exact hvalid (splitParts?_eq_some hsplit) h
  · obtain ⟨parts, hline, hp⟩ := Option.bind_eq_some_iff.mp h
    exact hvalid (lineParts?_eq_some hline) hp

namespace Tree

/-- A tree that may have holes, but is in order otherwise. -/
inductive IsReadable : Tree → Prop
  | hole : IsReadable .hole
  | leaf {c} : c.isValid = true → IsReadable (.leaf c)
  | join {w l r} : (Connective.ofWord? w).isSome = true → IsReadable l → IsReadable r →
      IsReadable (.join w l r)

/-- A subtree is missing somewhere. -/
def hasHole : Tree → Bool
  | .leaf _ => false
  | .join _ left right => left.hasHole || right.hasHole
  | .hole => true
  | .foreign => false

theorem isReadable_of_isWellFormed {t : Tree} (h : t.isWellFormed = true) : t.IsReadable := by
  induction t with
  | leaf c => exact .leaf h
  | join w l r ihl ihr =>
      simp only [isWellFormed, Bool.and_eq_true] at h
      exact .join h.1.1 (ihl h.1.2) (ihr h.2)
  | hole => exact .hole
  | foreign => cases h

/-- Reading any value gives a tree that is in order but for its holes. -/
theorem isReadable_ofStored (v : Value) : (ofStored v).IsReadable := by
  induction hn : v.levels using Nat.strongRecOn generalizing v with
  | _ n ih =>
      by_cases hv : ∃ entries, v = .dict entries
      · obtain ⟨entries, rfl⟩ := hv
        rw [ofStored_dict]
        cases hk : nodeKind entries with
        | joining w =>
            have hlt := sideUnder_levels_lt (entryLevels_pos_of_joining hk)
            have hl := ih _ (hn ▸ hlt "left") _ rfl
            have hr := ih _ (hn ▸ hlt "right") _ rfl
            exact .join (isSome_of_joining hk) hl hr
        | comparing =>
            cases hc : Comparison.ofEntries? entries with
            | some c => exact .leaf (Comparison.isValid_of_ofEntries? hc)
            | none => exact .hole
        | unknown => exact .hole
      · rw [ofStored_of_not_dict fun entries he => hv ⟨entries, he⟩]
        exact .hole

/-- Storing loses nothing of a tree that is in order but for its holes. -/
theorem IsReadable.ofStored_stored {t : Tree} (h : t.IsReadable) : ofStored t.stored = t := by
  induction h with
  | hole =>
      rw [stored_hole]
      exact ofStored_of_not_dict nofun
  | leaf hc =>
      rw [stored_leaf]
      exact Comparison.ofStored_stored hc
  | join hw hl hr ihl ihr => rw [stored_join, ofStored_storedJoin hw, ihl, ihr]

theorem IsReadable.isWellFormed_iff {t : Tree} (h : t.IsReadable) :
    t.isWellFormed = true ↔ t.hasHole = false := by
  induction h with
  | hole => simp [isWellFormed, hasHole]
  | leaf hc => simp [isWellFormed, hasHole, hc]
  | join hw hl hr ihl ihr => simp [isWellFormed, hasHole, hw, ihl, ihr]

/-- A well-formed tree is read back from its stored form, and so is what was read from any value.
What is read is well formed exactly if it has no hole: all else in it is in order. -/
theorem ofStored_stored_lossless :
    (∀ t : Tree, t.isWellFormed = true → ofStored t.stored = t) ∧
      ∀ v : Value, ofStored (ofStored v).stored = ofStored v ∧
        ((ofStored v).isWellFormed = true ↔ (ofStored v).hasHole = false) ∧
        (ofStored v).IsReadable := by
  refine ⟨?_, ?_⟩
  · intro t ht
    exact (isReadable_of_isWellFormed ht).ofStored_stored
  · intro v
    have h := isReadable_ofStored v
    exact ⟨h.ofStored_stored, h.isWellFormed_iff, h⟩

end Tree

end Rulebook
