import Rulebook.Rule.Tree
import Rulebook.Rule.Walk
import Rulebook.Text.Blank
import Rulebook.Value.Basic

/-!
The stored form of trees: one dictionary per node. Reading is lenient, so that damage stays where
it is: a subtree that cannot be read becomes a hole.
-/

namespace Rulebook

/-- The stored form of a comparison, split and as one line. -/
def Comparison.stored (c : Comparison) : Value :=
  .object [
    ("node_type", .ofString "operand"), ("value", .text c.text), ("field", .text c.field),
    ("comparator", .text c.comparator), ("literal", .text c.literal),
    ("left", .null), ("right", .null)]

/-- The stored form of a join, from those of its sides. -/
def storedJoin (w : Text) (left right : Value) : Value :=
  .object [
    ("node_type", .ofString "operator"), ("value", .text w), ("left", left), ("right", right)]

/-- Nodes of no known kind are stored as nothing. -/
def Tree.storing : Walk Tree Value where
  visit
    | .leaf c => .done c.stored
    | .join w left right => .sides left right (storedJoin w)
    | .hole => .done .null
    | .foreign => .done .null
  height := height
  left_lt := by
    intro t l r join h
    cases t with
    | join w left right =>
      cases h
      exact Nat.lt_succ_of_le (Nat.le_max_left _ _)
    | _ => cases h
  right_lt := by
    intro t l r join h
    cases t with
    | join w left right =>
      cases h
      exact Nat.lt_succ_of_le (Nat.le_max_right _ _)
    | _ => cases h

/-- The stored form of a tree. -/
def Tree.stored (t : Tree) : Value := storing.result .null t

/-- The three parts of a comparison as they stand in a dictionary, if none is absent or empty. -/
def splitParts? (entries : List (Value × Value)) : Option (Value × Value × Value) :=
  match Value.lookup "field" entries, Value.lookup "comparator" entries,
    Value.lookup "literal" entries with
  | some f, some c, some l => if f.isEmpty || c.isEmpty || l.isEmpty then none else some (f, c, l)
  | _, _, _ => none

/-- The three parts of a comparison that stands in a dictionary as one line. -/
def lineParts? (entries : List (Value × Value)) : Option (Value × Value × Value) :=
  match Value.lookup "value" entries with
  | some (.text line) =>
    (Text.splitThree line).map fun (f, c, l) => (.text f, .text c, .text l)
  | _ => none

/-- A comparison from its parts: three texts with a comparator in the middle. -/
def Comparison.ofParts? : Value × Value × Value → Option Comparison
  | (.text f, .text c, .text l) => if Comparator.isSymbol c then some ⟨f, c, l⟩ else none
  | _ => none

/-- The comparison that a dictionary stands for. The split parts go before the line. -/
def Comparison.ofEntries? (entries : List (Value × Value)) : Option Comparison :=
  match splitParts? entries with
  | some parts => ofParts? parts
  | none => (lineParts? entries).bind ofParts?

/-- The kind of node that a dictionary declares. -/
inductive NodeKind where
  | joining (word : Text)
  | comparing
  | unknown
  deriving DecidableEq, Repr

/-- A dictionary declares a join only together with a known connective. -/
def nodeKind (entries : List (Value × Value)) : NodeKind :=
  match Value.lookup "node_type" entries with
  | some (.text kind) =>
    if kind = "operator" then
      match Value.lookup "value" entries with
      | some (.text w) => if (Connective.ofWord? w).isSome then .joining w else .unknown
      | _ => .unknown
    else if kind = "operand" then .comparing
    else .unknown
  | _ => .unknown

/-- A join is declared with a known connective. -/
theorem isSome_of_joining {entries : List (Value × Value)} {w : Text}
    (h : nodeKind entries = .joining w) : (Connective.ofWord? w).isSome = true := by
  unfold nodeKind at h
  split at h
  · split at h
    · split at h
      · split at h
        · rename_i hw
          cases h
          exact hw
        · cases h
      · cases h
    · split at h <;> cases h
  · cases h

/-- The side under a name among entries; nothing if the name is not there. -/
def sideUnder (name : Text) (entries : List (Value × Value)) : Value :=
  (Value.lookup name entries).getD .null

/-- What is read at a stored node. What declares no known kind is a hole. -/
def Tree.visitStored : Value → Visit Value Tree
  | .dict entries =>
    match nodeKind entries with
    | .joining w => .sides (sideUnder "left" entries) (sideUnder "right" entries) (.join w)
    | .comparing =>
      match Comparison.ofEntries? entries with
      | some c => .done (.leaf c)
      | none => .done .hole
    | .unknown => .done .hole
  | _ => .done .hole

/-- A node that declares a kind has entries. -/
theorem entryLevels_pos_of_joining {entries : List (Value × Value)} {w : Text}
    (h : nodeKind entries = .joining w) : 0 < Value.entryLevels entries := by
  cases hl : Value.lookup "node_type" entries with
  | none => simp [nodeKind, hl] at h
  | some v => exact Nat.lt_of_lt_of_le v.levels_pos (Value.levels_le_of_lookup hl)

theorem sideUnder_levels_lt {entries : List (Value × Value)} (h : 0 < Value.entryLevels entries)
    (name : Text) : (sideUnder name entries).levels < (Value.dict entries).levels := by
  rw [sideUnder, Value.levels]
  cases hl : Value.lookup name entries with
  | none => exact Nat.succ_lt_succ h
  | some v => exact Nat.lt_succ_of_le (Value.levels_le_of_lookup hl)

theorem Tree.visitStored_sides {v l r : Value} {join : Tree → Tree → Tree}
    (h : visitStored v = .sides l r join) : ∃ entries w, v = .dict entries ∧
      nodeKind entries = .joining w ∧ l = sideUnder "left" entries ∧
      r = sideUnder "right" entries ∧ join = .join w := by
  cases v with
  | dict entries =>
    cases hk : nodeKind entries with
    | joining w =>
      simp only [visitStored, hk] at h
      cases h
      exact ⟨entries, w, rfl, hk, rfl, rfl, rfl⟩
    | comparing =>
      simp only [visitStored, hk] at h
      split at h <;> cases h
    | unknown =>
      simp only [visitStored, hk] at h
      cases h
  | _ => cases h

def Tree.reading : Walk Value Tree where
  visit := visitStored
  height := Value.levels
  left_lt := by
    intro v l r join h
    obtain ⟨entries, w, rfl, hk, rfl, -, -⟩ := visitStored_sides h
    exact sideUnder_levels_lt (entryLevels_pos_of_joining hk) _
  right_lt := by
    intro v l r join h
    obtain ⟨entries, w, rfl, hk, -, rfl, -⟩ := visitStored_sides h
    exact sideUnder_levels_lt (entryLevels_pos_of_joining hk) _

/-- The tree that a stored form stands for. -/
def Tree.ofStored (v : Value) : Tree := reading.result .hole v

end Rulebook
