import Rulebook.Value.Basic

/-!
Equality of values can be decided.
-/

namespace Rulebook.Value

mutual

/-- Two values are the same. -/
def same : Value → Value → Bool
  | .null, .null => true
  | .bool a, .bool b => a == b
  | .int m, .int n => m == n
  | .real x, .real y => x == y
  | .text s, .text t => s == t
  | .list items, .list items' => sameItems items items'
  | .dict entries, .dict entries' => sameEntries entries entries'
  | _, _ => false

def sameItems : List Value → List Value → Bool
  | [], [] => true
  | v :: rest, w :: rest' => same v w && sameItems rest rest'
  | _, _ => false

def sameEntries : List (Value × Value) → List (Value × Value) → Bool
  | [], [] => true
  | (k, v) :: rest, (l, w) :: rest' => same k l && same v w && sameEntries rest rest'
  | _, _ => false

end

mutual

theorem eq_of_same (v w : Value) (h : same v w = true) : v = w := by
  cases v with
  | null =>
      cases w with
      | null => rfl
      | _ => cases h
  | bool a =>
      cases w with
      | bool b => rw [eq_of_beq (a := a) (b := b) h]
      | _ => cases h
  | int m =>
      cases w with
      | int n => rw [eq_of_beq (a := m) (b := n) h]
      | _ => cases h
  | real x =>
      cases w with
      | real y => rw [eq_of_beq (a := x) (b := y) h]
      | _ => cases h
  | text s =>
      cases w with
      | text t => rw [eq_of_beq (a := s) (b := t) h]
      | _ => cases h
  | list items =>
      cases w with
      | list items' => rw [eq_of_sameItems items items' h]
      | _ => cases h
  | dict entries =>
      cases w with
      | dict entries' => rw [eq_of_sameEntries entries entries' h]
      | _ => cases h

theorem eq_of_sameItems (items items' : List Value) (h : sameItems items items' = true) :
    items = items' := by
  cases items with
  | nil =>
      cases items' with
      | nil => rfl
      | cons w rest' => cases h
  | cons v rest =>
      cases items' with
      | nil => cases h
      | cons w rest' =>
          simp only [sameItems, Bool.and_eq_true] at h
          rw [eq_of_same v w h.1, eq_of_sameItems rest rest' h.2]

theorem eq_of_sameEntries (entries entries' : List (Value × Value))
    (h : sameEntries entries entries' = true) : entries = entries' := by
  cases entries with
  | nil =>
      cases entries' with
      | nil => rfl
      | cons e rest' => cases h
  | cons e rest =>
      cases entries' with
      | nil => cases h
      | cons e' rest' =>
          obtain ⟨k, v⟩ := e
          obtain ⟨l, w⟩ := e'
          simp only [sameEntries, Bool.and_eq_true] at h
          rw [eq_of_same k l h.1.1, eq_of_same v w h.1.2, eq_of_sameEntries rest rest' h.2]

end

mutual

theorem same_refl (v : Value) : same v v = true := by
  cases v with
  | null => rfl
  | bool a | int m | real x | text s => simp [same]
  | list items => exact sameItems_refl items
  | dict entries => exact sameEntries_refl entries

theorem sameItems_refl (items : List Value) : sameItems items items = true := by
  cases items with
  | nil => rfl
  | cons v rest => simp [sameItems, same_refl v, sameItems_refl rest]

theorem sameEntries_refl (entries : List (Value × Value)) : sameEntries entries entries = true := by
  cases entries with
  | nil => rfl
  | cons e rest =>
      obtain ⟨k, v⟩ := e
      simp [sameEntries, same_refl k, same_refl v, sameEntries_refl rest]

end

instance : DecidableEq Value := fun v w =>
  decidable_of_iff (same v w = true) ⟨eq_of_same v w, fun h => h ▸ same_refl v⟩

end Rulebook.Value
