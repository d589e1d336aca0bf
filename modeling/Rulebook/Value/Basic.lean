import Rulebook.Number.Double
import Rulebook.Text.Basic

/-!
Values: what a record holds, what a stored tree is written as, and what JSON text denotes. The
entries of a dictionary keep the order in which their keys came first.
-/

namespace Rulebook

/-- A dynamic value. -/
inductive Value where
  | null
  | bool (b : Bool)
  | int (n : Int)
  | real (x : Double)
  | text (s : Text)
  | list (items : List Value)
  | dict (entries : List (Value × Value))
  deriving Repr, Inhabited

namespace Value

def ofString (s : String) : Value := .text s

/-- The number that a key stands for. Truth values count as 0 and 1, and a double with a whole
value as that integer, so that such keys fall together. -/
def keyNumber? : Value → Option (Int × Nat)
  | .bool b => some (if b then 1 else 0, 1)
  | .int n => some (n, 1)
  | .real (.finite negative units) =>
    let common := Nat.gcd units Double.unitsPerOne
    let num : Int := (units / common : Nat)
    some (if negative then -num else num, Double.unitsPerOne / common)
  | _ => none

/-- Two keys name the same entry. -/
def sameKey : Value → Value → Bool
  | .null, .null => true
  | .text s, .text t => s == t
  | .real (.infinite a), .real (.infinite b) => a == b
  | k, l =>
    match k.keyNumber?, l.keyNumber? with
    | some m, some n => m == n
    | _, _ => false

/-- The entries with `v` under the key `k`: a key that is there keeps its place, a new one comes
last. -/
def put (k v : Value) : List (Value × Value) → List (Value × Value)
  | [] => [(k, v)]
  | (l, w) :: rest => if sameKey l k then (l, v) :: rest else (l, w) :: put k v rest

/-- A dictionary from entries in order; the last value of a repeated key counts. -/
def ofEntries (entries : List (Value × Value)) : Value :=
  .dict (entries.foldl (fun acc e => put e.1 e.2 acc) [])

/-- The value under the text key `name` among entries. -/
def lookup (name : Text) : List (Value × Value) → Option Value
  | [] => none
  | (.text k, v) :: rest => if k == name then some v else lookup name rest
  | _ :: rest => lookup name rest

/-- The value of a field. Only a dictionary has fields. -/
def field? (record : Value) (name : Text) : Option Value :=
  match record with
  | .dict entries => lookup name entries
  | _ => none

def object (members : List (String × Value)) : Value :=
  .dict (members.map fun (k, v) => (.ofString k, v))

/-- A value is empty if it is null, false, zero, or has no members. -/
def isEmpty : Value → Bool
  | .null => true
  | .bool b => !b
  | .int n => n == 0
  | .real (.finite _ units) => units == 0
  | .real _ => false
  | .text s => s.isEmpty
  | .list items => items.isEmpty
  | .dict entries => entries.isEmpty

mutual

/-- How many values stand within each other; a value without members counts as one. -/
def levels : Value → Nat
  | .list items => itemLevels items + 1
  | .dict entries => entryLevels entries + 1
  | _ => 1

def itemLevels : List Value → Nat
  | [] => 0
  | v :: rest => max (levels v) (itemLevels rest)

def entryLevels : List (Value × Value) → Nat
  | [] => 0
  | (_, v) :: rest => max (levels v) (entryLevels rest)

end

theorem levels_pos (v : Value) : 0 < v.levels := by
  cases v <;> simp [levels]

/-- A value under a name does not nest deeper than the entries. -/
theorem levels_le_of_lookup {name : Text} {entries : List (Value × Value)} {v : Value}
    (h : lookup name entries = some v) : v.levels ≤ entryLevels entries := by
  induction entries with
  | nil => simp [lookup] at h
  | cons e rest ih =>
    obtain ⟨k, u⟩ := e
    have hrest : lookup name rest = some v → v.levels ≤ max u.levels (entryLevels rest) :=
      fun h => Nat.le_trans (ih h) (Nat.le_max_right _ _)
    rw [entryLevels]
    cases k with
    | text s =>
      rw [lookup] at h
      split at h
      · obtain rfl := Option.some.inj h
        exact Nat.le_max_left _ _
      · exact hrest h
    | _ => exact hrest h

end Value

end Rulebook
