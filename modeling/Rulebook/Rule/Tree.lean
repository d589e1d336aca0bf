import Rulebook.Text.Basic

/-!
Rule trees: comparisons joined by connectives. A tree that was damaged may have holes, foreign
nodes and connectives that no rule knows; such a tree is not well formed, but it is still a tree.
-/

namespace Rulebook

/-- The two connectives that rules know. -/
inductive Connective where
  | and
  | or
  deriving DecidableEq, Repr

namespace Connective

def word : Connective → Text
  | .and => "AND"
  | .or => "OR"

def ofWord? (w : Text) : Option Connective :=
  if w = "AND" then some .and else if w = "OR" then some .or else none

/-- How tightly a connective binds; `AND` binds tighter than `OR`. -/
def precedence : Connective → Nat
  | .or => 1
  | .and => 2

end Connective

/-- The six comparators. -/
inductive Comparator where
  | gt
  | lt
  | eq
  | ne
  | ge
  | le
  deriving DecidableEq, Repr

namespace Comparator

def symbol : Comparator → Text
  | .gt => ">"
  | .lt => "<"
  | .eq => "="
  | .ne => "!="
  | .ge => ">="
  | .le => "<="

def ofSymbol? (s : Text) : Option Comparator :=
  if s = ">" then some .gt else if s = "<" then some .lt else if s = "=" then some .eq
  else if s = "!=" then some .ne else if s = ">=" then some .ge else if s = "<=" then some .le
  else none

def isSymbol (s : Text) : Bool := (ofSymbol? s).isSome

end Comparator

/-- A condition on one field. The literal is kept as written, quotation marks included. -/
structure Comparison where
  field : Text
  comparator : Text
  literal : Text
  deriving DecidableEq, Repr

namespace Comparison

def text (c : Comparison) : Text :=
  c.field ++ " " ++ c.comparator ++ " " ++ c.literal

def mark : CodePoint := .char '\x27'

/-- A literal between single quotation marks. -/
def isQuoted (c : Comparison) : Bool :=
  2 ≤ c.literal.length && c.literal.head? == some mark && c.literal.getLast? == some mark

/-- The literal without the marks around it, if it has them. -/
def unquoted (c : Comparison) : Text :=
  if c.isQuoted then (c.literal.drop 1).dropLast else c.literal

/-- A field, a known comparator and a literal are there. -/
def isValid (c : Comparison) : Bool :=
  !c.field.isEmpty && Comparator.isSymbol c.comparator && !c.literal.isEmpty

end Comparison

/-- A rule tree. A hole stands for a missing subtree, `foreign` for a node of no known kind. -/
inductive Tree where
  | leaf (comparison : Comparison)
  | join (connective : Text) (left right : Tree)
  | hole
  | foreign
  deriving DecidableEq, Repr, Inhabited

namespace Tree

/-- Every connective is known and every leaf is a valid comparison. -/
def isWellFormed : Tree → Bool
  | .leaf c => c.isValid
  | .join w left right => (Connective.ofWord? w).isSome && left.isWellFormed && right.isWellFormed
  | .hole => false
  | .foreign => false

def height : Tree → Nat
  | .join _ left right => max left.height right.height + 1
  | _ => 0

/-- The comparisons of a tree from left to right, whatever the connectives. -/
def comparisons : Tree → List Comparison
  | .leaf c => [c]
  | .join _ left right => left.comparisons ++ right.comparisons
  | .hole => []
  | .foreign => []

end Tree

end Rulebook
