import Rulebook.Number.Decimal
import Rulebook.Rule.Tree
import Rulebook.Text.Blank
import Rulebook.Value.Text

/-!
Deciding a tree on a record. `AND` stops at the first side that is false, `OR` at the first that
is true; the fields that were looked up are part of the verdict. What cannot be compared does not
match.
-/

namespace Rulebook

/-- Why a decision was given up. -/
inductive VerdictFailure where
  /-- An integer rounds to no finite double. -/
  | integerTooLarge
  deriving DecidableEq, Repr

def VerdictFailure.message : VerdictFailure → String
  | .integerTooLarge => "int too large to convert to float"

/-- A decision, or why it was given up, and the fields looked up on the way. -/
structure Verdict where
  result : Except VerdictFailure Bool
  lookups : List Text

/-- The number that a text denotes, blanks at its ends aside. -/
def textNumber? (t : Text) : Option Double := Double.read? (Text.strip t)

/-- The number for an integer, if the integer rounds to a double. -/
def integerNumber : Option Double → Except VerdictFailure (Option Double)
  | some x => .ok (some x)
  | none => .error .integerTooLarge

/-- The number that a value stands for in an ordering. Truth values and containers are no
numbers. -/
def Value.number? : Value → Except VerdictFailure (Option Double)
  | .int n => integerNumber (Double.ofInt? n)
  | .real x => .ok (some x)
  | .text s => .ok (textNumber? s)
  | _ => .ok none

/-- The orderings of numbers. The comparators for equality do not order. -/
def Comparator.orders (c : Option Comparator) (x y : Double) : Bool :=
  match c with
  | some .gt => y.lt x
  | some .lt => x.lt y
  | some .ge => y.le x
  | some .le => x.le y
  | _ => false

namespace Comparison

/-- An ordering holds of two numbers only. -/
def ordered (c : Comparison) (v : Value) : Except VerdictFailure Bool :=
  match v.number? with
  | .error e => .error e
  | .ok none => .ok false
  | .ok (some x) =>
    match textNumber? c.unquoted with
    | none => .ok false
    | some y => .ok (Comparator.orders (Comparator.ofSymbol? c.comparator) x y)

/-- Whether a comparison holds of a value that is there. Equality goes by text; a quoted literal
has no ordering. -/
def holdsOf (c : Comparison) (v : Value) : Except VerdictFailure Bool :=
  match Comparator.ofSymbol? c.comparator with
  | some .eq => .ok (v.display == c.unquoted)
  | some .ne => .ok (v.display != c.unquoted)
  | _ => if c.isQuoted then .ok false else c.ordered v

/-- Whether a comparison holds of a record. A field that is absent or null never matches. -/
def holds (c : Comparison) (record : Value) : Except VerdictFailure Bool :=
  match record.field? c.field with
  | none => .ok false
  | some .null => .ok false
  | some v => c.holdsOf v

end Comparison

/-- One side settles a join: a false side settles `AND`, a true side `OR`. -/
def Connective.isSettledBy (connective : Connective) (side : Bool) : Bool :=
  match connective with
  | .and => !side
  | .or => side

/-- A join that waits for one of its sides: its connective, its right side, and whether the right
side is the one that is being decided. -/
structure WaitingJoin where
  connective : Connective
  right : Tree
  rightTaken : Bool

/-- Goes down the left sides to the first tree that is no known join. The joins on the way wait. -/
def descend : Tree → List WaitingJoin → Tree × List WaitingJoin
  | .join w left right, waiting =>
    match Connective.ofWord? w with
    | some connective => descend left (⟨connective, right, false⟩ :: waiting)
    | none => (.join w left right, waiting)
  | t, waiting => (t, waiting)

/-- The right side to decide next, and the joins that wait then, once a side came out as `side`.
There is none if that settles all joins. -/
def nextTurn? (side : Bool) : List WaitingJoin → Option (Tree × List WaitingJoin)
  | [] => none
  | join :: waiting =>
    if join.rightTaken || join.connective.isSettledBy side then nextTurn? side waiting
    else some (join.right, { join with rightTaken := true } :: waiting)

/-- The verdict on a tree without a known join on top: a comparison looks up its field, all else
is false. -/
def atomVerdict (record : Value) : Tree → Verdict
  | .leaf c => ⟨c.holds record, [c.field]⟩
  | _ => ⟨.ok false, []⟩

def Tree.weight : Tree → Nat
  | .join _ left right => left.weight + right.weight + 2
  | _ => 1

/-- The size of the sides that are still to be decided. -/
def waitingWeight : List WaitingJoin → Nat
  | [] => 0
  | join :: waiting =>
    (if join.rightTaken then 0 else join.right.weight + 1) + waitingWeight waiting

/-- Going down loses no work and adds none. -/
theorem descend_weight_le (t : Tree) (waiting : List WaitingJoin) :
    waitingWeight (descend t waiting).2 + 1 ≤ t.weight + waitingWeight waiting := by
  induction t generalizing waiting with
  | join w left right ihl _ =>
    unfold descend
    split
    · have := ihl (⟨‹_›, right, false⟩ :: waiting)
      simp only [waitingWeight, Tree.weight, Bool.false_eq_true, ↓reduceIte] at *
      omega
    · simp only [Tree.weight]; omega
  | leaf c | hole | foreign =>
    simp only [descend, Tree.weight]
    omega

/-- Turning to a right side leaves less work than there was. -/
theorem nextTurn?_weight_lt {side : Bool} {waiting after : List WaitingJoin} {next : Tree}
    (h : nextTurn? side waiting = some (next, after)) :
    next.weight + waitingWeight after < waitingWeight waiting := by
  induction waiting with
  | nil => simp [nextTurn?] at h
  | cons j rest ih =>
    unfold nextTurn? at h
    split at h
    · have := ih h
      simp only [waitingWeight]; omega
    · rename_i hj
      simp only [Option.some.injEq, Prod.mk.injEq] at h
      obtain ⟨rfl, rfl⟩ := h
      simp only [Bool.or_eq_true, not_or, Bool.not_eq_true] at hj
      simp [waitingWeight, hj.1]

/-- Decides the tree `t` and, after it, the joins that wait. `seen` are the fields looked up so
far, the latest first. -/
def decideFrom (record : Value) (t : Tree) (waiting : List WaitingJoin) (seen : List Text) :
    Verdict :=
  let v := atomVerdict record (descend t waiting).1
  let seen := v.lookups.reverse ++ seen
  match v.result with
  | .error e => ⟨.error e, seen.reverse⟩
  | .ok side =>
    match h : nextTurn? side (descend t waiting).2 with
    | none => ⟨.ok side, seen.reverse⟩
    | some (next, after) =>
      have := nextTurn?_weight_lt h
      have := descend_weight_le t waiting
      decideFrom record next after seen
termination_by t.weight + waitingWeight waiting

def Tree.decideOn (t : Tree) (record : Value) : Verdict := decideFrom record t [] []

end Rulebook
