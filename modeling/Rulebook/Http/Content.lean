import Rulebook.Http.Message
import Rulebook.Json.Printer
import Rulebook.Text.Unwritable

/-!
What a response says, as a value and as JSON text. Numbers that are not finite have no JSON text,
and halves of surrogate pairs that stand alone have no bytes.
-/

namespace Rulebook

namespace Value

mutual

/-- A number that is not finite stands somewhere in a value. -/
def hasNonFinite : Value → Bool
  | .real (.finite _ _) => false
  | .real _ => true
  | .list items => itemsHaveNonFinite items
  | .dict entries => entriesHaveNonFinite entries
  | _ => false

/-- One of the items has a number that is not finite. -/
def itemsHaveNonFinite : List Value → Bool
  | [] => false
  | v :: rest => hasNonFinite v || itemsHaveNonFinite rest

/-- One of the values of a dictionary has a number that is not finite. -/
def entriesHaveNonFinite : List (Value × Value) → Bool
  | [] => false
  | (_, v) :: rest => hasNonFinite v || entriesHaveNonFinite rest

end

mutual

/-- The value with null for every number that is not finite. -/
def withoutNonFinite : Value → Value
  | .real (.finite negative units) => .real (.finite negative units)
  | .real _ => .null
  | .list items => .list (itemsWithoutNonFinite items)
  | .dict entries => .dict (entriesWithoutNonFinite entries)
  | v => v

/-- The items with null for every number that is not finite. -/
def itemsWithoutNonFinite : List Value → List Value
  | [] => []
  | v :: rest => withoutNonFinite v :: itemsWithoutNonFinite rest

/-- The entries with null for every number that is not finite. -/
def entriesWithoutNonFinite : List (Value × Value) → List (Value × Value)
  | [] => []
  | (k, v) :: rest => (k, withoutNonFinite v) :: entriesWithoutNonFinite rest

end

/-- How the names of members begin that are not shown. -/
def hiddenStem : Text := "_sa"

def isHiddenKey : Value → Bool
  | .text name => Text.startsWith hiddenStem name
  | _ => false

mutual

def withoutHidden : Value → Value
  | .list items => .list (itemsWithoutHidden items)
  | .dict entries => .dict (entriesWithoutHidden entries)
  | v => v

def itemsWithoutHidden : List Value → List Value
  | [] => []
  | v :: rest => withoutHidden v :: itemsWithoutHidden rest

/-- The entries that are not hidden, without their hidden members. -/
def entriesWithoutHidden : List (Value × Value) → List (Value × Value)
  | [] => []
  | (k, v) :: rest =>
    if isHiddenKey k then entriesWithoutHidden rest
    else (k, withoutHidden v) :: entriesWithoutHidden rest

end

end Value

/-- A problem as a value, with the value that has it. -/
def Problem.value (p : Problem) : Value :=
  .object ([("type", .ofString p.kind.code), ("loc", .list (p.path.map PathStep.value)),
    ("msg", .ofString p.kind.message), ("input", p.input.withoutHidden)] ++
    match p.kind.context? with
    | some v => [("ctx", v)]
    | none => [])

namespace Http

def Body.content? : Body → Option Value
  | .json v => some v
  | .problems ps => some (.object [("detail", .list (ps.map Problem.value))])
  | .empty | .page => none

/-- Why a response cannot be sent. -/
inductive ContentFault where
  | notFinite
  | unwritable (what : Text.Unwritable)
  deriving DecidableEq, Repr

namespace ContentFault

def kind : ContentFault → String
  | notFinite => "ValueError"
  | unwritable _ => "UnicodeEncodeError"

def message : ContentFault → Text
  | notFinite => "Out of range float values are not JSON compliant"
  | unwritable what => what.message

end ContentFault

/-- What keeps a response from being sent, if anything does. -/
def Response.fault? (r : Response) : Option ContentFault :=
  r.body.content?.bind fun v =>
    if v.hasNonFinite then some .notFinite
    else (Text.unwritable? .utf8 (Json.compact v)).map .unwritable

end Http

end Rulebook
