import Rulebook.Number.Shortest
import Rulebook.Text.Quoted
import Rulebook.Value.Basic

/-!
The text of a value, by which equality comparisons go. A text is its own text; inside a container
it is quoted. Lists stand in brackets, dictionaries in braces, in their own order.
-/

namespace Rulebook.Value

def commaSeparated (members : List Text) : Text := Text.joined ", " members

mutual

/-- The text of a value as a member of a container. -/
def shown : Value → Text
  | .null => "None"
  | .bool b => if b then "True" else "False"
  | .int n => Text.ofInt n
  | .real x => Text.ofChars x.text
  | .text s => Text.quoted s
  | .list items => "[" ++ commaSeparated (shownItems items) ++ "]"
  | .dict entries => "\x7b" ++ commaSeparated (shownEntries entries) ++ "\x7d"

def shownItems : List Value → List Text
  | [] => []
  | v :: rest => shown v :: shownItems rest

def shownEntries : List (Value × Value) → List Text
  | [] => []
  | (k, v) :: rest => (shown k ++ ": " ++ shown v) :: shownEntries rest

end

/-- The text that a comparison sees. Every value has one here, however deep it nests; a program that
writes it level by level may break off on one that nests very deep. -/
def display : Value → Text
  | .text s => s
  | v => v.shown

end Rulebook.Value
