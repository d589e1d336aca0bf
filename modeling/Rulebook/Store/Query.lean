import Rulebook.Json.Printer
import Rulebook.Store.Book

/-!
Queries of a store, as statements with parameters. A report of a query that failed shows both; a
parameter that is long is shown by its beginning and its end.
-/

namespace Rulebook

/-- What a store is asked. -/
inductive StoreQuery where
  | window (skip limit : Int)
  | byId (id : String)
  | insert (rule : StoredRule)

namespace StoreQuery

/-- The columns that are asked for, and the table that has them. -/
def selection : String :=
  "SELECT rules.id, rules.name, rules.rule_text, rules.rule_ast, rules.created_at, " ++
    "rules.updated_at \nFROM rules"

/-- The statement of a query, with question marks in place of its parameters. -/
def statement : StoreQuery → String
  | window _ _ => selection ++ " ORDER BY rules.created_at, rules.id\n LIMIT ? OFFSET ?"
  | byId _ => selection ++ " \nWHERE rules.id = ?"
  | insert _ =>
    "INSERT INTO rules (id, name, rule_text, rule_ast) VALUES (?, ?, ?, ?) " ++
      "RETURNING created_at, updated_at"

/-- The parameters of a query. A tree is written as JSON text. -/
def parameters : StoreQuery → List Value
  | window skip limit => [.int limit, .int skip]
  | byId id => [.ofString id]
  | insert rule => [.ofString rule.id, .ofString rule.name, .text rule.text,
      .text (Json.line rule.tree)]

def mostShown : Nat := 300

/-- A text, or its beginning and its end if it is long. -/
def abridged (t : Text) : Text :=
  if mostShown < t.length then
    t.take (mostShown / 2) ++ " ... (" ++ Text.ofNat (t.length - mostShown) ++
      " characters truncated) ... " ++ t.drop (t.length - mostShown / 2)
  else t

/-- The parameters as they are shown. A single one has a comma after it. -/
def shownParameters (q : StoreQuery) : Text :=
  match q.parameters.map fun v => abridged v.shown with
  | [one] => "(" ++ one ++ ",)"
  | many => "(" ++ Text.joined ", " many ++ ")"

def shown (q : StoreQuery) : Text :=
  "[SQL: " ++ Text.ofString q.statement ++ "]\n[parameters: " ++ q.shownParameters ++ "]"

end StoreQuery

end Rulebook
