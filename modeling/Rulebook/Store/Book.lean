import Rulebook.Text.Hex
import Rulebook.Value.Basic

/-!
The book of stored rules. Each rule has a number of its own, from which its id and the time of its
creation come.
-/

namespace Rulebook

/-- A stored rule. The tree is kept in its stored form, whatever that is. -/
structure StoredRule where
  id : String
  name : String
  text : Text
  tree : Value
  created : Nat

/-- Where stored rules get their ids and the times of their creation from, by their numbers. -/
structure RowSource where
  idAt : Nat → String
  timeAt : Nat → Nat

/-- Digits in five groups, of which the first has `extra` more than the 8 that are usual. -/
def Text.grouped (extra : Nat) (digits : Text) : Text :=
  let group (start count : Nat) : Text := (digits.drop (extra + start)).take count
  joined "-" [digits.take (extra + 8), group 8 4, group 12 4, group 16 4, group 20 12]

/-- The id of the rule with a number: the number as 32 hexadecimal digits in five groups. Only a
number beyond 128 bits has more digits. -/
def StoredRule.idOfNumber (n : Nat) : String :=
  Text.toString (Text.grouped (Text.extraDigits 32 n) (Text.numeral 32 n))

/-- Ids that count the rules, at one moment for each of them. -/
def RowSource.counting : RowSource := ⟨StoredRule.idOfNumber, id⟩

/-- The order of rows in which a store lists them: by time, then by id. -/
def StoredRule.rowLe (a b : StoredRule) : Bool :=
  a.created < b.created || a.created == b.created && a.id ≤ b.id

/-- The stored rules, in the order in which they were stored. -/
structure Book where
  rules : List StoredRule

namespace Book

def empty : Book := ⟨[]⟩

def add (book : Book) (rule : StoredRule) : Book := ⟨book.rules ++ [rule]⟩

def find? (book : Book) (id : String) : Option StoredRule := book.rules.find? (fun r => r.id == id)

def remove (book : Book) (id : String) : Book := ⟨book.rules.filter (fun r => r.id != id)⟩

/-- Puts a row before the first that may stand behind it. -/
def insertRow (row : StoredRule) : List StoredRule → List StoredRule
  | [] => [row]
  | other :: rows => if row.rowLe other then row :: other :: rows else other :: insertRow row rows

/-- The rows of a book as a store lists them. -/
def rows (book : Book) : List StoredRule := book.rules.foldr insertRow []

/-- The rows after the first `skip`, at most `limit` of them. A negative `skip` skips nothing, a
negative `limit` is no limit. -/
def window (book : Book) (skip limit : Int) : List StoredRule :=
  let after := book.rows.drop skip.toNat
  if limit < 0 then after else after.take limit.toNat

end Book

end Rulebook
