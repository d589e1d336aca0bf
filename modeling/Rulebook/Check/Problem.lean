import Rulebook.Value.Basic

/-!
Problems found in values that come from outside, and checks that collect them. A check of several
parts reports the problems of all parts, in their order.
-/

namespace Rulebook

/-- A step from a value to one of its members. -/
inductive PathStep where
  | name (s : String)
  | index (n : Nat)
  deriving DecidableEq, Repr

/-- What is wrong with a value. -/
inductive ProblemKind where
  | missing
  | notText
  | unreadableText
  | textTooShort (least : Nat)
  | textTooLong (most : Nat)
  | notInteger
  | unreadableInteger
  | integerTooLarge
  | fractionalInteger
  | notFinite
  | notAbove (bound : Int)
  | notTruthValue
  | unreadableTruthValue
  | notList
  | notDictionary
  | notOneOf (names : List String)
  | refused (reason : String)
  | notModel (model : String)
  | notAttributes
  | notJson
  deriving DecidableEq, Repr

namespace ProblemKind

def code : ProblemKind → String
  | missing => "missing"
  | notText => "string_type"
  | unreadableText => "string_unicode"
  | textTooShort _ => "string_too_short"
  | textTooLong _ => "string_too_long"
  | notInteger => "int_type"
  | unreadableInteger => "int_parsing"
  | integerTooLarge => "int_parsing_size"
  | fractionalInteger => "int_from_float"
  | notFinite => "finite_number"
  | notAbove _ => "greater_than"
  | notTruthValue => "bool_type"
  | unreadableTruthValue => "bool_parsing"
  | notList => "list_type"
  | notDictionary => "dict_type"
  | notOneOf _ => "literal_error"
  | refused _ => "value_error"
  | notModel _ => "model_type"
  | notAttributes => "model_attributes_type"
  | notJson => "json_invalid"

def characters (n : Nat) : String :=
  toString n ++ (if n = 1 then " character" else " characters")

/-- Names in quotation marks, the last two joined by `or`. -/
def alternatives : List String → String
  | [] => ""
  | [a] => "'" ++ a ++ "'"
  | [a, b] => "'" ++ a ++ "' or '" ++ b ++ "'"
  | a :: rest => "'" ++ a ++ "', " ++ alternatives rest

def message : ProblemKind → String
  | missing => "Field required"
  | notText => "Input should be a valid string"
  | unreadableText =>
    "Input should be a valid string, unable to parse raw data as a unicode string"
  | textTooShort n => "String should have at least " ++ characters n
  | textTooLong n => "String should have at most " ++ characters n
  | notInteger => "Input should be a valid integer"
  | unreadableInteger => "Input should be a valid integer, unable to parse string as an integer"
  | integerTooLarge => "Unable to parse input string as an integer, exceeded maximum size"
  | fractionalInteger => "Input should be a valid integer, got a number with a fractional part"
  | notFinite => "Input should be a finite number"
  | notAbove bound => "Input should be greater than " ++ toString bound
  | notTruthValue => "Input should be a valid boolean"
  | unreadableTruthValue => "Input should be a valid boolean, unable to interpret input"
  | notList => "Input should be a valid list"
  | notDictionary => "Input should be a valid dictionary"
  | notOneOf names => "Input should be " ++ alternatives names
  | refused reason => "Value error, " ++ reason
  | notModel model => "Input should be a valid dictionary or instance of " ++ model
  | notAttributes => "Input should be a valid dictionary or object to extract fields from"
  | notJson => "JSON decode error"

/-- What a problem says about the bound or the reason behind it, if there is one. -/
def context? : ProblemKind → Option Value
  | textTooShort n => some (.object [("min_length", .int n)])
  | textTooLong n => some (.object [("max_length", .int n)])
  | refused _ => some (.object [("error", .object [])])
  | _ => none

end ProblemKind

/-- A problem, the path to the value that has it, and that value. If the value is missing, it is
the dictionary in which it was looked for. -/
structure Problem where
  kind : ProblemKind
  path : List PathStep
  input : Value

def PathStep.text : PathStep → String
  | .name s => s
  | .index n => toString n

/-- The report of a problem, after the path to where it is. -/
def Problem.message (p : Problem) : String :=
  ".".intercalate (p.path.map PathStep.text) ++ ": " ++ p.kind.message

def PathStep.value : PathStep → Value
  | .name s => .ofString s
  | .index n => .int n

/-- The outcome of a check: a value, or the problems that were found. -/
inductive Checked (α : Type) where
  | good (a : α)
  | bad (problems : List Problem)

namespace Checked

/-- A check with a single problem, at the value itself. -/
def fail {α : Type} (kind : ProblemKind) (input : Value) : Checked α := .bad [⟨kind, [], input⟩]

/-- The same outcome, seen from the value that `step` leads away from. -/
def under {α : Type} (step : PathStep) : Checked α → Checked α
  | .good a => .good a
  | .bad problems => .bad (problems.map fun p => { p with path := step :: p.path })

def map {α β : Type} (f : α → β) : Checked α → Checked β
  | .good a => .good (f a)
  | .bad problems => .bad problems

/-- Applies a checked function to a checked value; the problems of both are reported. -/
def apply {α β : Type} : Checked (α → β) → Checked α → Checked β
  | .good f, .good a => .good (f a)
  | .good _, .bad q => .bad q
  | .bad p, .good _ => .bad p
  | .bad p, .bad q => .bad (p ++ q)

/-- A check that is made only of a good value. -/
def andThen {α β : Type} (c : Checked α) (next : α → Checked β) : Checked β :=
  match c with
  | .good a => next a
  | .bad problems => .bad problems

instance : Applicative Checked where
  pure := .good
  map := Checked.map
  seq f a := apply f (a ())

/-- Checks every item; the problems of each are reported under its index. -/
def items {α β : Type} (check : α → Checked β) (start : Nat) : List α → Checked (List β)
  | [] => .good []
  | a :: rest =>
    apply (Checked.map List.cons ((check a).under (.index start))) (items check (start + 1) rest)

end Checked

end Rulebook
