import Rulebook.Check.Problem
import Rulebook.Number.Integer
import Rulebook.Value.Basic

/-!
Checks of single values: texts, integers, truth values, lists and names. Integers and truth values
are also read from text.
-/

namespace Rulebook.Check

def text (v : Value) : Checked Text :=
  match v with
  | .text s => .good s
  | _ => .fail .notText v

/-- A text in which no half of a surrogate pair stands alone. -/
def string (v : Value) : Checked String :=
  (text v).andThen fun s =>
    match Text.toString? s with
    | some s => .good s
    | none => .fail .unreadableText v

/-- A digit that may begin a number, or a minus sign. -/
def beginsNumber (c : CodePoint) : Bool := (c.isDigit && c != '0') || c == '-'

/-- Passes over zeros and underscores after a zero, up to where the number begins. A zero is left
if nothing follows, or before a point. -/
def pastZeros (last : CodePoint) : Text → Option Text
  | [] => some [last]
  | c :: rest =>
    if c == '0' || c == '_' then pastZeros c rest
    else if beginsNumber c then some (c :: rest)
    else if c == '.' then some (last :: c :: rest)
    else none

/-- Drops the zeros that lead a number. -/
def withoutLeadingZeros : Text → Option Text
  | [] => none
  | c :: rest =>
    if c == '0' then pastZeros c rest
    else if beginsNumber c then some (c :: rest)
    else none

/-- Drops a plus sign; another sign may not follow it. -/
def withoutPlus : Text → Option Text
  | .char '+' :: .char '-' :: _ => none
  | .char '+' :: rest => some rest
  | t => some t

def withoutFraction (t : Text) : Option Text :=
  match t.dropWhile (· != .char '.') with
  | [] => some t
  | [_] => none
  | _ :: zeros => if zeros.all (· == .char '0') then some (t.takeWhile (· != .char '.')) else none

/-- Drops single underscores that stand inside a number. -/
def withoutUnderscores (t : Text) : Option Text :=
  if (Text.pieces (.char '_') t).all (!·.isEmpty) then some (t.filter (· != .char '_')) else none

/-- The sign and the digits of an integer in a text. White space may surround it, zeros may lead it,
single underscores may stand inside it, and a fraction of zeros may follow it. -/
def integerText? (t : Text) : Option (Bool × Text) := do
  let plain ← withoutPlus (Text.trimBoth Text.isWhiteSpace t)
  let number ← withoutLeadingZeros plain
  let whole ← withoutFraction number
  let (negative, digits) := Double.splitSign (← withoutUnderscores whole)
  if digits.isEmpty || !digits.all CodePoint.isDigit then none
  else if digits.head? == some (.char '0') && 1 < digits.length then none
  else some (negative, digits)

/-- The integer that a sign and digits denote, if there are not too many digits. -/
def integerOfText (v : Value) (t : Text) : Checked Int :=
  match integerText? t with
  | none => .fail .unreadableInteger v
  | some (negative, digits) =>
    if mostIntegerDigits < digits.length then .fail .integerTooLarge v
    else .good (signedInteger negative digits)

def integerOfDouble? : Double → Option Int
  | .finite negative units =>
    if units % Double.unitsPerOne = 0 then
      let n : Int := (units / Double.unitsPerOne : Nat)
      some (if negative then -n else n)
    else none
  | _ => none

/-- The first integer beyond those of 64 bits. -/
def wordBound : Int := 9223372036854775808

/-- An integer, or a value that stands for one. A double has to be well within 64 bits. -/
def integer (v : Value) : Checked Int :=
  match v with
  | .int n => .good n
  | .bool b => .good (if b then 1 else 0)
  | .text t => integerOfText v t
  | .real x =>
    match x, integerOfDouble? x with
    | .finite _ _, some n =>
      if -wordBound < n && n < wordBound then .good n else .fail .integerTooLarge v
    | .finite _ _, none => .fail .fractionalInteger v
    | _, _ => .fail .notFinite v
  | _ => .fail .notInteger v

def truthTexts : List Text := ["1", "true", "t", "yes", "y", "on"]

def falsehoodTexts : List Text := ["0", "false", "f", "no", "n", "off"]

/-- Zero and one stand for truth values. -/
def truthOfInteger (v : Value) (n : Int) : Checked Bool :=
  if n = 0 then .good false else if n = 1 then .good true else .fail .unreadableTruthValue v

def truthValue (v : Value) : Checked Bool :=
  match v with
  | .bool b => .good b
  | .int n =>
    if -wordBound ≤ n && n < wordBound then truthOfInteger v n else .fail .notTruthValue v
  | .text s =>
    if truthTexts.contains (Text.toLower s) then .good true
    else if falsehoodTexts.contains (Text.toLower s) then .good false
    else .fail .unreadableTruthValue v
  | .real x =>
    match integerOfDouble? x with
    | some n =>
      if -wordBound < n && n < wordBound then truthOfInteger v n else .fail .notTruthValue v
    | none => .fail .notTruthValue v
  | _ => .fail .notTruthValue v

def textList (v : Value) : Checked (List Text) :=
  match v with
  | .list items => Checked.items text 0 items
  | _ => .fail .notList v

def dictionary (v : Value) : Checked (List (Value × Value)) :=
  match v with
  | .dict entries => .good entries
  | _ => .fail .notDictionary v

/-- One of the names of a table, as what the table says. -/
def oneOf {α : Type} (table : List (String × α)) (v : Value) : Checked α :=
  match v with
  | .text s =>
    match (Text.toString? s).bind fun name => table.lookup name with
    | some a => .good a
    | none => .fail (.notOneOf (table.map (·.1))) v
  | _ => .fail (.notOneOf (table.map (·.1))) v

/-- A string of at least `least` and at most `most` characters. -/
def boundedString (least most : Nat) (v : Value) : Checked String :=
  (string v).andThen fun s =>
    if s.length < least then .fail (.textTooShort least) v
    else if most < s.length then .fail (.textTooLong most) v
    else .good s

/-- The value under a name, checked; a default if it is absent. -/
def optional {α : Type} (name : String) (given : Option Value) (default : α)
    (check : Value → Checked α) : Checked α :=
  match given with
  | none => .good default
  | some v => (check v).under (.name name)

/-- The value under a name among entries, checked; a default if it is absent. -/
def optionalMember {α : Type} (name : String) (entries : List (Value × Value)) (default : α)
    (check : Value → Checked α) : Checked α :=
  optional name (Value.lookup name entries) default check

/-- The value under a name among entries, checked; it has to be there. -/
def requiredMember {α : Type} (name : String) (entries : List (Value × Value))
    (check : Value → Checked α) : Checked α :=
  match Value.lookup name entries with
  | none => Checked.under (.name name) (.fail .missing (.dict entries))
  | some v => (check v).under (.name name)

end Rulebook.Check
