import Rulebook.Text.Hex
import Rulebook.Text.Surrogate
import Rulebook.Value.Text

/-!
Writing a value as JSON text: on one line, without any space, or indented by two spaces for each
level. In ASCII, characters beyond the first plane are written as surrogate pairs.
-/

namespace Rulebook.Json

/-- How a value is written: what stands before the first member, between two, after the last, given
the level of nesting, and after a key; and whether all but ASCII is escaped. -/
structure Style where
  first : Nat → Text
  between : Nat → Text
  last : Nat → Text
  afterKey : Text
  inAscii : Bool

def Style.oneLine : Style := ⟨fun _ => "", fun _ => ", ", fun _ => "", ": ", true⟩

/-- As short as can be, with all characters as they are. -/
def Style.compact : Style := ⟨fun _ => "", fun _ => ",", fun _ => "", ":", false⟩

def margin (level : Nat) : Text := .char '\n' :: List.replicate (2 * level) (.char ' ')

def Style.indented : Style :=
  ⟨fun level => margin (level + 1), fun level => "," ++ margin (level + 1), margin, ": ", true⟩

def unitEscape (n : Nat) : Text := .char '\\' :: .char 'u' :: Text.hexDigits 4 n

def writtenChar (inAscii : Bool) (c : CodePoint) : Text :=
  if c == '\x22' || c == '\\' then [.char '\\', c]
  else if c == '\n' then [.char '\\', .char 'n']
  else if c == '\r' then [.char '\\', .char 'r']
  else if c == '\t' then [.char '\\', .char 't']
  else if c == '\x08' then [.char '\\', .char 'b']
  else if c == '\x0c' then [.char '\\', .char 'f']
  else if 32 ≤ c.toNat && (c.toNat ≤ 126 || !inAscii) then [c]
  else (Text.unitsOfNumber c.toNat).flatMap unitEscape

def writtenText (inAscii : Bool) (t : Text) : Text :=
  .char '\x22' :: t.flatMap (writtenChar inAscii) ++ [.char '\x22']

def writtenDouble : Double → Text
  | .nan => "NaN"
  | .infinite negative => if negative then "-Infinity" else "Infinity"
  | x => Text.ofChars x.text

def writtenScalar (inAscii : Bool) : Value → Text
  | .null => "null"
  | .bool b => if b then "true" else "false"
  | .int n => Text.ofInt n
  | .real x => writtenDouble x
  | .text s => writtenText inAscii s
  | _ => []

/-- The key of a member. Keys that are not texts are written as the texts of their values. -/
def writtenKey (inAscii : Bool) : Value → Text
  | .text s => writtenText inAscii s
  | k => writtenText inAscii (writtenScalar inAscii k)

mutual

/-- The text of a value at a level of nesting, with `rest` after it. -/
def written (style : Style) (level : Nat) : Value → Text → Text
  | .list [], rest => .char '[' :: .char ']' :: rest
  | .list (v :: more), rest =>
    .char '[' :: (style.first level ++ written style (level + 1) v
      (writtenItems style level more (style.last level ++ .char ']' :: rest)))
  | .dict [], rest => .char '\x7b' :: .char '\x7d' :: rest
  | .dict ((k, v) :: more), rest =>
    .char '\x7b' :: (style.first level ++ writtenKey style.inAscii k ++ style.afterKey ++
      written style (level + 1) v
        (writtenMembers style level more (style.last level ++ .char '\x7d' :: rest)))
  | v, rest => writtenScalar style.inAscii v ++ rest

/-- The items after the first, with `rest` after them. -/
def writtenItems (style : Style) (level : Nat) : List Value → Text → Text
  | [], rest => rest
  | v :: more, rest =>
    style.between level ++ written style (level + 1) v (writtenItems style level more rest)

/-- The members after the first, with `rest` after them. -/
def writtenMembers (style : Style) (level : Nat) : List (Value × Value) → Text → Text
  | [], rest => rest
  | (k, v) :: more, rest =>
    style.between level ++ writtenKey style.inAscii k ++ style.afterKey ++
      written style (level + 1) v (writtenMembers style level more rest)

end

def line (v : Value) : Text := written .oneLine 0 v []

def compact (v : Value) : Text := written .compact 0 v []

def indented (v : Value) : Text := written .indented 0 v []

end Rulebook.Json
