import Rulebook.Number.Integer
import Rulebook.Text.Hex
import Rulebook.Text.Surrogate
import Rulebook.Value.Basic

/-!
Reading JSON text as a value. Numbers with a point or an exponent are doubles, all others integers;
the names `NaN`, `Infinity` and `-Infinity` are numbers too. Of repeated members the last counts.
Escapes for the two halves of a surrogate pair, one right after the other, stand for one character;
any other half stands alone. A reader may bound the digits of integers and the nesting.
-/

namespace Rulebook.Json

/-- Why a text could not be read. -/
inductive ReadFailure where
  | malformed
  | tooManyDigits (count most : Nat)
  | tooDeep (isObject : Bool)
  deriving DecidableEq, Repr

def ReadFailure.message : ReadFailure → String
  | malformed => "the text is not valid JSON"
  | tooManyDigits count most =>
    "Exceeds the limit (" ++ toString most ++ " digits) for integer string conversion: " ++
      "value has " ++ toString count ++
      " digits; use sys.set_int_max_str_digits() to increase the limit"
  | tooDeep isObject =>
    "maximum recursion depth exceeded while decoding a JSON " ++
      (if isObject then "object" else "array") ++ " from a unicode string"

/-- The most digits that an integer may have, and the most containers that may nest. -/
structure ReadBounds where
  digits : Nat
  depth : Nat
  deriving DecidableEq, Repr

/-- The characters that may stand between the parts of JSON text. -/
def isSpace (c : CodePoint) : Bool := c == ' ' || c == '\t' || c == '\n' || c == '\r'

def skip (t : Text) : Text := t.dropWhile isSpace

/-- The number that four hexadecimal digits denote. -/
def hexFour? (a b c d : CodePoint) : Option Nat := do
  let a ← Text.hexDigit? a
  let b ← Text.hexDigit? b
  let c ← Text.hexDigit? c
  let d ← Text.hexDigit? d
  return 4096 * a + 256 * b + 16 * c + d

/-- A part of a text: a code point that stands for itself, or a code unit that was escaped. -/
inductive TextPart where
  | plain (p : CodePoint)
  | unit (n : Nat)
  deriving DecidableEq, Repr

/-- The text of parts. Two units that make a surrogate pair are one character. -/
def joinParts : List TextPart → Text
  | [] => []
  | .plain p :: rest => p :: joinParts rest
  | [.unit n] => [.ofNat n]
  | .unit n :: .plain p :: rest => .ofNat n :: p :: joinParts rest
  | .unit n :: .unit m :: rest =>
    if Text.isHighSurrogate n && Text.isLowSurrogate m then
      .char (Text.joinSurrogates n m) :: joinParts rest
    else .ofNat n :: joinParts (.unit m :: rest)

def simpleEscape? (c : CodePoint) : Option CodePoint :=
  if c == '\x22' || c == '\\' || c == '/' then some c
  else if c == 'b' then some (.char '\x08')
  else if c == 'f' then some (.char '\x0c')
  else if c == 'n' then some (.char '\n')
  else if c == 'r' then some (.char '\r')
  else if c == 't' then some (.char '\t')
  else none

/-- Reads the parts of a text after its opening mark. Control characters do not stand in texts. -/
def readParts : Text → Option (List TextPart × Text)
  | [] => none
  | .char '\x22' :: rest => some ([], rest)
  | .char '\\' :: .char 'u' :: a :: b :: c :: d :: rest =>
    match hexFour? a b c d with
    | none => none
    | some n => (readParts rest).map fun r => (.unit n :: r.1, r.2)
  | .char '\\' :: c :: rest =>
    match simpleEscape? c with
    | none => none
    | some e => (readParts rest).map fun r => (.plain e :: r.1, r.2)
  | c :: rest =>
    if c.toNat < 32 || c == '\\' then none
    else (readParts rest).map fun r => (.plain c :: r.1, r.2)

def readText (t : Text) : Except ReadFailure (Text × Text) :=
  match readParts t with
  | some (parts, rest) => .ok (joinParts parts, rest)
  | none => .error .malformed

def splitDigits (t : Text) : Text × Text :=
  (t.takeWhile CodePoint.isDigit, t.dropWhile CodePoint.isDigit)

/-- Splits off the whole part of a number: a lone zero, or digits that do not start with one. -/
def splitWhole : Text → Text × Text
  | .char '0' :: rest => (['0'], rest)
  | t => splitDigits t

/-- Splits off a point with the digits after it, if there are such digits. -/
def splitFraction : Text → Text × Text
  | .char '.' :: rest =>
    let (digits, more) := splitDigits rest
    if digits.isEmpty then ([], .char '.' :: rest) else (.char '.' :: digits, more)
  | t => ([], t)

/-- Splits off an exponent with its digits, if there are such digits. -/
def splitExponent : Text → Text × Text
  | [] => ([], [])
  | e :: rest =>
    if e == 'e' || e == 'E' then
      let (sign, unsigned) : Text × Text := match rest with
        | .char '+' :: more => (['+'], more)
        | .char '-' :: more => (['-'], more)
        | more => ([], more)
      let (digits, more) := splitDigits unsigned
      if digits.isEmpty then ([], e :: rest) else (e :: sign ++ digits, more)
    else ([], e :: rest)

def readMagnitude (bounds : ReadBounds) (negative : Bool) (t : Text) :
    Except ReadFailure (Value × Text) :=
  let (whole, rest) := splitWhole t
  if whole.isEmpty then .error .malformed
  else
    let (fraction, rest) := splitFraction rest
    let (exponent, rest) := splitExponent rest
    if fraction.isEmpty && exponent.isEmpty then
      if bounds.digits < whole.length then .error (.tooManyDigits whole.length bounds.digits)
      else .ok (.int (signedInteger negative whole), rest)
    else
      match Double.readMagnitude negative (whole ++ fraction ++ exponent) with
      | some x => .ok (.real x, rest)
      | none => .error .malformed

def readNumber (bounds : ReadBounds) : Text → Except ReadFailure (Value × Text)
  | .char '-' :: rest => readMagnitude bounds true rest
  | t => readMagnitude bounds false t

def names : List (Text × Value) :=
  [("null", .null), ("true", .bool true), ("false", .bool false), ("NaN", .real .nan),
    ("Infinity", .real (.infinite false)), ("-Infinity", .real (.infinite true))]

def readScalar (bounds : ReadBounds) (t : Text) : Except ReadFailure (Value × Text) :=
  match names.find? (fun entry => Text.startsWith entry.1 t) with
  | some (name, v) => .ok (v, t.drop name.length)
  | none => readNumber bounds t

mutual

/-- Reads a value within which `depth` containers may nest. `fuel` bounds the nesting and the number
of members. -/
def readValue (bounds : ReadBounds) (fuel depth : Nat) (t : Text) :
    Except ReadFailure (Value × Text) :=
  match fuel with
  | 0 => .error .malformed
  | fuel + 1 =>
    match t with
    | .char '\x22' :: rest => do
      let (s, rest) ← readText rest
      return (.text s, rest)
    | .char '[' :: rest =>
      match depth with
      | 0 => .error (.tooDeep false)
      | depth + 1 =>
        match skip rest with
        | .char ']' :: more => .ok (.list [], more)
        | items => do
          let (items, rest) ← readItems bounds fuel depth items
          return (.list items, rest)
    | .char '\x7b' :: rest =>
      match depth with
      | 0 => .error (.tooDeep true)
      | depth + 1 =>
        match skip rest with
        | .char '\x7d' :: more => .ok (.dict [], more)
        | members => do
          let (entries, rest) ← readMembers bounds fuel depth members
          return (Value.ofEntries entries, rest)
    | t => readScalar bounds t

/-- Reads the items of a list up to its closing bracket. -/
def readItems (bounds : ReadBounds) (fuel depth : Nat) (t : Text) :
    Except ReadFailure (List Value × Text) :=
  match fuel with
  | 0 => .error .malformed
  | fuel + 1 => do
    let (v, rest) ← readValue bounds fuel depth t
    match skip rest with
    | .char ']' :: more => return ([v], more)
    | .char ',' :: more =>
      let (items, rest) ← readItems bounds fuel depth (skip more)
      return (v :: items, rest)
    | _ => .error .malformed

/-- Reads the members of an object up to its closing brace. -/
def readMembers (bounds : ReadBounds) (fuel depth : Nat) (t : Text) :
    Except ReadFailure (List (Value × Value) × Text) :=
  match fuel with
  | 0 => .error .malformed
  | fuel + 1 =>
    match t with
    | .char '\x22' :: rest => do
      let (key, rest) ← readText rest
      match skip rest with
      | .char ':' :: rest =>
        let (v, rest) ← readValue bounds fuel depth (skip rest)
        match skip rest with
        | .char '\x7d' :: more => return ([(.text key, v)], more)
        | .char ',' :: more =>
          let (entries, rest) ← readMembers bounds fuel depth (skip more)
          return ((.text key, v) :: entries, rest)
        | _ => .error .malformed
      | _ => .error .malformed
    | _ => .error .malformed

end

/-- The value of a JSON text within bounds. Nothing but space may surround it. -/
def read (bounds : ReadBounds) (t : Text) : Except ReadFailure Value := do
  let (v, rest) ← readValue bounds (2 * t.length + 2) bounds.depth (skip t)
  if (skip rest).isEmpty then return v else .error .malformed

/-- The value of a JSON text. No text has more digits or containers than code points. -/
def read? (t : Text) : Option Value := (read ⟨t.length, t.length⟩ t).toOption

end Rulebook.Json
