import Rulebook.Number.Double
import Rulebook.Text.DecimalDigit

/-!
Reading a double from decimal text: a sign, digits with an optional point and exponent, or the
names of the infinities and of what is not a number. The value is the double nearest to the
written decimal.
-/

namespace Rulebook.Double

def digitsToNat (t : Text) : Nat := t.foldl (fun n c => 10 * n + (c.toNat - 48)) 0

/-- Decimal exponents above this are beyond every double, those below its negative vanish. -/
def exponentBound : Nat := 400

/-- The double nearest to `mantissa * 10 ^ exponent`. The mantissa has at most `width` digits. -/
def ofDecimal (negative : Bool) (mantissa width : Nat) (exponent : Int) : Double :=
  if mantissa == 0 then .finite negative 0
  else if 0 ≤ exponent then
    if exponentBound < exponent then .infinite negative
    else ofRatio negative (mantissa * Nat.pow 10 exponent.toNat) 1
  else
    if width + exponent < -exponentBound then .finite negative 0
    else ofRatio negative mantissa (Nat.pow 10 (-exponent).toNat)

/-- Drops the underscores between digits. An underscore anywhere else spoils the text. -/
def joinDigits (afterDigit : Bool) : Text → Option Text
  | [] => some []
  | c :: rest =>
    if c == '_' then
      if afterDigit && (rest.head?.map CodePoint.isDigit).getD false then joinDigits false rest
      else none
    else (joinDigits c.isDigit rest).map (c :: ·)

/-- Splits off a sign; true stands for minus. -/
def splitSign : Text → Bool × Text
  | .char '-' :: rest => (true, rest)
  | .char '+' :: rest => (false, rest)
  | t => (false, t)

/-- The exponent part: nothing at all, or an exponent mark, a sign and digits to the end. -/
def exponentPart : Text → Option Int
  | [] => some 0
  | c :: rest =>
    if c == 'e' || c == 'E' then
      let (negative, digits) := splitSign rest
      if digits.isEmpty || !digits.all CodePoint.isDigit then none
      else if negative then some (-(digitsToNat digits : Int)) else some (digitsToNat digits)
    else none

/-- Splits off a fraction: the digits after a point, if there is a point. -/
def fractionPart : Text → Text × Text
  | .char '.' :: rest => (rest.takeWhile CodePoint.isDigit, rest.dropWhile CodePoint.isDigit)
  | t => ([], t)

/-- Reads an unsigned decimal. At least one digit stands before or after the point. -/
def readMagnitude (negative : Bool) (t : Text) : Option Double :=
  let whole := t.takeWhile CodePoint.isDigit
  let (fraction, rest) := fractionPart (t.dropWhile CodePoint.isDigit)
  let digits := whole ++ fraction
  if digits.isEmpty then none
  else (exponentPart rest).map fun exponent =>
    ofDecimal negative (digitsToNat digits) digits.length (exponent - fraction.length)

/-- Reads a double from text without surrounding blanks. Digits of every script are digits, and
the names of the special values are read in any case. -/
def read? (t : Text) : Option Double :=
  (joinDigits false (t.map Text.asciiDigit)).bind fun plain =>
    let (negative, body) := splitSign plain
    let name := Text.toLower body
    if name == "inf" || name == "infinity" then some (.infinite negative)
    else if name == "nan" then some .nan
    else readMagnitude negative body

end Rulebook.Double
