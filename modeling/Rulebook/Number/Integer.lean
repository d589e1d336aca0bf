import Rulebook.Number.Decimal
import Rulebook.Text.Blank

/-!
Integers in texts that come from outside. There is a bound on their digits.
-/

namespace Rulebook

/-- The most digits that an integer in a text may have. -/
def mostIntegerDigits : Nat := 4300

def signedInteger (negative : Bool) (digits : Text) : Int :=
  let n : Int := Double.digitsToNat digits
  if negative then -n else n

/-- The integer that a text denotes: digits of any script, perhaps with single underscores between
them, a sign before and white space around. -/
def integerOfText? (t : Text) : Option Int :=
  let trimmed := Text.trimBoth Text.isWhiteSpace t
  let (negative, unsigned) := Double.splitSign (trimmed.map Text.asciiDigit)
  (Double.joinDigits false unsigned).bind fun digits =>
    if digits.isEmpty || !digits.all CodePoint.isDigit || mostIntegerDigits < digits.length then
      none
    else some (signedInteger negative digits)

end Rulebook
