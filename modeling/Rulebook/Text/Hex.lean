import Rulebook.Text.Basic

/-!
Hexadecimal digits, written in lower case and read in either case.
-/

namespace Rulebook.Text

/-- The last `width` hexadecimal digits of a number, in lower case. -/
def hexDigits : Nat → Nat → Text
  | 0, _ => []
  | width + 1, n => hexDigits width (n / 16) ++ [.char (Nat.digitChar (n % 16))]

/-- How many more digits than `width` a number has where it does not fit into them. -/
def extraDigits (width n : Nat) : Nat := n / Nat.pow 16 width

/-- A number in `width` hexadecimal digits, and more if it does not fit into them. -/
def numeral (width n : Nat) : Text := hexDigits (extraDigits width n + width) n

def hexDigit? (c : CodePoint) : Option Nat :=
  let n := c.toNat
  if 48 ≤ n && n ≤ 57 then some (n - 48)
  else if 97 ≤ n && n ≤ 102 then some (n - 87)
  else if 65 ≤ n && n ≤ 70 then some (n - 55)
  else none

end Rulebook.Text
