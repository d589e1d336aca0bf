import Rulebook.Text.Basic

/-!
Surrogate pairs. A character beyond the first plane is written in two code units, a high one and a
low one; each of them on its own is half of a pair.
-/

namespace Rulebook.Text

def isHighSurrogate (n : Nat) : Bool := 0xD800 ≤ n && n ≤ 0xDBFF

def isLowSurrogate (n : Nat) : Bool := 0xDC00 ≤ n && n ≤ 0xDFFF

def joinSurrogates (high low : Nat) : Char :=
  Char.ofNat (0x10000 + (high - 0xD800) * 0x400 + (low - 0xDC00))

def unitsOfNumber (n : Nat) : List Nat :=
  if n < 0x10000 then [n]
  else [0xD800 + (n - 0x10000) / 0x400, 0xDC00 + (n - 0x10000) % 0x400]

/-- The text of code units. A high one goes together with a low one right after it. -/
def ofUnits : List Nat → Text
  | [] => []
  | [n] => [.ofNat n]
  | n :: m :: rest =>
    if isHighSurrogate n && isLowSurrogate m then .char (joinSurrogates n m) :: ofUnits rest
    else .ofNat n :: ofUnits (m :: rest)

end Rulebook.Text
