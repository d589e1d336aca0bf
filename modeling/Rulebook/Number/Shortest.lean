import Rulebook.Number.Double

/-!
The shortest decimal text of a double: the fewest digits that read back as the same double, and
of those the nearest to it. Magnitudes from 1e-4 up to 1e16 are written positionally, with a
point; all others with an exponent of at least two digits and its sign.
-/

namespace Rulebook.Double

/-- A decimal number `digits * 10 ^ exponent`. -/
structure Decimal where
  digits : Nat
  exponent : Int
  deriving DecidableEq, Repr

def Decimal.toUnits (d : Decimal) : Nat :=
  if 0 ≤ d.exponent then roundUnits (d.digits * Nat.pow 10 d.exponent.toNat * unitsPerOne) 1
  else roundUnits (d.digits * unitsPerOne) (Nat.pow 10 (-d.exponent).toNat)

/-- The magnitude of `units` as a fraction of `10 ^ exponent`. -/
def scaled (units : Nat) (exponent : Int) : Nat × Nat :=
  if 0 ≤ exponent then (units, unitsPerOne * Nat.pow 10 exponent.toNat)
  else (units * Nat.pow 10 (-exponent).toNat, unitsPerOne)

/-- The place of the decimal point: the power of ten just above the magnitude. -/
def pointPlace (units : Nat) : Int :=
  ((Nat.toDigits 10 (units * Nat.pow 10 400 / unitsPerOne)).length : Int) - 400

/-- The nearest decimal of `count` digits that reads back, among the two neighbours. -/
def neighbour? (units count : Nat) : Option Decimal :=
  let exponent := pointPlace units - count
  let (num, den) := scaled units exponent
  let below : Decimal := ⟨num / den, exponent⟩
  let above : Decimal := ⟨num / den + 1, exponent⟩
  let twice := 2 * (num % den)
  let belowNearer := twice < den || (twice == den && below.digits % 2 == 0)
  match below.toUnits == units, above.toUnits == units with
  | true, true => some (if belowNearer then below else above)
  | true, false => some below
  | false, true => some above
  | false, false => none

/-- The shortest decimal that reads back as `units`. Seventeen digits always suffice. -/
def shortest (units : Nat) : Decimal :=
  ((List.range 17).findSome? (fun i => neighbour? units (i + 1))).getD ⟨0, 0⟩

def twoDigits (n : Nat) : List Char :=
  if n < 10 then '0' :: Nat.toDigits 10 n else Nat.toDigits 10 n

/-- The digits with the point after `place` of them. -/
def positional (digits : List Char) (place : Int) : List Char :=
  if place ≤ 0 then '0' :: '.' :: List.replicate (-place).toNat '0' ++ digits
  else if digits.length ≤ place then
    digits ++ List.replicate (place.toNat - digits.length) '0' ++ ['.', '0']
  else digits.take place.toNat ++ '.' :: digits.drop place.toNat

/-- The digits with the point after the first of them, and the exponent that this needs. -/
def scientific (digits : List Char) (place : Int) : List Char :=
  let exponent := place - 1
  let sign := if exponent < 0 then '-' else '+'
  let fraction := if digits.length ≤ 1 then [] else '.' :: digits.drop 1
  digits.take 1 ++ fraction ++ 'e' :: sign :: twoDigits exponent.natAbs

def magnitudeText (units : Nat) : List Char :=
  if units == 0 then ['0', '.', '0']
  else
    let d := shortest units
    let written := Nat.toDigits 10 d.digits
    let place := written.length + d.exponent
    let digits := (written.reverse.dropWhile (· == '0')).reverse
    if -4 < place && place ≤ 16 then positional digits place else scientific digits place

/-- The text of a double. What is not a number has no sign. -/
def text : Double → List Char
  | .nan => "nan".toList
  | .infinite negative => if negative then "-inf".toList else "inf".toList
  | .finite negative units => if negative then '-' :: magnitudeText units else magnitudeText units

end Rulebook.Double
