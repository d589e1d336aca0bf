/-!
Doubles in exact arithmetic. A finite double is a signed count of units of 2 ^ -1074, the distance
of the two smallest magnitudes; rounding, reading and comparing are arithmetic on such counts.
-/

namespace Rulebook

/-- A double-precision number. A negative zero is finite, negative and has no units. -/
inductive Double where
  | nan
  | infinite (negative : Bool)
  | finite (negative : Bool) (units : Nat)
  deriving DecidableEq, Repr

namespace Double

/-- The number of units in one. -/
def unitsPerOne : Nat := Nat.pow 2 1074

/-- The first count of units that is beyond every finite double. -/
def limit : Nat := Nat.pow 2 2098

/-- The integer nearest to `num / den`; of two nearest the even one. -/
def roundHalfEven (num den : Nat) : Nat :=
  let q := num / den
  let twice := 2 * (num % den)
  if twice < den then q
  else if den < twice then q + 1
  else if q % 2 == 0 then q else q + 1

/-- The nearest count of units with at most 53 significant bits to `num / den` units. -/
def roundUnits (num den : Nat) : Nat :=
  let step := Nat.pow 2 ((num / den).log2 + 1 - 53)
  roundHalfEven num (den * step) * step

/-- The double nearest to `num / den` in magnitude, with the given sign. -/
def ofRatio (negative : Bool) (num den : Nat) : Double :=
  let units := roundUnits (num * unitsPerOne) den
  if limit ≤ units then .infinite negative else .finite negative units

/-- A double unless it is infinite. -/
def bounded? : Double → Option Double
  | .infinite _ => none
  | x => some x

/-- The double nearest to an integer, if the integer does not round beyond the finite doubles. -/
def ofInt? (n : Int) : Option Double := (ofRatio (n < 0) n.natAbs 1).bounded?

/-- The place of a double in the order of all doubles; what is not a number has none. -/
def rank? : Double → Option Int
  | .nan => none
  | .infinite true => some (-limit)
  | .infinite false => some limit
  | .finite true units => some (-units)
  | .finite false units => some units

/-- The order of doubles. What is not a number is not below anything and nothing is below it. -/
def lt (x y : Double) : Bool :=
  match x.rank?, y.rank? with
  | some a, some b => a < b
  | _, _ => false

/-- The reflexive order of doubles. It does not hold of what is not a number. -/
def le (x y : Double) : Bool :=
  match x.rank?, y.rank? with
  | some a, some b => a ≤ b
  | _, _ => false

end Double

end Rulebook
