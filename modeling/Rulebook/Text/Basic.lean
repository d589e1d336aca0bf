/-!
Texts. A text is a list of code points: characters, among which halves of surrogate pairs may stand
alone. A string holds characters only, so that every string is a text, but not every text a
string.
-/

namespace Rulebook

/-- A code point of a text: a character, or one of the 2048 halves of surrogate pairs. -/
inductive CodePoint where
  | char (c : Char)
  | half (index : Fin 2048)
  deriving DecidableEq, Repr

namespace CodePoint

instance : Coe Char CodePoint := ⟨char⟩

def firstHalf : Nat := 0xD800

def toNat : CodePoint → Nat
  | char c => c.toNat
  | half index => firstHalf + index

/-- The code point of a number that Unicode has room for. -/
def ofNat (n : Nat) : CodePoint :=
  if h : firstHalf ≤ n ∧ n - firstHalf < 2048 then half ⟨n - firstHalf, h.2⟩
  else char (Char.ofNat n)

/-- Half of a surrogate pair. -/
def isHalf : CodePoint → Bool
  | char _ => false
  | half _ => true

def toChar? : CodePoint → Option Char
  | char c => some c
  | half _ => none

def map (f : Char → Char) : CodePoint → CodePoint
  | char c => char (f c)
  | half index => half index

def satisfies (p : Char → Bool) : CodePoint → Bool
  | char c => p c
  | half _ => false

def isDigit (p : CodePoint) : Bool := p.satisfies Char.isDigit

end CodePoint

abbrev Text := List CodePoint

namespace Text

def ofChars (cs : List Char) : Text := cs.map .char

def ofString (s : String) : Text := ofChars s.toList

instance : Coe String Text := ⟨ofString⟩

def toString? (t : Text) : Option String := (t.mapM CodePoint.toChar?).map String.ofList

/-- The string of a text, with the replacement character for every half. -/
def toString (t : Text) : String := String.ofList (t.map fun p => p.toChar?.getD '\ufffd')

def toLower (t : Text) : Text := t.map (CodePoint.map Char.toLower)

def startsWith (start t : Text) : Bool := start.isPrefixOf t

/-- The texts one after the other, with `separator` between them. -/
def joined (separator : Text) : List Text → Text
  | [] => []
  | [t] => t
  | t :: rest => t ++ separator ++ joined separator rest

def ofNat (n : Nat) : Text := ofChars (Nat.toDigits 10 n)

/-- The digits of an integer, with a minus sign before them if it is negative. -/
def ofInt (n : Int) : Text := if n < 0 then .char '-' :: ofNat n.natAbs else ofNat n.natAbs

/-- A string that reads back is the same. -/
theorem toString?_ofString (s : String) : toString? (ofString s) = some s := by
  have h : ∀ cs : List Char, (ofChars cs).mapM CodePoint.toChar? = some cs := by
    intro cs
    induction cs with
    | nil => rfl
    | cons c rest ih =>
      simp only [ofChars, List.map_cons, List.mapM_cons] at *
      rw [ih]
      rfl
  simp [toString?, ofString, h]

end Text

end Rulebook
