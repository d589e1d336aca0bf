import Rulebook.Text.Basic

/-!
Blank characters, and the cutting of text at them: trimming, and the split into three parts
of which the last keeps everything that follows it.
-/

namespace Rulebook.Text

/-- A blank is a space separator, a line or paragraph separator, or one of the control
characters that divide text. -/
def isBlank (c : CodePoint) : Bool :=
  let n := c.toNat
  (9 ≤ n && n ≤ 13) || (28 ≤ n && n ≤ 32) || n == 0x85 || n == 0xA0 || n == 0x1680 ||
    (0x2000 ≤ n && n ≤ 0x200A) || n == 0x2028 || n == 0x2029 || n == 0x202F || n == 0x205F ||
    n == 0x3000

/-- The blanks that carry the Unicode property of white space: all but the four information
separators. -/
def isWhiteSpace (c : CodePoint) : Bool :=
  isBlank c && !(28 ≤ c.toNat && c.toNat ≤ 31)

def trimBoth (p : CodePoint → Bool) (t : Text) : Text :=
  ((t.dropWhile p).reverse.dropWhile p).reverse

def strip (t : Text) : Text := trimBoth isBlank t

/-- A text of blanks only, the empty text among them. -/
def isAllBlank (t : Text) : Bool := t.all isBlank

def firstWord (t : Text) : Text := t.takeWhile (fun c => !isBlank c)

/-- What follows the leading word, from its first character that is not blank on. -/
def afterWord (t : Text) : Text := (t.dropWhile (fun c => !isBlank c)).dropWhile isBlank

/-- Splits a text into its first word, its second word and the rest. The rest keeps the blanks
inside it and at its end. A text with fewer parts does not split. -/
def splitThree (t : Text) : Option (Text × Text × Text) :=
  let first := t.dropWhile isBlank
  let second := afterWord first
  let third := afterWord second
  if third.isEmpty then none else some (firstWord first, firstWord second, third)

/-- The pieces between the separators; there is always one more piece than there are separators. -/
def pieces {α : Type} [BEq α] (separator : α) : List α → List (List α)
  | [] => [[]]
  | c :: rest =>
    if c == separator then [] :: pieces separator rest
    else match pieces separator rest with
      | [] => [[c]]
      | piece :: more => (c :: piece) :: more

end Rulebook.Text
