import Rulebook.Text.Hex
import Rulebook.Text.Utf8

/-!
Percent escapes. A character outside a set is written as the bytes of its UTF-8 form, each as two
hexadecimal digits after a percent sign. Bytes that are no UTF-8 are read as the replacement
character, once for each part that cannot be continued.
-/

namespace Rulebook.Text

/-- Letters, digits and marks that never need an escape. -/
def isUnreserved (c : Char) : Bool :=
  c.isAlphanum || c == '_' || c == '.' || c == '-' || c == '~'

/-- What may stand unescaped in a name that is shown. -/
def isNameSafe (c : Char) : Bool := isUnreserved c || c == ' ' || c == '+'

/-- What may stand unescaped in a path that is shown. -/
def isPathSafe (c : Char) : Bool := isNameSafe c || c == '/'

/-- What may stand unescaped in a query: what can be seen, but for quotation marks and what sets
parts of an address apart. -/
def isQuerySafe (c : Char) : Bool :=
  0x21 ≤ c.toNat && c.toNat ≤ 0x7E && !"\x22#<>".toList.contains c

/-- What may stand unescaped in the address of a redirection. -/
def isAddressSafe (c : Char) : Bool := isUnreserved c || ":/%#?=@[]!$&'()*+,;".toList.contains c

def escapeByte (n : Nat) : List Char :=
  let digit (d : Nat) : Char := (Nat.digitChar d).toUpper
  ['%', digit (n / 16), digit (n % 16)]

/-- The text with an escape for every character that is not safe. -/
def percentEncode (isSafe : Char → Bool) (s : String) : String :=
  String.ofList (s.toList.flatMap fun c =>
    if isSafe c then [c] else (bytesOfChar c).flatMap escapeByte)

/-- The bytes of a text with escapes. A percent sign without two digits after it stands for
itself. -/
def unescapedBytes : List Char → List Nat
  | [] => []
  | '%' :: a :: b :: rest =>
    match hexDigit? a, hexDigit? b with
    | some x, some y => (16 * x + y) :: unescapedBytes rest
    | _, _ => 0x25 :: unescapedBytes (a :: b :: rest)
  | c :: rest => bytesOfChar c ++ unescapedBytes rest
termination_by cs => cs.length

def percentDecode (cs : List Char) : List Char := charsOfBytes none (unescapedBytes cs)

/-- One side of a parameter: a plus stands for a space. -/
def parameterText (cs : List Char) : String :=
  String.ofList (percentDecode (cs.map fun c => if c == '+' then ' ' else c))

/-- One side of a parameter as it is shown: a space is written as a plus. -/
def shownParameter (s : String) : String :=
  String.ofList (s.toList.flatMap fun c =>
    if c == ' ' then ['+'] else if isUnreserved c then [c] else (bytesOfChar c).flatMap escapeByte)

/-- A name and a value that an equals sign divides. Without the sign the value is absent. -/
def splitParameter (cs : List Char) : List Char × Option (List Char) :=
  (cs.takeWhile (· != '='),
    match cs.dropWhile (· != '=') with
    | [] => none
    | _ :: value => some value)

end Rulebook.Text
