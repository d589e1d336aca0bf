import Rulebook.Text.Hex
import Rulebook.Text.Printable

/-!
Quoted text. A text inside a container is written between quotation marks, with escapes for the
mark itself, the backslash and everything that is not printable.
-/

namespace Rulebook.Text

def singleQuote : CodePoint := .char '\x27'

def doubleQuote : CodePoint := .char '\x22'

/-- Single marks are used unless the text holds one and no double mark. -/
def quoteFor (t : Text) : CodePoint :=
  if t.contains singleQuote && !t.contains doubleQuote then doubleQuote else singleQuote

/-- The escape for a code point that is not printable. -/
def numericEscape (n : Nat) : Text :=
  if n < 0x100 then .char '\\' :: .char 'x' :: hexDigits 2 n
  else if n < 0x10000 then .char '\\' :: .char 'u' :: hexDigits 4 n
  else .char '\\' :: .char 'U' :: hexDigits 8 n

/-- One code point as written between marks of the kind `mark`. -/
def escapeChar (mark c : CodePoint) : Text :=
  if c == mark || c == '\\' then [.char '\\', c]
  else if c == '\n' then [.char '\\', .char 'n']
  else if c == '\r' then [.char '\\', .char 'r']
  else if c == '\t' then [.char '\\', .char 't']
  else if c.satisfies isPrintable then [c]
  else numericEscape c.toNat

def quoted (t : Text) : Text :=
  let mark := quoteFor t
  mark :: t.flatMap (escapeChar mark) ++ [mark]

end Rulebook.Text
