import Rulebook.Text.Basic

/-!
Tokens of rule text. A token knows the text it stands for and where that text begins.
-/

namespace Rulebook

/-- What a token is. Fields, comparators and literals are all words. -/
inductive TokenKind where
  | word
  | and
  | or
  | opening
  | closing
  | finish
  deriving DecidableEq, Repr

/-- How tightly the connective of a kind binds. Only connectives have a precedence. -/
def TokenKind.precedence? : TokenKind → Option Nat
  | .or => some 1
  | .and => some 2
  | _ => none

/-- The kind of a word: the two connectives are words of their own kind. -/
def TokenKind.ofWord (w : Text) : TokenKind :=
  if w = "AND" then .and else if w = "OR" then .or else .word

/-- A token: its kind, its text if it has one, and the position of its first character. -/
structure Token where
  kind : TokenKind
  value : Option Text
  position : Int
  deriving DecidableEq, Repr

namespace Token

/-- The text of a token as it appears in messages and trees. -/
def shown (t : Token) : Text := t.value.getD "None"

def finishAt (position : Int) : Token := ⟨.finish, none, position⟩

end Token

end Rulebook
