import Rulebook.Text.Basic

/-!
What can be wrong with the text of a rule, and the words in which it is reported.
-/

namespace Rulebook

/-- The cause of a rejection. -/
inductive FaultCause where
  | unterminatedQuote
  | refused (reason : Text)
  | emptyRule
  | noCondition
  | emptyGroup
  | unmatchedClosing
  | missingClosing
  | missingLeft (connective : Text)
  | missingRight (connective : Text)
  | missingField (comparator : Text)
  | missingComparator (field : Text) (found : Option Text)
  | missingLiteral (field comparator : Text) (found : Option Text)
  | unexpected (word : Text) (grouped : Bool)
  deriving DecidableEq, Repr

/-- The families of causes. -/
inductive FaultFamily where
  | lexical
  | structural
  | unbalanced
  | malformed
  | dangling
  | missing
  deriving DecidableEq, Repr

namespace FaultCause

def family : FaultCause → FaultFamily
  | unterminatedQuote | refused _ => .lexical
  | emptyRule | noCondition | emptyGroup => .missing
  | unmatchedClosing | missingClosing => .unbalanced
  | missingLeft _ | missingRight _ => .dangling
  | missingField _ | missingComparator _ _ | missingLiteral _ _ _ => .malformed
  | unexpected _ _ => .structural

/-- What was found where something else was expected; nothing was found at the end of input. -/
def foundText : Option Text → Text
  | none => "end of input"
  | some w => "'" ++ w ++ "'"

def text : FaultCause → Text
  | unterminatedQuote => "Unterminated string literal"
  | refused reason => reason
  | emptyRule => "Rule is empty"
  | noCondition => "Expected a condition"
  | emptyGroup => "Empty parentheses"
  | unmatchedClosing => "Unmatched ')'"
  | missingClosing => "Missing closing ')'"
  | missingLeft w => "Connective '" ++ w ++ "' is missing its left operand"
  | missingRight w => "Connective '" ++ w ++ "' is missing its right operand"
  | missingField c => "Comparison is missing a field before '" ++ c ++ "'"
  | missingComparator f found =>
    "Expected a comparator after '" ++ f ++ "', found " ++ foundText found
  | missingLiteral f c found =>
    "Expected a value after '" ++ f ++ " " ++ c ++ "', found " ++ foundText found
  | unexpected w grouped =>
    "Unexpected token '" ++ w ++ "' " ++
      (if grouped then "inside parentheses" else "after expression")

end FaultCause

/-- A rejection: its cause and where in the text it lies. -/
structure Fault where
  cause : FaultCause
  position : Int
  deriving DecidableEq, Repr

def Fault.message (f : Fault) : Text :=
  f.cause.text ++ " at position " ++ Text.ofInt f.position

end Rulebook
