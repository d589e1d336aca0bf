import Rulebook.Rule.Tree

/-!
Printing a tree as rule text. Parentheses stand only where precedence and grouping from the left
would give another tree.
-/

namespace Rulebook.Tree

/-- How tightly the top of a tree binds, if a connective stands there. A connective that no rule
knows binds loosest. -/
def topPrecedence? : Tree → Option Nat
  | .join w _ _ => some (((Connective.ofWord? w).map Connective.precedence).getD 0)
  | _ => none

/-- The text after a parenthesis, an opening or a closing one, if the parenthesis is needed. -/
def parenthesis (needed : Bool) (p : Char) (rest : Text) : Text :=
  if needed then p :: rest else rest

/-- A left side is grouped if it binds looser than the connective above it. -/
def groupsLeft (precedence : Nat) (t : Tree) : Bool :=
  (t.topPrecedence?.map fun p => decide (p < precedence)).getD false

/-- A right side is grouped if it does not bind tighter than the connective above it. -/
def groupsRight (precedence : Nat) (t : Tree) : Bool :=
  (t.topPrecedence?.map fun p => decide (p ≤ precedence)).getD false

/-- The rule text of a tree, with `rest` after it. What is not a comparison or a known connective
has no text. -/
def textBefore : Tree → Text → Text
  | .leaf c, rest => c.text ++ rest
  | .join w left right, rest =>
    match Connective.ofWord? w with
    | none => rest
    | some connective =>
      let p := connective.precedence
      parenthesis (groupsLeft p left) '(' (left.textBefore (parenthesis (groupsLeft p left) ')'
        (" " ++ w ++ " " ++ parenthesis (groupsRight p right) '(' (right.textBefore
          (parenthesis (groupsRight p right) ')' rest)))))
  | .hole, rest => rest
  | .foreign, rest => rest

def text (t : Tree) : Text := t.textBefore []

end Rulebook.Tree
