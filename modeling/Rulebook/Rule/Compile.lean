import Rulebook.Rule.Assembly
import Rulebook.Rule.Cursor

/-!
Compiling rule text: its tokens are assembled into a tree.
-/

namespace Rulebook

def AssemblyFailure.message : AssemblyFailure → Text
  | .fault f => f.message
  | .noOperand => "pop from empty list"

def compile (text : Text) : Except AssemblyFailure Tree :=
  match tokenize text with
  | .error f => .error (.fault f)
  | .ok tokens => parseTokens tokens

end Rulebook
