import Rulebook.Check.Field
import Rulebook.Settings

/-!
The bodies of requests and of verdicts: what members they have and which values these may take.
Members that are not asked for are dropped.
-/

namespace Rulebook

/-- The body of a request to store a rule. -/
structure CreateBody where
  name : String
  rule : Text
  deriving DecidableEq, Repr

/-- The body of a request to decide a stored rule. -/
structure EvaluateBody where
  data : List (Value × Value)

/-- The body of a request to decide a rule that is not stored. -/
structure AdHocBody where
  data : List (Value × Value)
  rule : Text

/-- The body of a verdict. -/
structure VerdictBody where
  ruleId : Option Text
  result : Bool
  deriving DecidableEq, Repr

/-- A rule text within the bound, with something in it besides blanks. The bound matters only for a
text; if it cannot be had, that is a problem of the rule. -/
def checkRuleText (bound : Checked LengthBound) (v : Value) : Checked Text :=
  (Check.text v).andThen fun s =>
    bound.andThen fun bound =>
      if bound.most < s.length then
        .fail (.refused ("Rule must be at most " ++ toString bound.most ++ " characters")) v
      else if Text.isAllBlank s then .fail (.refused "Rule must not be empty") v
      else .good s

/-- The name of a rule has between 1 and 255 characters. -/
def checkRuleName : Value → Checked String := Check.boundedString 1 255

def defaultRuleName : String := "Custom Rule"

namespace CreateBody

def check (bound : Checked LengthBound) (entries : List (Value × Value)) : Checked CreateBody :=
  CreateBody.mk
    <$> Check.optionalMember "name" entries defaultRuleName checkRuleName
    <*> Check.requiredMember "rule" entries (checkRuleText bound)

end CreateBody

/-- The data of a request; none is the same as an empty record. -/
def checkData (entries : List (Value × Value)) : Checked (List (Value × Value)) :=
  Check.optionalMember "data" entries [] Check.dictionary

namespace EvaluateBody

def check (entries : List (Value × Value)) : Checked EvaluateBody :=
  EvaluateBody.mk <$> checkData entries

end EvaluateBody

namespace AdHocBody

def check (bound : Checked LengthBound) (entries : List (Value × Value)) : Checked AdHocBody :=
  AdHocBody.mk
    <$> checkData entries
    <*> Check.requiredMember "rule" entries (checkRuleText bound)

end AdHocBody

namespace VerdictBody

def checkRuleId : Value → Checked (Option Text)
  | .null => .good none
  | v => (Check.text v).map some

def check (entries : List (Value × Value)) : Checked VerdictBody :=
  VerdictBody.mk
    <$> Check.optionalMember "rule_id" entries none checkRuleId
    <*> Check.requiredMember "result" entries Check.truthValue

def value (v : VerdictBody) : Value :=
  .object [
    ("rule_id", match v.ruleId with
      | some id => .text id
      | none => .null),
    ("result", .bool v.result)]

end VerdictBody

/-- Checks a value that should be a dictionary with certain members. -/
def checkMembers {α : Type} (otherwise : ProblemKind)
    (check : List (Value × Value) → Checked α) (v : Value) : Checked α :=
  match v with
  | .dict entries => check entries
  | _ => .fail otherwise v

end Rulebook
