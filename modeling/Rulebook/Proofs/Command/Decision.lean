import Rulebook.Command.Report
import Rulebook.Proofs.Service.Replies

/-!
Deciding a rule on data, and what a command or a response tells of it. A command tells no less than
what was decided, unless the data nest too deep to be read.
-/

namespace Rulebook

open Http (Response)

/-- What comes of a rule text that is to be decided on data. -/
inductive Decision where
  | verdict (result : Bool)
  | refusal (message : Text)
  | failure
  deriving DecidableEq

def Decision.of (rule : Text) (data : List (Value × Value)) : Decision :=
  match compile rule with
  | .ok tree =>
    match (tree.decideOn (.dict data)).result with
    | .ok result => .verdict result
    | .error _ => .failure
  | .error (.fault f) => .refusal f.message
  | .error .noOperand => .failure

/-- The word for a result. -/
def Report.word (result : Bool) : Text := if result then "true" else "false"

/-- A report of a command tells what came of a decision. -/
def Report.Tells (report : Report) : Decision → Prop
  | .verdict result => report.ending.exitCode = 0 ∧ report.output = Report.word result ++ "\n"
  | .refusal message => report.ending.exitCode = 1 ∧ report.errors = "Error: " ++ message ++ "\n"
  | .failure => report.ending.exitCode = 1 ∧ ∃ b, report.ending = .broken b

/-- A response tells what came of a decision. -/
def Http.Response.Tells (response : Response) : Decision → Prop
  | .verdict result => response.status = 200 ∧ response.member? "result" = some (.bool result)
  | .refusal message =>
    response.status = 400 ∧ response.member? "detail" = some (.text ("Invalid rule: " ++ message))
  | .failure => response.status = 500

theorem Arguments.read?_dashes (table : List (Text × Bool)) (rest : List Text) :
    read? table ("--" :: rest) = some (plain rest) := by
  unfold read?
  rfl

theorem Arguments.read?_option {table : List (Text × Bool)} {name value : Text}
    {rest : List Text} (hname : isOption name = true ∧ name ≠ "--")
    (hsplit : splitOption name = (name, none)) (htable : table.lookup name = some true) :
    read? table (name :: value :: rest) =
      (read? table rest).map (withOption name (some value)) := by
  conv => lhs; unfold read?
  rw [if_neg (by simpa using hname.2), if_pos hname.1]
  simp only [hsplit, htable]

namespace Invocation

/-- If a command is named first, it reads all that follows. -/
theorem ofArguments?_command {name : Text} (hoption : Arguments.isOption name = false)
    (hdash : Text.startsWith "-" name = false) (more : List Text) :
    ofArguments? (name :: more) = ofName? name more := by
  have hne : name ≠ "--" := by
    rintro rfl
    exact absurd hoption (by decide)
  have hleading : leadingOptions (name :: more) = ([], name :: more) := by
    simp [leadingOptions, hoption, hne]
  have hopts : ofOptions? [] = some none := by decide
  rw [ofArguments?, hleading]
  simp only [hopts, Option.bind_some, hdash, Bool.false_eq_true, if_false]

theorem ofArguments?_evaluate (rule data : Text) :
    ofArguments? ["evaluate", "--data", data, "--", rule] = some (.evaluate rule data) := by
  have hread : Arguments.read? (optionTable [("--data", true)]) ["--data", data, "--", rule] =
      some ⟨[("--data", some data)], [rule]⟩ := by
    rw [Arguments.read?_option (by decide) (by decide) (by decide), Arguments.read?_dashes]
    rfl
  rw [ofArguments?_command (by decide) (by decide +kernel)]
  change ofCommand? [("--data", true)] _ ["--data", data, "--", rule] = _
  rw [ofCommand?, hread]
  rfl

end Invocation

namespace Report
variable {told : Decision} {rule data : Text} {entries : List (Value × Value)}

theorem tells_done_iff {result : Bool} :
    (done [word result]).Tells told ↔ told = .verdict result := by
  have houtput : (done [word result]).output = word result ++ "\n" := List.append_nil _
  cases told with
  | verdict other =>
      have hword : word result ++ "\n" = word other ++ "\n" ↔ other = result := by
        cases result <;> cases other <;> decide
      simp only [Tells, houtput, hword, Decision.verdict.injEq]
      exact and_iff_right rfl
  | refusal message => exact ⟨fun h => absurd h.1 Nat.zero_ne_one, nofun⟩
  | failure => exact ⟨fun h => absurd h.1 Nat.zero_ne_one, nofun⟩

theorem tells_refused_iff {message : Text} :
    (refused message).Tells told ↔ told = .refusal message := by
  cases told with
  | verdict result => exact ⟨fun h => absurd h.1 Nat.one_ne_zero, nofun⟩
  | refusal other =>
      have herrors : "Error: " ++ message ++ "\n" = "Error: " ++ other ++ "\n" ↔
          other = message := by
        rw [List.append_cancel_right_eq, List.append_cancel_left_eq, eq_comm]
      simp only [Tells, refused, herrors, Decision.refusal.injEq]
      exact and_iff_right rfl
  | failure =>
      refine ⟨fun h => ?_, nofun⟩
      obtain ⟨b, hb⟩ := h.2
      cases hb

theorem tells_broken_iff {b : Breakdown} : (broken b).Tells told ↔ told = .failure := by
  cases told with
  | verdict result => exact ⟨fun h => absurd h.1 Nat.one_ne_zero, nofun⟩
  | refusal message =>
      refine ⟨fun h => ?_, nofun⟩
      cases h.2
  | failure => exact ⟨fun _ => rfl, fun _ => ⟨rfl, b, rfl⟩⟩

/-- What a command tells of data that it can read is the decision. -/
theorem tells_evaluate_iff (h : Json.read recordBounds data = .ok (.dict entries)) :
    (evaluate rule data).Tells told ↔ told = .of rule entries := by
  simp only [evaluate, h, withTree, Decision.of]
  cases compile rule with
  | ok tree =>
      dsimp only
      cases (tree.decideOn (.dict entries)).result with
      | ok result => exact tells_done_iff
      | error failure => exact tells_broken_iff
  | error failure =>
      cases failure with
      | fault f => exact tells_refused_iff
      | noOperand => exact tells_broken_iff

theorem tells_evaluate_of_tooDeep {isObject : Bool}
    (h : Json.read recordBounds data = .error (.tooDeep isObject)) :
    (evaluate rule data).Tells told ↔ told = .failure := by
  unfold evaluate
  rw [h]
  exact tells_broken_iff

theorem ofArguments_evaluate (environ : List (String × String)) (ids : Log.IdSource)
    (rule data : Text) :
    ofArguments environ ids ["evaluate", "--data", data, "--", rule] = evaluate rule data := by
  rw [ofArguments, Invocation.ofArguments?_evaluate]
  rfl

end Report

namespace Http.Response
variable {response : Response} {told : Decision}

theorem member?_detail {status : Nat} {text : Text}
    (h : response.body = (detail status text).body) :
    response.member? "detail" = some (.text text) := by
  rw [member?, h]
  rfl

theorem tells_verdict_iff {result : Bool} (hstatus : response.status = 200)
    (hbody : response.body = .json (VerdictBody.value ⟨none, result⟩)) :
    response.Tells told ↔ told = .verdict result := by
  have hresult : response.member? "result" = some (.bool result) := by
    rw [member?, hbody]
    rfl
  cases told with
  | verdict other =>
      simp only [Tells, hstatus, hresult, Option.some.injEq, Value.bool.injEq,
        Decision.verdict.injEq, true_and]
      exact eq_comm
  | refusal message =>
      refine ⟨fun h => ?_, fun h => ?_⟩
      · cases hstatus.symm.trans h.1
      · cases h
  | failure =>
      refine ⟨fun h => ?_, fun h => ?_⟩
      · cases hstatus.symm.trans h
      · cases h

theorem tells_refusal_iff {message : Text} (hstatus : response.status = 400)
    (hbody : response.body = (detail 400 ("Invalid rule: " ++ message)).body) :
    response.Tells told ↔ told = .refusal message := by
  have hdetail := member?_detail hbody
  cases told with
  | verdict result =>
      refine ⟨fun h => ?_, nofun⟩
      cases hstatus.symm.trans h.1
  | refusal other =>
      simp only [Tells, hstatus, hdetail, Option.some.injEq, Value.text.injEq,
        List.append_cancel_left_eq, Decision.refusal.injEq, true_and]
      exact eq_comm
  | failure =>
      refine ⟨fun h => ?_, nofun⟩
      cases hstatus.symm.trans h

theorem tells_failure_iff (hstatus : response.status = 500) :
    response.Tells told ↔ told = .failure := by
  cases told with
  | verdict result =>
      refine ⟨fun h => ?_, nofun⟩
      cases hstatus.symm.trans h.1
  | refusal message =>
      refine ⟨fun h => ?_, nofun⟩
      cases hstatus.symm.trans h.1
  | failure => exact iff_of_true hstatus rfl

end Http.Response

end Rulebook
