import Rulebook.Command.Report

/-!
The program: it reads its arguments and its environment, and writes what they report. All decisions
are made by the report.
-/

namespace Rulebook

/-- The variable of the environment for a field of the settings. -/
def environmentVariable (field : String) : String :=
  String.ofList ((Settings.variableStem ++ field).toList.map Char.toUpper)

def readEnvironment : IO (List (String × String)) := do
  let values ← Settings.fieldNames.mapM fun field => do
    let value ← IO.getEnv (environmentVariable field)
    return value.map fun v => (environmentVariable field, v)
  return values.filterMap id

/-- A text for the terminal, with escapes for what cannot be written. -/
def shownErrors (t : Text) : String :=
  Text.toString (t.flatMap fun p => if p.isHalf then Text.numericEscape p.toNat else [p])

/-- Writes a report and answers with its exit code. -/
def writeReport (r : Report) : IO UInt32 := do
  IO.print (Text.toString r.output)
  IO.eprint (shownErrors r.errors)
  match r.ending with
  | .broken b => IO.eprintln (Text.toString b.message)
  | _ => pure ()
  return UInt32.ofNat r.ending.exitCode

end Rulebook

def main (args : List String) : IO UInt32 := do
  -- ids are counted from anywhere, so that no two runs of the program share them
  let ids := Rulebook.Log.IdSource.counting (← IO.rand 0 (Nat.pow 16 12 - 1))
  Rulebook.writeReport (Rulebook.Report.ofArguments (← Rulebook.readEnvironment) ids
    (args.map Rulebook.Text.ofString))
