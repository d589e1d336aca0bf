import Rulebook.Command.Invocation
import Rulebook.Json.Printer
import Rulebook.Rule.Compile
import Rulebook.Rule.Stored
import Rulebook.Rule.Verdict
import Rulebook.Store.Database

/-!
What commands report: the text that they write, the errors that they tell, and how they end. A
rule or a record that is refused ends a command with an error; a command breaks off when its
settings are wrong, its database cannot be reached or a decision is given up.
-/

namespace Rulebook

/-- Why a command broke off. -/
inductive Breakdown where
  | settings (failure : SettingsFailure)
  | database
  | verdict (failure : VerdictFailure)
  | assembly (report : Text)
  /-- A record is valid JSON text as far as it was read, but it is too large. -/
  | record (failure : Json.ReadFailure)
  /-- A tree nests too deep to be shown. -/
  | deepTree

def Breakdown.message : Breakdown → Text
  | .settings failure => failure.message
  | .database => Database.setUpFailure
  | .verdict failure => failure.message
  | .assembly report => report
  | .record failure => failure.message
  | .deepTree => "maximum recursion depth exceeded while calling a Python object"

/-- How a service is to be run. -/
structure ServePlan where
  host : Text
  port : Int
  reload : Bool
  logLevel : LogLevel
  deriving DecidableEq, Repr

/-- How a command ended. -/
inductive Ending where
  | done
  | refused
  | misused
  | serving (plan : ServePlan)
  | broken (b : Breakdown)

def Ending.exitCode : Ending → Nat
  | done | serving _ => 0
  | refused | broken _ => 1
  | misused => 2

/-- What a command wrote, the errors that it told, and how it ended. -/
structure Report where
  output : Text
  errors : Text
  ending : Ending

namespace Report

def lines (ls : List Text) : Text := ls.flatMap fun l => l ++ "\n"

def done (ls : List Text) : Report := ⟨lines ls, "", .done⟩

def refused (message : Text) : Report := ⟨"", "Error: " ++ message ++ "\n", .refused⟩

def broken (b : Breakdown) : Report := ⟨"", "", .broken b⟩

def misused : Report :=
  ⟨"", "Error: these arguments are not understood, try --help\n", .misused⟩

def after (ls : List Text) (r : Report) : Report := { r with output := lines ls ++ r.output }

/-- Goes on with the tree of a rule, if the rule compiles. -/
def withTree (rule : Text) (go : Tree → Report) : Report :=
  match compile rule with
  | .ok tree => go tree
  | .error (.fault f) => refused f.message
  | .error .noOperand => broken (.assembly AssemblyFailure.noOperand.message)

/-- Goes on with the settings, if they can be made. -/
def withSettings (environ : List (String × String)) (go : Settings → Report) : Report :=
  match Settings.load environ [] with
  | .ok s => go s
  | .error failure => broken (.settings failure)

/-- The most levels of a record that is read, and of a tree that is written. Reader and writer call
themselves for every level. The program sets no bound: this one is what is left there of the 1000
calls that may be open at a time. -/
def mostLevels : Nat := 975

def parse (rule : Text) : Report :=
  withTree rule fun tree =>
    if mostLevels < tree.stored.levels then broken .deepTree else done [Json.indented tree.stored]

def recordBounds : Json.ReadBounds := ⟨mostIntegerDigits, mostLevels⟩

/-- Decides a rule on a record given as JSON text. The record is read before the rule. -/
def evaluate (rule data : Text) : Report :=
  match Json.read recordBounds data with
  | .error .malformed => refused "--data is not valid JSON"
  | .error failure => broken (.record failure)
  | .ok (.dict entries) =>
    withTree rule fun tree =>
      match (tree.decideOn (.dict entries)).result with
      | .ok result => done [if result then "true" else "false"]
      | .error failure => broken (.verdict failure)
  | .ok _ => refused "--data must be a JSON object"

def truthWord (b : Bool) : String := if b then "True" else "False"

def settingsLines (s : Settings) : List String :=
  ["",
    "RuleAST v" ++ s.appVersion,
    String.ofList (List.replicate 40 '='),
    "",
    "Configuration:",
    "  Environment:  " ++ s.environment.name,
    "  Debug:        " ++ truthWord s.debug,
    "  API Prefix:   " ++ s.apiRoot,
    "",
    "Server:",
    "  Host:         " ++ s.host,
    "  Port:         " ++ toString s.port,
    "",
    "Database:",
    "  URL:          " ++ s.databaseUrl,
    "  Echo:         " ++ truthWord s.databaseEcho,
    "",
    "Rules:",
    "  Max Length:   " ++ toString s.maxRuleLength.most,
    "",
    "Logging:",
    "  Level:        " ++ s.logLevel.upperName,
    "  Format:       " ++ s.logFormat.name,
    ""]

def info (environ : List (String × String)) : Report :=
  withSettings environ fun s => done ((settingsLines s).map Text.ofString)

/-- The lines of notes that matter enough to be logged. -/
def logLines (s : Settings) (ids : Log.IdSource) (notes : List Note) : List Text × Log.IdSource :=
  let made := Note.entries s.logLevel [] ids notes
  (made.1.map fun fields => Json.line (.object fields), made.2)

/-- Plans to run a service. A host or port that is given wins, unless it is empty or zero. -/
def serve (environ : List (String × String)) (ids : Log.IdSource) (host : Option Text)
    (port : Option Int) (reload : Bool) : Report :=
  withSettings environ fun s =>
    let host := (host.filter fun h => !h.isEmpty).getD s.host
    let port := (port.filter fun p => p != 0).getD s.port
    let starting := Note.info "Starting RuleAST server" [("host", .text host),
      ("port", .int port), ("reload", .bool reload), ("environment", .ofString s.environment.name)]
    (⟨"", "", .serving ⟨host, port, reload, s.logLevel⟩⟩ : Report).after
      (logLines s ids [starting]).1

/-- Makes the database ready, and closes it again whether that worked or not. -/
def initDatabase (environ : List (String × String)) (ids : Log.IdSource) : Report :=
  withSettings environ fun s =>
    let (ready, database, notes) := (Database.ofUrl s.databaseUrl none .counting).setUp
    let (made, ids) := logLines s ids notes
    let closing := (logLines s ids database.disconnect.2).1
    if ready then (done (("Database initialized successfully." : Text) :: closing)).after made
    else (broken .database).after (made ++ closing)

def helpLines : List String :=
  ["RuleAST: boolean rule compiler and evaluator.",
    "",
    "  serve [--host HOST] [--port PORT] [--reload]   start the service",
    "  init-db                                        make the database ready",
    "  parse RULE                                     show the tree of a rule as JSON",
    "  evaluate RULE [--data JSON]                    decide a rule on a record",
    "  info                                           describe the settings",
    "  --version                                      tell the version",
    "  --help                                         show this text"]

def ofInvocation (environ : List (String × String)) (ids : Log.IdSource) : Invocation → Report
  | .version => done [("RuleAST, version " ++ Settings.defaults.appVersion : String)]
  | .help => done (helpLines.map Text.ofString)
  | .serve host port reload => serve environ ids host port reload
  | .initDatabase => initDatabase environ ids
  | .parse rule => parse rule
  | .evaluate rule data => evaluate rule data
  | .info => info environ

def ofArguments (environ : List (String × String)) (ids : Log.IdSource) (args : List Text) :
    Report :=
  match Invocation.ofArguments? args with
  | some i => ofInvocation environ ids i
  | none => misused

end Report

end Rulebook
