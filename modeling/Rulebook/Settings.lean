import Rulebook.Check.Field
import Rulebook.Json.Reader

/-!
Settings of a service. They come from arguments, from variables of the environment and from
defaults, in this order of rank. Variables for lists hold JSON text.
-/

namespace Rulebook

/-- Where a service runs. -/
inductive Environment where
  | development
  | production
  | testing
  deriving DecidableEq, Repr

namespace Environment

def table : List (String × Environment) :=
  [("development", .development), ("production", .production), ("testing", .testing)]

def name : Environment → String
  | .development => "development"
  | .production => "production"
  | .testing => "testing"

end Environment

/-- How much a log entry matters. -/
inductive LogLevel where
  | debug
  | info
  | warning
  | error
  | critical
  deriving DecidableEq, Repr

namespace LogLevel

def table : List (String × LogLevel) :=
  [("DEBUG", .debug), ("INFO", .info), ("WARNING", .warning), ("ERROR", .error),
    ("CRITICAL", .critical)]

def name : LogLevel → String
  | .debug => "debug"
  | .info => "info"
  | .warning => "warning"
  | .error => "error"
  | .critical => "critical"

def upperName : LogLevel → String
  | .debug => "DEBUG"
  | .info => "INFO"
  | .warning => "WARNING"
  | .error => "ERROR"
  | .critical => "CRITICAL"

def rank : LogLevel → Nat
  | .debug => 10
  | .info => 20
  | .warning => 30
  | .error => 40
  | .critical => 50

end LogLevel

/-- How log entries are written. -/
inductive LogFormat where
  | json
  | console
  deriving DecidableEq, Repr

namespace LogFormat

def table : List (String × LogFormat) := [("json", .json), ("console", .console)]

def name : LogFormat → String
  | .json => "json"
  | .console => "console"

end LogFormat

/-- A bound on the length of rules; some rule fits. -/
structure LengthBound where
  most : Nat
  most_pos : 0 < most
  deriving DecidableEq, Repr

/-- The settings of a service. -/
structure Settings where
  appName : String
  appVersion : String
  environment : Environment
  debug : Bool
  apiRoot : String
  host : String
  port : Int
  databaseUrl : String
  databaseEcho : Bool
  corsOrigins : List Text
  corsCredentials : Bool
  corsMethods : List Text
  corsHeaders : List Text
  logLevel : LogLevel
  logFormat : LogFormat
  maxRuleLength : LengthBound
  deriving DecidableEq, Repr

def Settings.defaults : Settings where
  appName := "RuleAST"
  appVersion := "0.1.0"
  environment := .development
  debug := false
  apiRoot := "/api/v1"
  host := "0.0.0.0"
  port := 8000
  databaseUrl := "sqlite+aiosqlite:///./data/ruleast.db"
  databaseEcho := false
  corsOrigins := ["http://localhost:3000", "http://localhost:5173"]
  corsCredentials := true
  corsMethods := ["*"]
  corsHeaders := ["*"]
  logLevel := .info
  logFormat := .json
  maxRuleLength := ⟨4096, by decide⟩

/-- Why settings could not be made. -/
inductive SettingsFailure where
  /-- The variable for a list cannot be read as JSON text. -/
  | unreadableList (field : String)
  /-- The variable for a list nests containers too deep to be read. -/
  | tooDeepList (failure : Json.ReadFailure)
  | invalid (problems : List Problem)

namespace SettingsFailure

/-- The report of a failure, with a line for each problem. -/
def message : SettingsFailure → String
  | unreadableList field =>
    "error parsing value for field \"" ++ field ++ "\" from source \"EnvSettingsSource\""
  | tooDeepList failure => failure.message
  | invalid problems => "\n".intercalate (problems.map Problem.message)

end SettingsFailure

namespace Settings

/-- What every variable of the environment that is meant for settings begins with. -/
def variableStem : String := "ruleast_"

def fieldNames : List String :=
  ["app_name", "app_version", "environment", "debug", "api_prefix", "host", "port", "database_url",
    "db_echo", "cors_origins", "cors_allow_credentials", "cors_allow_methods",
    "cors_allow_headers", "log_level", "log_format", "max_rule_length"]

def listFields : List String := ["cors_origins", "cors_allow_methods", "cors_allow_headers"]

def lowerName (s : String) : String := String.ofList (s.toList.map Char.toLower)

/-- The variable for a field. Case does not matter; of several variables the last counts. -/
def valueOf? (environ : List (String × String)) (field : String) : Option String :=
  (environ.reverse.find? fun v => lowerName v.1 == variableStem ++ field).map (·.2)

/-- Variables for lists are read within these bounds. The reader calls itself for every level. The
program sets no bound: this one is what is left there of the 1000 calls that may be open at a time.
-/
def listBounds : Json.ReadBounds := ⟨mostIntegerDigits, 975⟩

/-- Why the variable of a list field cannot be read, if it cannot. -/
def listFailure? (environ : List (String × String)) (field : String) : Option SettingsFailure :=
  match (valueOf? environ field).map fun s => Json.read listBounds s with
  | some (.error (.tooDeep isObject)) => some (.tooDeepList (.tooDeep isObject))
  | some (.error _) => some (.unreadableList field)
  | _ => none

/-- What the environment gives for a field. A list given as null is not given. -/
def fromEnvironment? (environ : List (String × String)) (field : String) : Option Value :=
  (valueOf? environ field).bind fun s =>
    if listFields.contains field then
      match Json.read? s with
      | some .null => none
      | v => v
    else some (.ofString s)

/-- What is given for a field. Arguments win over the environment; the case of their names does not
matter, and of several the last counts. -/
def given? (environ : List (String × String)) (arguments : List (String × Value))
    (field : String) : Option Value :=
  ((arguments.reverse.find? fun a => lowerName a.1 == field).map (·.2)).or
    (fromEnvironment? environ field)

/-- Origins as a list, or as one text with commas between them. -/
def originList : Value → Checked (List Text)
  | .text s => .good ((Text.pieces (.char ',') s).map Text.strip)
  | v => Check.textList v

/-- A bound on lengths is an integer above zero. -/
def lengthBound (v : Value) : Checked LengthBound :=
  (Check.integer v).andThen fun n =>
    if h : 0 < n.toNat then .good ⟨n.toNat, h⟩ else .fail (.notAbove 0) v

def check (given : String → Option Value) : Checked Settings :=
  let field {α : Type} (name : String) (default : α) (check : Value → Checked α) : Checked α :=
    Check.optional name (given name) default check
  Settings.mk
    <$> field "app_name" defaults.appName Check.string
    <*> field "app_version" defaults.appVersion Check.string
    <*> field "environment" defaults.environment (Check.oneOf Environment.table)
    <*> field "debug" defaults.debug Check.truthValue
    <*> field "api_prefix" defaults.apiRoot Check.string
    <*> field "host" defaults.host Check.string
    <*> field "port" defaults.port Check.integer
    <*> field "database_url" defaults.databaseUrl Check.string
    <*> field "db_echo" defaults.databaseEcho Check.truthValue
    <*> field "cors_origins" defaults.corsOrigins originList
    <*> field "cors_allow_credentials" defaults.corsCredentials Check.truthValue
    <*> field "cors_allow_methods" defaults.corsMethods Check.textList
    <*> field "cors_allow_headers" defaults.corsHeaders Check.textList
    <*> field "log_level" defaults.logLevel (Check.oneOf LogLevel.table)
    <*> field "log_format" defaults.logFormat (Check.oneOf LogFormat.table)
    <*> field "max_rule_length" defaults.maxRuleLength lengthBound

/-- The settings from an environment and arguments. A list that cannot be read is reported before
anything is checked. -/
def load (environ : List (String × String)) (arguments : List (String × Value)) :
    Except SettingsFailure Settings :=
  match listFields.findSome? (listFailure? environ) with
  | some failure => .error failure
  | none =>
    match check (given? environ arguments) with
    | .good s => .ok s
    | .bad problems => .error (.invalid problems)

/-- The bound on rules that an environment gives; the problems of its settings, if it gives none. -/
def lengthBoundOf (environ : List (String × String)) : Checked LengthBound :=
  match load environ [] with
  | .ok s => .good s.maxRuleLength
  | .error (.invalid problems) => .bad problems
  | .error failure => .fail (.refused failure.message) .null

end Settings

end Rulebook
