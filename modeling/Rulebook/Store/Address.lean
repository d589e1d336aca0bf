import Rulebook.Number.Integer
import Rulebook.Store.Place
import Rulebook.Text.Percent
import Rulebook.Text.Quoted

/-!
Addresses of databases. An address names a driver, perhaps a host with its port and a user with a
password, the database, and options. Only a driver that is there and does not block can be used,
and the databases that it drives are files or stand in memory.
-/

namespace Rulebook

/-- The parts of an address. -/
structure Address where
  scheme : String
  user : Option String
  password : Option String
  host : Option String
  port : Option Int
  database : Option String
  options : List (String × String)
  deriving DecidableEq, Repr

/-- What is wrong with an address. -/
inductive AddressFault where
  | unreadable
  | unreadablePort (port : String)
  | emptyPort
  | unknownScheme (scheme : String)
  | missingDriver (name : String)
  | notOfFile (shown : String)
  | unreadableTruthValue (value : String)
  | unreadableNumber (value : String)
  | unreadableInteger (value : String)
  | repeatedNumber
  | repeatedInteger
  | blockingDriver (name : String)
  | unknownIsolation
  | wideInteger
  deriving DecidableEq, Repr

namespace AddressFault

def kind : AddressFault → String
  | unreadable | notOfFile _ => "ArgumentError"
  | unreadablePort _ | unreadableTruthValue _ | unreadableNumber _ | unreadableInteger _
  | unknownIsolation => "ValueError"
  | emptyPort | repeatedNumber | repeatedInteger => "TypeError"
  | wideInteger => "OverflowError"
  | unknownScheme _ => "NoSuchModuleError"
  | missingDriver _ => "ModuleNotFoundError"
  | blockingDriver _ => "InvalidRequestError"

def marked (s : String) : Text := Text.quoted s

def message : AddressFault → Text
  | unreadable => "Could not parse SQLAlchemy URL from given URL string"
  | unreadablePort s | unreadableInteger s =>
    "invalid literal for int() with base 10: " ++ marked s
  | emptyPort => "Port argument must be an integer or None"
  | unknownScheme scheme =>
    "Can't load plugin: sqlalchemy.dialects:" ++
      Text.ofChars (scheme.toList.map fun c => if c == '+' then '.' else c)
  | missingDriver name => "No module named '" ++ Text.ofString name ++ "'"
  | notOfFile shown =>
    "Invalid SQLite URL: " ++ Text.ofString shown ++ "\nValid SQLite URL forms are:\n" ++
      " sqlite:///:memory: (or, sqlite://)\n sqlite:///relative/path/to/file.db\n" ++
      " sqlite:////absolute/path/to/file.db"
  | unreadableTruthValue s => "String is not true/false: " ++ marked s
  | unreadableNumber s => "could not convert string to float: " ++ marked s
  | repeatedNumber => "float() argument must be a string or a real number, not 'tuple'"
  | repeatedInteger =>
    "int() argument must be a string, a bytes-like object or a real number, not 'tuple'"
  | unknownIsolation =>
    "isolation_level string must be '', 'DEFERRED', 'IMMEDIATE', or 'EXCLUSIVE'"
  | wideInteger => "Python int too large to convert to C int"
  | blockingDriver name =>
    "The asyncio extension requires an async driver to be used. The loaded '" ++
      Text.ofString name ++ "' is not async."

end AddressFault

namespace Address

def span (p : Char → Bool) (cs : List Char) : List Char × List Char :=
  (cs.takeWhile p, cs.dropWhile p)

/-- What stands before the last `mark`, and what after it; nothing if there is none. -/
def splitLast? (mark : Char) (cs : List Char) : Option (List Char × List Char) :=
  match cs.reverse.dropWhile (· != mark) with
  | [] => none
  | _ :: before => some (before.reverse, (cs.reverse.takeWhile (· != mark)).reverse)

/-- Splits off a user and a password before an at sign. -/
def splitUser (cs : List Char) : Option String × Option String × List Char :=
  let (run, rest) := span (fun c => c != ':' && c != '/') cs
  let known (s : List Char) : Option String := some (String.ofList (Text.percentDecode s))
  let alone : Option String × Option String × List Char :=
    match splitLast? '@' run with
    | some (user, more) => (known user, none, more ++ rest)
    | none => (none, none, cs)
  match rest with
  | ':' :: more =>
    match span (· != '@') more with
    | (password, _ :: after) => (known run, known password, after)
    | _ => alone
  | _ => alone

def isWithinHost (c : Char) : Bool := c != '/' && c != '?'

/-- Splits off a host. In brackets it may hold colons. -/
def splitHost (cs : List Char) : Option String × List Char :=
  let bracketed : Option (List Char × List Char) :=
    match cs with
    | '[' :: more =>
      let (run, rest) := span isWithinHost more
      (splitLast? ']' run).bind fun (host, after) =>
        if host.isEmpty then none else some (host, after ++ rest)
    | _ => none
  match bracketed with
  | some (host, rest) => (some (String.ofList host), rest)
  | none =>
    let (host, rest) := span (fun c => isWithinHost c && c != ':') cs
    (if host.isEmpty then none else some (String.ofList host), rest)

/-- Splits off what follows `mark`, if it comes first. -/
def splitMarked (mark : Char) (p : Char → Bool) (cs : List Char) :
    Option (List Char) × List Char :=
  match cs with
  | [] => (none, [])
  | c :: rest =>
    if c == mark then (some (rest.takeWhile p), rest.dropWhile p) else (none, c :: rest)

def readPort : Option (List Char) → Except AddressFault (Option Int)
  | none => .ok none
  | some [] => .error .emptyPort
  | some cs =>
    match integerOfText? (Text.ofChars cs) with
    | some n => .ok (some n)
    | none => .error (.unreadablePort (String.ofList cs))

/-- The options of a query. One without a value is none. -/
def readOptions (query : List Char) : List (String × String) :=
  (Text.pieces '&' query).filterMap fun piece =>
    match Text.splitParameter piece with
    | (name, some value) =>
      if value.isEmpty then none else some (Text.parameterText name, Text.parameterText value)
    | _ => none

/-- What stands before the two slashes of an address. -/
def schemeMark : List Char := "://".toList

def isSchemeChar (c : Char) : Bool := c.isAlphanum || c == '_' || c == '+' || 0x80 ≤ c.toNat

def read (s : String) : Except AddressFault Address :=
  let (scheme, rest) := span isSchemeChar s.toList
  if scheme.isEmpty || !schemeMark.isPrefixOf rest then .error .unreadable
  else
    let (user, password, rest) := splitUser (rest.drop schemeMark.length)
    let (host, rest) := splitHost rest
    let (port, rest) := splitMarked ':' isWithinHost rest
    let (database, rest) := splitMarked '/' (· != '?') rest
    let (query, _) := splitMarked '?' (· != '\n') rest
    (readPort port).map fun port =>
      ⟨String.ofList scheme, user, password, host, port, database.map String.ofList,
        readOptions (query.getD [])⟩

def shownOption (o : String × String) : String :=
  Text.shownParameter o.1 ++ "=" ++ Text.shownParameter o.2

/-- The address as text. A password may be hidden. -/
def shown (hidden : Bool) (a : Address) : String :=
  let name (s : String) : String := Text.percentEncode Text.isNameSafe s
  let password := match a.password with
    | none => ""
    | some p => ":" ++ (if hidden then "***" else name p)
  let user := match a.user with
    | none => ""
    | some u => name u ++ password ++ "@"
  let host := match a.host with
    | none => ""
    | some h => if h.toList.contains ':' then "[" ++ h ++ "]" else h
  let port := match a.port with
    | none => ""
    | some n => ":" ++ toString n
  let database := match a.database with
    | none => ""
    | some d => "/" ++ Text.percentEncode Text.isPathSafe d
  let sorted := a.options.mergeSort fun o q => o.1 ≤ q.1
  let options := if sorted.isEmpty then "" else "?" ++ "&".intercalate (sorted.map shownOption)
  a.scheme ++ "://" ++ user ++ host ++ port ++ database ++ options

/-- A driver: one that does not block, one that does, or one that is not there. -/
inductive Driver where
  | waiting
  | blocking (name : String)
  | missing (name : String)
  deriving DecidableEq, Repr

def drivers : List (String × Driver) :=
  [("sqlite+aiosqlite", .waiting), ("sqlite", .blocking "pysqlite"),
    ("sqlite+pysqlite", .blocking "pysqlite"), ("postgresql", .missing "psycopg"),
    ("postgresql+psycopg", .missing "psycopg"), ("postgresql+psycopg2", .missing "psycopg2"),
    ("postgresql+asyncpg", .missing "asyncpg"), ("mysql", .missing "MySQLdb"),
    ("mysql+pymysql", .missing "pymysql"), ("mysql+aiomysql", .missing "aiomysql"),
    ("mysql+asyncmy", .missing "asyncmy"), ("mariadb", .missing "MySQLdb"),
    ("oracle", .missing "oracledb"), ("mssql", .missing "pyodbc")]

/-- A file has no host, and nobody signs in to it. -/
def namesServer (a : Address) : Bool :=
  let given (part : Option String) : Bool := !(part.getD "").isEmpty
  given a.user || given a.host || given a.password || a.port.getD 0 != 0

/-- The words for true and for false as values of options. -/
def truthWords : List String :=
  ["true", "yes", "on", "y", "t", "1", "false", "no", "off", "n", "f", "0"]

/-- The values of an option, which may come more than once. -/
def optionValues (a : Address) (name : String) : List String :=
  (a.options.filter fun o => o.1 == name).map (·.2)

/-- Checks an option that is a truth value. One that comes more than once is true. -/
def truthFault? : List String → Option AddressFault
  | [value] =>
    let word := Text.toLower (Text.strip value)
    if (truthWords.map Text.ofString).contains word then none
    else some (.unreadableTruthValue (Text.toString word))
  | _ => none

def numberFault? : List String → Option AddressFault
  | [] => none
  | [value] =>
    let trimmed := Text.trimBoth Text.isWhiteSpace value
    if (Double.read? trimmed).isSome then none else some (.unreadableNumber value)
  | _ => some .repeatedNumber

def integerFault? : List String → Option AddressFault
  | [] => none
  | [value] => if (integerOfText? value).isSome then none else some (.unreadableInteger value)
  | _ => some .repeatedInteger

/-- The options that are not texts, in the order of their checks. -/
def optionChecks : List (String × (List String → Option AddressFault)) :=
  [("uri", truthFault?), ("timeout", numberFault?), ("detect_types", integerFault?),
    ("check_same_thread", truthFault?), ("cached_statements", integerFault?)]

/-- What is wrong with an address of a file, if anything is. -/
def fileFault? (a : Address) : Option AddressFault :=
  if a.namesServer then some (.notOfFile (a.shown false))
  else optionChecks.findSome? fun (name, check) => check (a.optionValues name)

/-- What keeps an address from being used, if anything does. -/
def fault? (a : Address) : Option AddressFault :=
  match drivers.lookup a.scheme with
  | none => some (.unknownScheme a.scheme)
  | some (.missing name) => some (.missingDriver name)
  | some (.blocking name) => a.fileFault?.or (some (.blockingDriver name))
  | some .waiting => a.fileFault?

def readUsable (s : String) : Except AddressFault Address :=
  match read s with
  | .error fault => .error fault
  | .ok a =>
    match a.fault? with
    | some fault => .error fault
    | none => .ok a

/-- The first integer that is too large for an option. -/
def optionBound : Int := 2147483648

def fitsOption (a : Address) (name : String) : Bool :=
  (a.optionValues name).all fun value =>
    match integerOfText? value with
    | some n => -optionBound ≤ n && n < optionBound
    | none => true

/-- How transactions are kept apart is said at most once. Said once, it is not looked at; what is
said more than once is none of the words for it. -/
def hasIsolation (a : Address) : Bool := (a.optionValues "isolation_level").length ≤ 1

/-- What fails a connection to an address that can be used, if anything does. -/
def connectionFault? (a : Address) : Option AddressFault :=
  if !a.fitsOption "detect_types" then some .wideInteger
  else if !a.hasIsolation then some .unknownIsolation
  else if !a.fitsOption "cached_statements" then some .wideInteger
  else none

/-- A database in memory has no name, or a name that says so. -/
def isInMemory (a : Address) : Bool :=
  match a.database with
  | none => true
  | some d => d == "" || d == ":memory:"

/-- A directory is no place for a database. -/
def isReachable (a : Address) : Bool :=
  a.isInMemory || !(Place.ofString (a.database.getD "")).isDirectory

end Address

end Rulebook
