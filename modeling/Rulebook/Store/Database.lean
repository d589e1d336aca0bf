import Rulebook.Log.Entry
import Rulebook.Store.Address
import Rulebook.Store.Query
import Rulebook.Text.Unwritable

/-!
The database that holds a book. It is opened when it is first needed; its address may not allow
that. Without a table it holds no book, and a place that cannot be opened fails every use.
-/

namespace Rulebook

/-- A failed use of the database. What the engine of the database reports comes with the address of
a manual that explains it, if there is a manual. -/
inductive StoreFailure where
  | address (fault : AddressFault)
  | unreachable (manual : Option String)
  | noTable (query : StoreQuery) (manual : Option String)
  | takenId (query : StoreQuery) (manual : Option String)
  | integerTooLarge
  | unwritable (what : Text.Unwritable)
  | tooDeep

namespace StoreFailure

def kind : StoreFailure → String
  | address fault => fault.kind
  | unreachable _ | noTable _ _ => "OperationalError"
  | takenId _ _ => "IntegrityError"
  | integerTooLarge => "OverflowError"
  | unwritable _ => "UnicodeEncodeError"
  | tooDeep => "StatementError"

/-- Where in the manual a failure is explained: on a page of its own. -/
def background (page : String) : Option String → Text
  | none => []
  | some manual => "\n(Background on this error at: " ++ Text.ofString (manual ++ page) ++ ")"

def message : StoreFailure → Text
  | address fault => fault.message
  | unreachable manual =>
    "(sqlite3.OperationalError) unable to open database file" ++ background "e3q8" manual
  | noTable query manual =>
    "(sqlite3.OperationalError) no such table: rules\n" ++ query.shown ++ background "e3q8" manual
  | takenId query manual =>
    "(sqlite3.IntegrityError) UNIQUE constraint failed: rules.id\n" ++ query.shown ++
      background "gkpj" manual
  | integerTooLarge => "Python int too large to convert to SQLite INTEGER"
  | unwritable what => what.message
  | tooDeep =>
    "(builtins.RecursionError) maximum recursion depth exceeded while encoding a JSON object"

end StoreFailure

/-- A database: its address, the address of a manual about its engine's failures, whether a
connection is there, whether sessions were prepared, the book if there is a table for it, where its
rows get their ids and times from, and the number of the next rule. -/
structure Database where
  url : String
  manual : Option String
  connected : Bool
  prepared : Bool
  book : Option Book
  source : RowSource
  nextNumber : Nat

/-- The first integer that is too large for the store. -/
def storeBound : Int := 9223372036854775808

/-- An integer that the store can take as a parameter. -/
def fitsStore (n : Int) : Bool := -storeBound ≤ n && n < storeBound

/-- A tree nests less deep than this where it is stored. The writer of its JSON text calls itself
for every level. The program sets no bound: this one is what is left there of the 1000 calls that
may be open at a time. -/
def storeDepth : Nat := 900

namespace Database

def ofUrl (url : String) (manual : Option String) (source : RowSource) : Database :=
  ⟨url, manual, false, false, none, source, 1⟩

def memoryUrl : String := "sqlite+aiosqlite:///:memory:"

def connect (d : Database) : Except StoreFailure (Database × List Note) :=
  if d.connected then .ok (d, [])
  else
    match Address.readUsable d.url with
    | .error fault => .error (.address fault)
    | .ok a => .ok ({ d with connected := true },
        [.info "Database engine created" [("database_url", .ofString (a.shown true))]])

def prepare (d : Database) : Except StoreFailure (Database × List Note) :=
  if d.prepared then .ok (d, [])
  else
    match d.connect with
    | .error failure => .error failure
    | .ok (connected, notes) => .ok ({ connected with prepared := true },
        notes ++ [.debug "Database session factory created" []])

/-- Why the database does not answer, if it does not. -/
def failure? (d : Database) : Option StoreFailure :=
  match Address.readUsable d.url with
  | .error fault => some (.address fault)
  | .ok a =>
    match a.connectionFault? with
    | some fault => some (.address fault)
    | none => if a.isReachable then none else some (.unreachable d.manual)

def book? (d : Database) (q : StoreQuery) : Except StoreFailure Book :=
  match d.failure?, d.book with
  | some failure, _ => .error failure
  | none, some book => .ok book
  | none, none => .error (.noTable q d.manual)

def window (d : Database) (skip limit : Int) : Except StoreFailure (List StoredRule) :=
  (d.book? (.window skip limit)).bind fun book =>
    if fitsStore skip && fitsStore limit then .ok (book.window skip limit)
    else .error .integerTooLarge

def find? (d : Database) (id : String) : Except StoreFailure (Option StoredRule) :=
  (d.book? (.byId id)).map fun book => book.find? id

def remove (d : Database) (id : String) : Database := { d with book := d.book.map (·.remove id) }

/-- Stores a rule under the next number, unless its id is that of another rule. The number is used
up, whether or not the rule can be stored. -/
def add (d : Database) (name : String) (text : Text) (tree : Value) :
    Except StoreFailure StoredRule × Database :=
  let rule : StoredRule :=
    ⟨d.source.idAt d.nextNumber, name, text, tree, d.source.timeAt d.nextNumber⟩
  let after := { d with nextNumber := d.nextNumber + 1 }
  if storeDepth ≤ tree.levels then (.error .tooDeep, after)
  else
    match d.book? (.insert rule), Text.unwritable? .utf8 text with
    | .error failure, _ => (.error failure, after)
    | .ok _, some what => (.error (.unwritable what), after)
    | .ok book, none =>
      if (book.find? rule.id).isSome then (.error (.takenId (.insert rule) d.manual), after)
      else (.ok rule, { after with book := some (book.add rule) })

def probe (d : Database) : Bool × Database × List Note :=
  let failed (failure : StoreFailure) : Note :=
    .error "Database connection check failed" [("error", .text failure.message)]
  match d.connect with
  | .error failure => (false, d, [failed failure])
  | .ok (d, notes) =>
    match d.failure? with
    | none => (true, d, notes)
    | some failure => (false, d, notes ++ [failed failure])

def pathMark : String := ":///"

/-- The place that an address names: what follows the last path mark. -/
def place (url : String) : Place := .ofString ((url.splitOn pathMark).getLastD url)

/-- The note of a directory that is there for the file of a database. -/
def directoryNotes (url : String) : List Note :=
  if url.startsWith "sqlite" && (url.splitOn ":memory:").length ≤ 1 then
    [.info "Database directory created" [("path", .ofString (place url).parent.text)]]
  else []

/-- Makes the database ready: it has to answer, and gets a table if it has none. -/
def setUp (d : Database) : Bool × Database × List Note :=
  let (answers, d, notes) := d.probe
  let notes := directoryNotes d.url ++ notes
  if answers then
    (true, { d with book := some (d.book.getD .empty) },
      notes ++ [.info "Database tables created" []])
  else (false, d, notes ++ [.error "Database connection failed" []])

def disconnect (d : Database) : Database × List Note :=
  if d.connected then
    ({ d with connected := false, prepared := false }, [.info "Database engine disposed" []])
  else (d, [])

/-- The report of a database that could not be made ready. -/
def setUpFailure : String := "Failed to connect to database"

end Database

end Rulebook
