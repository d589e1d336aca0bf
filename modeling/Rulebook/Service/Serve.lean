import Rulebook.Http.Cors
import Rulebook.Http.Fault
import Rulebook.Service.Action

/-!
Serving requests. Each request has a correlation id: that of its header, or one that is made for
it. Every note made while it is handled carries this id, and so does the response. After a crash
the id is forgotten before the crash is reported, so that the report gets an id of its own.
-/

namespace Rulebook

open Http (Request Response Target)

/-- A service: its settings, its routes, its database, where correlation ids come from, and what it
has logged. -/
structure Server where
  settings : Settings
  table : List Http.Route
  database : Database
  ids : Log.IdSource
  log : List Fields

namespace Server

/-- A service that has not begun, if it can be made from its settings. -/
def create (s : Settings) (d : Database) (ids : Log.IdSource) : Except Http.ServiceFault Server :=
  (Http.routes s).map fun table => ⟨s, table, d, ids, []⟩

def logging (server : Server) (context : Fields) (notes : List Note) : Server :=
  let made := Note.entries server.settings.logLevel context server.ids notes
  { server with ids := made.2, log := server.log ++ made.1 }

def correlationHeader : String := "x-correlation-id"

/-- The correlation id of the next request: the one that it brings, or else one that is made. -/
def correlationId (server : Server) (r : Request) : String :=
  (r.header? correlationHeader).getD server.ids.next

def answer (server : Server) (r : Request) (t : Target) : Service.Outcome :=
  let d := server.database
  match Http.destination server.table r.method t with
  | .action a => Service.act server.settings d r t a
  | .wrongMethod allowed =>
    .respond d ((Response.detail 405 "Method Not Allowed").withHeader "allow"
      (", ".intercalate allowed))
  | .otherPath other =>
    .respond d ((Response.empty 307).withHeader "location"
      (Text.percentEncode Text.isAddressSafe (other.address r.origin)))
  | .nowhere => .respond d (.detail 404 "Not Found")

/-- The answer with regard to the origin of the request. -/
def answerAcross (server : Server) (r : Request) (t : Target) : Service.Outcome :=
  match r.header? "origin" with
  | none => server.answer r t
  | some origin =>
    match (if r.method == "OPTIONS" then r.header? "access-control-request-method" else none) with
    | some method =>
      match Http.Cors.preflight server.settings r origin method with
      | .ok response => .respond server.database response
      | .error what => .crash server.database (.content (.unwritable what))
    | none =>
      let o := server.answer r t
      { o with reply := o.reply.map (Http.Cors.mark server.settings origin) }

/-- The reply of an outcome. A response that cannot be sent is a crash. -/
def replyOf (o : Service.Outcome) : Except Service.Crash Response :=
  match o.reply with
  | .error crash => .error crash
  | .ok response =>
    match response.fault? with
    | some fault => .error (.content fault)
    | none => .ok response

/-- The response to a crash. It tells what happened only when debugging. -/
def crashResponse (s : Settings) (c : Service.Crash) : Response :=
  .json 500 (.object [("error", .ofString "Internal server error"),
    ("detail", .text (if s.debug then c.message else "An unexpected error occurred"))])

def crashNote (r : Request) (t : Target) (c : Service.Crash) : Note :=
  .error "Unhandled exception" [("path", .ofString (t.address r.origin)),
    ("method", .ofString r.method), ("error", .text c.message), ("exc_type", .ofString c.kind)]

/-- A response to a request that asks for no body has none. -/
def withoutBody (r : Request) (response : Response) : Response :=
  if r.method == "HEAD" then { response with body := .empty } else response

def handle (server : Server) (r : Request) : Response × Server :=
  let t := Target.ofText r.target
  let id := server.correlationId r
  let context : Fields := [(Log.correlationField, .ofString id)]
  let about : Fields := [("method", .ofString r.method), ("path", .ofString t.plainPath)]
  let o := server.answerAcross r t
  let notes := Note.info "Request started" about :: o.notes
  -- an id is made for every request, also for one that brings its own
  let server := { server with database := o.database, ids := server.ids.advance }
  match replyOf o with
  | .ok response =>
    let completed := Note.info "Request completed"
      (about ++ [("status_code", .int response.status)])
    (withoutBody r (response.withHeader correlationHeader id),
      server.logging context (notes ++ [completed]))
  | .error crash =>
    (withoutBody r (crashResponse server.settings crash),
      (server.logging context notes).logging [] [crashNote r t crash])

def receive (server : Server) (r : Request) : Except Http.RequestFault (Response × Server) :=
  match r.fault? with
  | some fault => .error fault
  | none => .ok (server.handle r.capitalised)

/-- Begins service: the database is made ready. The first component tells whether it is. -/
def start (server : Server) : Bool × Server :=
  let s := server.settings
  let starting := Note.info "Starting RuleAST" [("app_name", .ofString s.appName),
    ("version", .ofString s.appVersion), ("environment", .ofString s.environment.name)]
  let (ready, database, notes) := server.database.setUp
  let outcome := if ready then Note.info "Database initialized successfully" []
    else Note.error "Failed to initialize database" [("error", .ofString Database.setUpFailure)]
  (ready, { server with database := database }.logging [] (starting :: notes ++ [outcome]))

/-- Ends service: the connection to the database is closed. -/
def stop (server : Server) : Server :=
  let (database, notes) := server.database.disconnect
  { server with database := database }.logging []
    (Note.info "Shutting down RuleAST" [] :: notes ++ [Note.info "Database connection closed" []])

def inSession {α : Type} (server : Server) (use : Database → Except StoreFailure α × Database) :
    Except StoreFailure α × Server :=
  match server.database.prepare with
  | .error failure => (.error failure, server)
  | .ok (database, notes) =>
    let (result, database) := use database
    (result, { server with database := database }.logging [] notes)

def store (server : Server) (name : String) (text : Text) (tree : Value) :
    Except StoreFailure StoredRule × Server :=
  server.inSession fun d => d.add name text tree

def list (server : Server) (skip limit : Int) : Except StoreFailure (List StoredRule) × Server :=
  server.inSession fun d => (d.window skip limit, d)

end Server

end Rulebook
