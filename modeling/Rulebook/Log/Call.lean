import Rulebook.Log.Entry

/-!
Calls of a logger. A call names a method, which says how much the note matters; its fields may not
take the names under which the method gets what it is called with.
-/

namespace Rulebook

/-- A method of a logger. The last one also marks a note as that of a failure. -/
inductive LogMethod where
  | level (l : LogLevel)
  | failure
  deriving DecidableEq, Repr

namespace LogMethod

def table : List (String × LogMethod) :=
  [("debug", .level .debug), ("info", .level .info), ("msg", .level .info),
    ("warning", .level .warning), ("warn", .level .warning), ("error", .level .error),
    ("exception", .failure), ("critical", .level .critical), ("fatal", .level .critical)]

def noteLevel : LogMethod → LogLevel
  | level l => l
  | failure => .error

def note (m : LogMethod) (event : Value) (fields : Fields) : Note :=
  match m with
  | level l => ⟨l, event, fields⟩
  | failure => ⟨.error, event, fields.putNew "exc_info" (.bool true)⟩

end LogMethod

/-- Why a call was refused. -/
inductive LogCallFailure where
  | unknownMethod (least : LogLevel) (name : String)
  | takenName (callee name : String)
  deriving DecidableEq, Repr

namespace LogCallFailure

def capitalised (name : String) : String :=
  match name.toList with
  | [] => ""
  | c :: rest => String.ofList (c.toUpper :: rest)

def message : LogCallFailure → String
  | unknownMethod least name =>
    "'BoundLoggerFilteringAt" ++ capitalised least.name ++ "' object has no attribute '" ++ name ++
      "'"
  | takenName callee name =>
    callee ++ "() got multiple values for argument '" ++ name ++ "'"

end LogCallFailure

namespace LogMethod

/-- What answers to a method first. A method that is not loud enough for its logger does nothing. -/
def callee (least : LogLevel) : LogMethod → String
  | failure => "exception"
  | level l =>
    if least.rank ≤ l.rank then "_make_filtering_bound_logger.<locals>.make_method.<locals>.meth"
    else "_nop"

/-- The first field whose name is taken, if there is one. -/
def takenName? (least : LogLevel) (m : LogMethod) (fields : Fields) : Option LogCallFailure :=
  let among (callee : String) (names : List String) : Option LogCallFailure :=
    (fields.find? fun f => names.contains f.1).map fun f => .takenName callee f.1
  (among (m.callee least) ["self", "event"]).or
    (if least.rank ≤ m.noteLevel.rank then
      among "BoundLoggerBase._proxy_to_logger" ["method_name"]
    else none)

def call (least : LogLevel) (name : String) (event : Value) (fields : Fields) :
    Except LogCallFailure Note :=
  match table.lookup name with
  | none => .error (.unknownMethod least name)
  | some m =>
    match m.takenName? least fields with
    | some refused => .error refused
    | none => .ok (m.note event fields)

end LogMethod

end Rulebook
