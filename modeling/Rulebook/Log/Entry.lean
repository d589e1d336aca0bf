import Rulebook.Settings
import Rulebook.Text.Hex

/-!
Log entries. A note says what happened; an entry is a note in the context that it was made in, with
the names under which it is written. The fields of an entry keep their order. An entry without a
correlation id gets one that is made for it.

Only what the program itself notes is an entry. Libraries write plain lines beside them, which have
neither fields nor ids.
-/

namespace Rulebook

abbrev Fields := List (String × Value)

namespace Fields

/-- The fields with `v` under `name`: an existing field keeps its place, a new one comes last. -/
def put (name : String) (v : Value) : Fields → Fields
  | [] => [(name, v)]
  | (n, w) :: rest => if n = name then (n, v) :: rest else (n, w) :: put name v rest

def drop (name : String) (fields : Fields) : Fields := fields.filter (fun f => f.1 ≠ name)

def has (name : String) (fields : Fields) : Bool := (fields.lookup name).isSome

/-- The fields with `v` under `name`, unless the name is taken. -/
def putNew (name : String) (v : Value) (fields : Fields) : Fields :=
  if has name fields then fields else fields ++ [(name, v)]

end Fields

namespace Log

/-- The name of a field that holds a correlation id. -/
def correlationField : String := "correlation_id"

/-- Where the correlation ids come from that nobody sends. Each is made from a number of its own;
the numbers below `used` were used up. -/
structure IdSource where
  idAt : Nat → String
  used : Nat

def IdSource.next (ids : IdSource) : String := ids.idAt ids.used

def IdSource.advance (ids : IdSource) : IdSource := { ids with used := ids.used + 1 }

/-- Ids that are made by counting. -/
def IdSource.counting (start : Nat) : IdSource :=
  ⟨fun n => "cid_" ++ Text.toString (Text.numeral 12 (start + n)), 0⟩

def defaultLogger : String := "ruleast"

/-- An entry with a correlation id. One that is there already is kept; otherwise one is made for the
entry alone. -/
def withCorrelation (ids : IdSource) (fields : Fields) : Fields × IdSource :=
  if fields.has correlationField then (fields, ids)
  else (fields ++ [(correlationField, .ofString ids.next)], ids.advance)

/-- An entry with the name of its logger, over any name given before. -/
def withLogger (logger : Option Value) (fields : Fields) : Fields :=
  fields.put "logger" (logger.getD (.ofString defaultLogger))

def renameEvent (fields : Fields) : Fields :=
  match fields.lookup "event" with
  | some v => Fields.put "message" v (fields.drop "event")
  | none => fields

end Log

/-- What happened, how much it matters, and the values that go with it. A null event is none at
all. -/
structure Note where
  level : LogLevel
  event : Value
  fields : Fields

namespace Note

def info (event : String) (fields : Fields) : Note := ⟨.info, .ofString event, fields⟩

def debug (event : String) (fields : Fields) : Note := ⟨.debug, .ofString event, fields⟩

def warning (event : String) (fields : Fields) : Note := ⟨.warning, .ofString event, fields⟩

def error (event : String) (fields : Fields) : Note := ⟨.error, .ofString event, fields⟩

/-- The field by which a note asks for the place in the program that it was made at. -/
def placeField : String := "stack_info"

/-- The fields of a note with its event, if it has one. -/
def ownFields (note : Note) : Fields :=
  match note.event with
  | .null => note.fields
  | event => Fields.put "event" event note.fields

/-- The fields of a note in a context, before it has a correlation id. The fields of the note win
over those of the context. -/
def fieldsIn (context : Fields) (note : Note) : Fields :=
  let merged := context.foldl (fun acc f => Fields.putNew f.1 f.2 acc) note.ownFields
  Log.withLogger none (Fields.put "level" (.ofString note.level.name) (Fields.drop placeField merged))

/-- The entry of a note in a context. -/
def entry (ids : Log.IdSource) (context : Fields) (note : Note) : Fields × Log.IdSource :=
  let (fields, ids) := Log.withCorrelation ids (note.fieldsIn context)
  (Log.renameEvent fields, ids)

/-- The entries of notes in a context, of those that matter enough. -/
def entries (least : LogLevel) (context : Fields) :
    Log.IdSource → List Note → List Fields × Log.IdSource
  | ids, [] => ([], ids)
  | ids, note :: rest =>
    if least.rank ≤ note.level.rank then
      let (line, ids) := note.entry ids context
      let (lines, ids) := entries least context ids rest
      (line :: lines, ids)
    else entries least context ids rest

end Note

end Rulebook
