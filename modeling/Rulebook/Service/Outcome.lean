import Rulebook.Http.Content
import Rulebook.Rule.Verdict
import Rulebook.Store.Database
import Rulebook.Text.Undecodable

/-!
Outcomes of actions: a response or the crash that took its place, the database after it, and notes
of what happened on the way.
-/

namespace Rulebook.Service

/-- Why an action gave no response. -/
inductive Crash where
  | verdict (failure : VerdictFailure)
  | store (failure : StoreFailure)
  /-- A stored tree that is no dictionary cannot be shown. -/
  | unshowableRule
  /-- A stored tree that nests too deep cannot be shown. -/
  | deepRule
  /-- The response could not be sent. -/
  | content (fault : Http.ContentFault)
  /-- The bytes of a body, which its report should repeat, are no text. -/
  | body (fault : Text.Undecodable)
  /-- The text of a rule could neither be compiled nor refused. -/
  | assembly (report : Text)

namespace Crash

def kind : Crash → String
  | verdict _ => "OverflowError"
  | store failure => failure.kind
  | unshowableRule => "ResponseValidationError"
  | deepRule => "PydanticSerializationError"
  | content fault => fault.kind
  | body _ => "UnicodeDecodeError"
  | assembly _ => "IndexError"

def message : Crash → Text
  | verdict failure => failure.message
  | store failure => failure.message
  | unshowableRule => "stored rule cannot be shown"
  | deepRule => "Error serializing to JSON: ValueError: Maximum serialization depth exceeded"
  | content fault => fault.message
  | body fault => fault.message
  | assembly report => report

end Crash

/-- What came of an action. -/
structure Outcome where
  reply : Except Crash Http.Response
  database : Database
  notes : List Note

namespace Outcome

def after (notes : List Note) (o : Outcome) : Outcome := { o with notes := notes ++ o.notes }

def respond (d : Database) (r : Http.Response) : Outcome := ⟨.ok r, d, []⟩

def crash (d : Database) (c : Crash) : Outcome := ⟨.error c, d, []⟩

end Outcome

end Rulebook.Service
