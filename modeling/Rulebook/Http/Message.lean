import Rulebook.Check.Problem
import Rulebook.Json.Reader
import Rulebook.Text.Encoding

/-!
Requests and responses. The target of a request is a path with escapes and perhaps a query; its body
is bytes, which are read as JSON text if the request says so.
-/

namespace Rulebook.Http

/-- A request. -/
structure Request where
  method : String
  target : String
  headers : List (String × String)
  body : List UInt8

/-- What a response carries. -/
inductive Body where
  | empty
  | json (v : Value)
  | problems (ps : List Problem)
  | page

/-- A response. Header names are in lower case. -/
structure Response where
  status : Nat
  headers : List (String × String)
  body : Body

namespace Response

def json (status : Nat) (v : Value) : Response := ⟨status, [], .json v⟩

def detail (status : Nat) (text : Text) : Response :=
  json status (.object [("detail", .text text)])

def empty (status : Nat) : Response := ⟨status, [], .empty⟩

def unprocessable (problems : List Problem) : Response := ⟨422, [], .problems problems⟩

def withHeader (r : Response) (name value : String) : Response :=
  { r with headers := r.headers ++ [(name, value)] }

end Response

def lowerCase (s : String) : String := String.ofList (s.toList.map Char.toLower)

/-- The request with its method in capital letters, as which it is sent. -/
def Request.capitalised (r : Request) : Request :=
  { r with method := String.ofList (r.method.toList.map Char.toUpper) }

/-- The value of a header. The case of its name does not matter; of several the first counts. -/
def Request.header? (r : Request) (name : String) : Option String :=
  (r.headers.find? fun h => lowerCase h.1 == name).map (·.2)

/-- Where the service was reached, as the request says. -/
def Request.origin (r : Request) : String := "http://" ++ (r.header? "host").getD "localhost"

/-- A content type without its parameters, in lower case. -/
def mainType (contentType : String) : Text :=
  Text.toLower (Text.strip (Text.ofChars (contentType.toList.takeWhile (· != ';'))))

/-- The content types of JSON text: `application/json`, and those that say after a plus sign that
they are JSON. -/
def isJsonType (contentType : String) : Bool :=
  match Text.pieces (.char '/') (mainType contentType) with
  | [main, sub] =>
    main == Text.ofString "application" &&
      (sub == Text.ofString "json" || (Text.ofString "+json").isSuffixOf sub)
  | _ => false

def Request.hasJson (r : Request) : Bool := ((r.header? "content-type").map isJsonType).getD false

/-- What the body of a request holds. -/
inductive BodyRead where
  | nothing
  | bytes (source : List UInt8)
  | malformed
  | unreadable
  | value (v : Value)

/-- Bodies are read within these bounds. The reader calls itself for every level. The program sets
no bound: this one is what is left there of the 1000 calls that may be open at a time, and a request
is handled within more of them than a command. -/
def bodyBounds : Json.ReadBounds := ⟨mostIntegerDigits, 945⟩

/-- Reads the body of a request as JSON text, unless the request says that it is something else. -/
def Request.readBody (r : Request) : BodyRead :=
  if r.body.isEmpty then .nothing
  else if !r.hasJson then .bytes r.body
  else
    match (Text.decode? (r.body.map UInt8.toNat)).map fun t => Json.read bodyBounds t with
    | some (.ok v) => .value v
    | some (.error .malformed) => .malformed
    | _ => .unreadable

end Rulebook.Http
