import Rulebook.Http.Message
import Rulebook.Settings
import Rulebook.Text.Blank
import Rulebook.Text.Unwritable

/-!
Requests from other origins. An origin that is allowed is named in the response; a browser's
question about a method is answered at once.
-/

namespace Rulebook.Http.Cors

def originHeader : String := "access-control-allow-origin"

def star : Text := "*"

/-- All methods that a star stands for. -/
def allMethods : List Text := ["DELETE", "GET", "HEAD", "OPTIONS", "PATCH", "POST", "PUT"]

/-- Headers that need no permission. -/
def freeHeaders : List Text := ["Accept", "Accept-Language", "Content-Language", "Content-Type"]

def allowsAll (s : Settings) : Bool := s.corsOrigins.contains star

def allows (s : Settings) (origin : String) : Bool :=
  allowsAll s || s.corsOrigins.contains (origin : Text)

def methods (s : Settings) : List Text :=
  if s.corsMethods.contains star then allMethods else s.corsMethods

/-- A list of header names, without regard to case. -/
def allowsHeaders (s : Settings) (names : String) : Bool :=
  let allowed := (freeHeaders ++ s.corsHeaders).map Text.toLower
  s.corsHeaders.contains star ||
    (Text.pieces (.char ',') (names : Text)).all fun piece =>
      allowed.contains (Text.toLower (Text.strip piece))

/-- The origin that a response names, if the request may come from where it does. A star is enough
for requests that bring no credentials. -/
def namedOrigin? (s : Settings) (origin : String) : Option String :=
  if allowsAll s && !s.corsCredentials then some "*"
  else if allows s origin then some origin
  else none

/-- The response with the allowed origin, if there is one. -/
def mark (s : Settings) (origin : String) (response : Response) : Response :=
  match namedOrigin? s origin with
  | some named => response.withHeader originHeader named
  | none => response

/-- The order of texts by the numbers of their code points. -/
def isBefore (s t : Text) : Bool :=
  List.lex (s.map CodePoint.toNat) (t.map CodePoint.toNat) fun m n => m < n

/-- The headers that may be sent, each once and in order. -/
def namedHeaders (s : Settings) : List Text :=
  (freeHeaders ++ s.corsHeaders).eraseDups.mergeSort fun a b => !isBefore b a

/-- The lists that an answer to a browser's question shows: the methods, and the headers unless a
star stands for them. -/
def shownLists (s : Settings) : List Text :=
  let shown (names : List Text) : Text := Text.joined ", " names
  if s.corsHeaders.contains star then [shown (methods s)]
  else [shown (methods s), shown (namedHeaders s)]

/-- The answer to a browser's question from `origin` about `method`. It cannot be given if it would
have to show what no header can hold. -/
def preflight (s : Settings) (r : Request) (origin method : String) :
    Except Text.Unwritable Response :=
  match (shownLists s).findSome? (Text.unwritable? .singleByte) with
  | some what => .error what
  | none =>
    let headersAllowed := match r.header? "access-control-request-headers" with
      | none => true
      | some names => allowsHeaders s names
    let allowed := allows s origin && (methods s).contains (method : Text) && headersAllowed
    .ok (mark s origin ⟨if allowed then 200 else 400, [], .page⟩)

end Rulebook.Http.Cors
