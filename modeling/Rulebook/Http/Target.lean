import Rulebook.Http.Message
import Rulebook.Text.Blank
import Rulebook.Text.Percent

/-!
Targets of requests: the path with its escapes resolved, and the parameters of the query.
-/

namespace Rulebook.Http

/-- A path and the query after it, as it was sent. -/
structure Target where
  path : String
  query : String
  deriving DecidableEq, Repr

namespace Target

/-- The steps of a path without those that stay in place or go back. -/
def withoutDots (steps : List (List Char)) : List (List Char) :=
  (steps.foldl (fun (kept : List (List Char)) step =>
    if step == ['.'] then kept
    else if step == ['.', '.'] then (if kept.isEmpty || kept == [[]] then kept else kept.drop 1)
    else step :: kept) []).reverse

/-- A path with its dots resolved. A path of which nothing is left is that of the root. -/
def resolveDots (path : List Char) : List Char :=
  match ['/'].intercalate (withoutDots (Text.pieces '/' path)) with
  | [] => ['/']
  | resolved => resolved

/-- A path with a single slash before it, however many there were. -/
def rooted (path : List Char) : List Char := '/' :: path.dropWhile (· == '/')

/-- What follows the host that a target may name after two slashes. -/
def withoutHost (cs : List Char) : List Char :=
  match cs with
  | '/' :: '/' :: rest => rest.dropWhile fun c => c != '/' && c != '?'
  | _ => cs

/-- Reads a target. What follows a number sign does not belong to it; in the query, characters that
may not stand there are escaped. -/
def ofText (s : String) : Target :=
  let sent := withoutHost (s.toList.takeWhile (· != '#'))
  let path := rooted (sent.takeWhile (· != '?'))
  let query := (sent.dropWhile (· != '?')).drop 1
  ⟨String.ofList (Text.percentDecode (resolveDots path)),
    Text.percentEncode Text.isQuerySafe (String.ofList query)⟩

def queryPart (t : Target) : String := if t.query.isEmpty then "" else "?" ++ t.query

def address (origin : String) (t : Target) : String := origin ++ t.path ++ t.queryPart

/-- The path as far as an address can show it: without line breaks and tabs, and without what would
begin a query or a fragment. -/
def plainPath (t : Target) : String :=
  String.ofList ((t.path.toList.filter fun c => c != '\t' && c != '\n' && c != '\r').takeWhile
    fun c => c != '?' && c != '#')

/-- The parameters of a query, in order. One without an equals sign is empty. -/
def parameters (t : Target) : List (String × String) :=
  ((Text.pieces '&' t.query.toList).filter fun piece => !piece.isEmpty).map fun piece =>
    let (name, value) := Text.splitParameter piece
    (Text.parameterText name, Text.parameterText (value.getD []))

/-- The value of a parameter; of several the last counts. -/
def parameter? (t : Target) (name : String) : Option String :=
  (t.parameters.reverse.lookup name)

/-- The target that differs in whether a slash ends the path. -/
def otherSlash (t : Target) : Target :=
  let cs := t.path.toList
  if cs.getLast? == some '/' then
    { t with path := String.ofList (cs.reverse.dropWhile (· == '/')).reverse }
  else { t with path := t.path ++ "/" }

end Target

end Rulebook.Http
