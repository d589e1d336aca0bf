import Rulebook.Http.Target
import Rulebook.Text.Unwritable

/-!
Requests that cannot be sent. A target has a bounded length, control characters may not stand in
it, and two slashes before a path have to name a host; headers are ASCII.
-/

namespace Rulebook.Http

/-- Why a request cannot be sent. -/
inductive RequestFault where
  | longTarget
  | controlCharacter (c : Char) (position : Nat)
  | slashesOnly
  | header (what : Text.Unwritable)
  deriving DecidableEq, Repr

def RequestFault.message : RequestFault → Text
  | longTarget => "URL too long"
  | controlCharacter c position =>
    "Invalid non-printable ASCII character in URL, " ++ Text.quoted [.char c] ++ " at position " ++
      Text.ofNat position ++ "."
  | slashesOnly => "Relative URLs cannot have a path starting with '//'"
  | header what => what.message

def mostTargetLength : Nat := 65536

def isControl (c : Char) : Bool := c.toNat < 0x20 || c.toNat == 0x7F

/-- The path of a target begins with two slashes, and no host stands before it. -/
def hasSlashesOnly (target : List Char) : Bool := "////".toList.isPrefixOf target

def targetFault? (target : List Char) : Option RequestFault :=
  if mostTargetLength < target.length then some .longTarget
  else
    match target.dropWhile fun c => !isControl c with
    | c :: _ => some (.controlCharacter c (target.takeWhile fun c => !isControl c).length)
    | [] => if hasSlashesOnly target then some .slashesOnly else none

def headerFault? (h : String × String) : Option RequestFault :=
  ((Text.unwritable? .ascii h.1).or (Text.unwritable? .ascii h.2)).map .header

/-- What keeps a request from being sent, if anything does. -/
def Request.fault? (r : Request) : Option RequestFault :=
  (targetFault? r.target.toList).or (r.headers.findSome? headerFault?)

end Rulebook.Http
