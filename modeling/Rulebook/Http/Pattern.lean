import Rulebook.Text.Blank
import Rulebook.Text.Hex

/-!
Patterns of paths. A pattern is plain text with parameters in braces; the kind of a parameter says
what it may stand for. A path is matched from the left, each parameter standing for as much as lets
the rest match.
-/

namespace Rulebook.Http

/-- The kinds of parameters. -/
inductive ParameterKind where
  | step
  | path
  | integer
  | number
  | uuid
  deriving DecidableEq, Repr

/-- A parameter of a pattern. -/
structure Parameter where
  name : String
  kind : ParameterKind
  deriving DecidableEq, Repr

/-- What a parameter stands for in a path. -/
structure Binding where
  parameter : Parameter
  value : String
  deriving DecidableEq, Repr

/-- A part of a pattern: plain text, or a parameter. -/
inductive PatternPart where
  | plain (cs : List Char)
  | parameter (p : Parameter)
  deriving DecidableEq, Repr

abbrev Pattern := List PatternPart

/-- What is wrong with a pattern. -/
inductive PatternFault where
  | unknownKind (name : String)
  | repeatedNames (names : List String) (path : String)
  deriving DecidableEq, Repr

def PatternFault.message : PatternFault → String
  | unknownKind name => "Unknown path convertor '" ++ name ++ "'"
  | repeatedNames names path =>
    "Duplicated param name" ++ (if 1 < names.length then "s" else "") ++ " " ++
      ", ".intercalate names ++ " at path " ++ path

namespace ParameterKind

def table : List (String × ParameterKind) :=
  [("str", .step), ("path", .path), ("int", .integer), ("float", .number), ("uuid", .uuid)]

/-- The longest run of at least `least` characters, each of them allowed, at the beginning of a text
after which `next` succeeds; and what `next` makes of the rest. -/
def longest {α : Type} (isAllowed : Char → Bool) (least : Nat) (next : List Char → Option α) :
    List Char → Option (List Char × α)
  | [] => if least = 0 then (next []).map fun a => ([], a) else none
  | c :: cs =>
    let longer : Option (List Char × α) := if isAllowed c then
      (longest isAllowed (least - 1) next cs).map fun (run, a) => (c :: run, a) else none
    longer.or (if least = 0 then (next (c :: cs)).map fun a => ([], a) else none)

/-- A fraction, if there is one after which `next` succeeds, or else nothing. -/
def fraction {α : Type} (next : List Char → Option α) (cs : List Char) :
    Option (List Char × α) :=
  let pointed : Option (List Char × α) := match cs with
    | '.' :: rest => (longest Char.isDigit 1 next rest).map fun (run, a) => ('.' :: run, a)
    | _ => none
  pointed.or ((next cs).map fun a => ([], a))

/-- A number of hexadecimal digits at the beginning of a text, after a dash if `dashed` and one is
there; and what follows. -/
def hexGroup? (dashed : Bool) (count : Nat) (cs : List Char) : Option (List Char × List Char) :=
  let mark := if dashed && cs.head? == some '-' then ['-'] else []
  let digits := (cs.drop mark.length).take count
  if digits.length == count && digits.all (fun c => (Text.hexDigit? c).isSome) then
    some (mark ++ digits, cs.drop (mark.length + count))
  else none

/-- The identifier at the beginning of a text: five groups of hexadecimal digits. -/
def uuidBeginning? (cs : List Char) : Option (List Char) := do
  let (a, cs) ← hexGroup? false 8 cs
  let (b, cs) ← hexGroup? true 4 cs
  let (c, cs) ← hexGroup? true 4 cs
  let (d, cs) ← hexGroup? true 4 cs
  let (e, _) ← hexGroup? true 12 cs
  return a ++ b ++ c ++ d ++ e

/-- What a parameter of a kind stands for at the beginning of a text, as much as can be if `next`
is to succeed after it; and what `next` makes of the rest. -/
def split? {α : Type} (kind : ParameterKind) (next : List Char → Option α) (cs : List Char) :
    Option (List Char × α) :=
  match kind with
  | step => longest (· != '/') 1 next cs
  | path => longest (· != '\n') 0 next cs
  | integer => longest Char.isDigit 1 next cs
  | number =>
    (longest Char.isDigit 1 (fraction next) cs).map fun (whole, part, a) => (whole ++ part, a)
  | uuid => do
    let id ← uuidBeginning? cs
    (next (cs.drop id.length)).map fun a => (id, a)

end ParameterKind

def Binding.find? (bindings : List Binding) (name : String) : Option Binding :=
  List.find? (fun b => b.parameter.name == name) bindings

namespace Pattern

def isPathEnd (cs : List Char) : Bool := cs.isEmpty || cs == ['\n']

/-- What follows `start` in a text that begins with it. -/
def after? (start cs : List Char) : Option (List Char) :=
  if start.isPrefixOf cs then some (cs.drop start.length) else none

/-- What the parameters stand for if the pattern matches the whole of a path. -/
def match? : Pattern → List Char → Option (List Binding)
  | [], cs => if isPathEnd cs then some [] else none
  | .plain start :: rest, cs => (after? start cs).bind (match? rest)
  | .parameter p :: rest, cs =>
    (p.kind.split? (match? rest) cs).map fun (chosen, bindings) =>
      ⟨p, String.ofList chosen⟩ :: bindings

def beginsName (c : Char) : Bool := c.isAlpha || c == '_'

def continuesName (c : Char) : Bool := c.isAlphanum || c == '_'

def splitName? (cs : List Char) : Option (List Char × List Char) :=
  if (cs.head?.map beginsName).getD false then
    some (cs.takeWhile continuesName, cs.dropWhile continuesName)
  else none

def splitKind? (cs : List Char) : Option (List Char × List Char) :=
  match cs with
  | ':' :: rest => splitName? rest
  | _ => some ("str".toList, cs)

/-- Splits off a parameter after its opening brace: its name, the name of its kind, and what follows
the closing brace. -/
def splitParameter? (cs : List Char) : Option (String × String × List Char) := do
  let (name, cs) ← splitName? cs
  let (kind, cs) ← splitKind? cs
  match cs with
  | '\x7d' :: rest => some (String.ofList name, String.ofList kind, rest)
  | _ => none

/-- The pattern with one more character of plain text before it. -/
def withChar (c : Char) : Pattern → Pattern
  | .plain cs :: rest => .plain (c :: cs) :: rest
  | parts => .plain [c] :: parts

/-- Reads a pattern. Braces around anything but a parameter are plain text. `fuel` bounds the
length of the text. -/
def read (fuel : Nat) (cs : List Char) : Except PatternFault Pattern :=
  match fuel, cs with
  | 0, _ | _, [] => .ok []
  | fuel + 1, c :: rest =>
    match (if c == '\x7b' then splitParameter? rest else none) with
    | none => (read fuel rest).map (withChar c)
    | some (name, kind, rest) =>
      match ParameterKind.table.lookup kind with
      | none => .error (.unknownKind kind)
      | some kind => (read fuel rest).map (.parameter ⟨name, kind⟩ :: ·)

def names (p : Pattern) : List String :=
  p.filterMap fun part =>
    match part with
    | .plain _ => none
    | .parameter p => some p.name

def repeated (names : List String) : List String :=
  (names.filter fun n => 1 < names.count n).eraseDups.mergeSort fun a b => a ≤ b

/-- The pattern of a path; no two parameters may have one name. -/
def ofPath (path : String) : Except PatternFault Pattern :=
  match read path.length path.toList with
  | .error fault => .error fault
  | .ok p =>
    if (repeated p.names).isEmpty then .ok p
    else .error (.repeatedNames (repeated p.names) path)

end Pattern

end Rulebook.Http
