import Rulebook.Text.Basic

/-!
Arguments of commands. They are texts: bytes that are no characters come as halves of surrogate
pairs. Options may stand before, between and after the other arguments; two dashes alone end the
options. An option that takes a value takes it after an equals sign, or else as the next argument,
whatever that is.
-/

namespace Rulebook

/-- Options with their values in the order given, and the other arguments. A switch has no value. -/
structure Arguments where
  options : List (Text × Option Text)
  others : List Text
  deriving DecidableEq, Repr

namespace Arguments

def plain (others : List Text) : Arguments := ⟨[], others⟩

def withOption (name : Text) (value : Option Text) (a : Arguments) : Arguments :=
  { a with options := (name, value) :: a.options }

def withOther (s : Text) (a : Arguments) : Arguments := { a with others := s :: a.others }

/-- An option begins with a dash and is more than a dash. -/
def isOption (s : Text) : Bool :=
  match s with
  | .char '-' :: _ :: _ => true
  | _ => false

/-- The name of an option, and the value that an equals sign joins to it. -/
def splitOption (s : Text) : Text × Option Text :=
  match s.dropWhile (· != .char '=') with
  | [] => (s, none)
  | _ :: value => (s.takeWhile (· != .char '='), some value)

/-- Reads arguments. The table names the options and says which of them take a value. Unknown
options, switches with a value and options without theirs are refused. -/
def read? (table : List (Text × Bool)) : List Text → Option Arguments
  | [] => some (plain [])
  | s :: rest =>
    if s == ("--" : Text) then some (plain rest)
    else if isOption s then
      match table.lookup (splitOption s).1, (splitOption s).2, rest with
      | some true, some value, rest =>
        (read? table rest).map (withOption (splitOption s).1 (some value))
      | some true, none, value :: rest =>
        (read? table rest).map (withOption (splitOption s).1 (some value))
      | some false, none, rest => (read? table rest).map (withOption (splitOption s).1 none)
      | _, _, _ => none
    else (read? table rest).map (withOther s)

def has (a : Arguments) (name : Text) : Bool := a.options.any (fun o => o.1 == name)

/-- The value of an option; of several the last counts. -/
def value? (a : Arguments) (name : Text) : Option Text :=
  (a.options.reverse.lookup name).bind id

end Arguments

end Rulebook
