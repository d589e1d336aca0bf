import Rulebook.Command.Arguments
import Rulebook.Number.Integer

/-!
Invocations: what a list of arguments asks for. Options of the program stand before the name of a
command, those of the command after it.
-/

namespace Rulebook

/-- What is asked for. -/
inductive Invocation where
  | version
  | help
  | serve (host : Option Text) (port : Option Int) (reload : Bool)
  | initDatabase
  | parse (rule : Text)
  | evaluate (rule data : Text)
  | info
  deriving DecidableEq, Repr

namespace Invocation

/-- Arguments up to the first that is no option, with what follows. -/
def leadingOptions (args : List Text) : List Text × List Text :=
  let leads (s : Text) : Bool := Arguments.isOption s && s != ("--" : Text)
  (args.takeWhile leads,
    match args.dropWhile leads with
    | s :: rest => if s == ("--" : Text) then rest else s :: rest
    | [] => [])

/-- The options of every command, with those of its own. -/
def optionTable (own : List (Text × Bool)) : List (Text × Bool) := ("--help", false) :: own

/-- Reads the arguments of a command. Help comes before any check of the values. -/
def ofCommand? (own : List (Text × Bool)) (make : Arguments → Option Invocation)
    (args : List Text) : Option Invocation :=
  (Arguments.read? (optionTable own) args).bind fun a =>
    if a.has "--help" then some .help else make a

/-- An integer for an option, if the option is there. -/
def integerOption? (a : Arguments) (name : Text) : Option (Option Int) :=
  match a.value? name with
  | none => some none
  | some s => (integerOfText? s).map some

/-- Reads the arguments of a command that takes none. -/
def withoutArguments (i : Invocation) (a : Arguments) : Option Invocation :=
  if a.others.isEmpty then some i else none

/-- Reads the arguments of a command that takes a rule. -/
def withRule (make : Text → Invocation) (a : Arguments) : Option Invocation :=
  match a.others with
  | [rule] => some (make rule)
  | _ => none

/-- The invocation of a command by its name and arguments. -/
def ofName? (name : Text) (args : List Text) : Option Invocation :=
  match Text.toString? name with
  | some "serve" =>
    ofCommand? [("--host", true), ("--port", true), ("--reload", false)] (fun a =>
      (integerOption? a "--port").bind fun port =>
        withoutArguments (.serve (a.value? "--host") port (a.has "--reload")) a) args
  | some "init-db" => ofCommand? [] (withoutArguments .initDatabase) args
  | some "parse" => ofCommand? [] (withRule .parse) args
  | some "evaluate" =>
    ofCommand? [("--data", true)] (fun a =>
      withRule (fun rule => .evaluate rule ((a.value? "--data").getD "\x7b\x7d")) a) args
  | some "info" => ofCommand? [] (withoutArguments .info) args
  | _ => none

/-- What the options of the program ask for, if they are understood. Of several the first counts. -/
def ofOptions? (options : List Text) : Option (Option Invocation) :=
  (Arguments.read? (optionTable [("--version", false)]) options).map fun a =>
    a.options.head?.map fun o => if o.1 == ("--version" : Text) then .version else .help

/-- What arguments ask for; nothing, if they are misused. Where a command should be named, options
of the program are read once more. -/
def ofArguments? (args : List Text) : Option Invocation :=
  let (leading, rest) := leadingOptions args
  (ofOptions? leading).bind fun asked =>
    match asked, rest with
    | some i, _ => some i
    | none, [] => none
    | none, name :: more =>
      if Text.startsWith "-" name then (ofOptions? (leadingOptions rest).1).bind id
      else ofName? name more

end Invocation

end Rulebook
