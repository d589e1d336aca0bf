import Rulebook.Text.Blank

/-!
Places in a file system. A place is named by steps from a root, or from where the program runs.
-/

namespace Rulebook

/-- A place: the slashes before the first step, and the steps. -/
structure Place where
  root : String
  steps : List String
  deriving DecidableEq, Repr

namespace Place

/-- The root that leading slashes stand for. Two slashes are a root of their own; more are as good
as one. -/
def rootOfSlashes (count : Nat) : String :=
  if count = 2 then "//" else if count = 0 then "" else "/"

/-- The place that a text names. Repeated slashes and steps that stay in place do not count. -/
def ofString (s : String) : Place :=
  let cs := s.toList
  let steps := (Text.pieces '/' cs).map String.ofList
  ⟨rootOfSlashes (cs.takeWhile (· == '/')).length,
    steps.filter fun step => step != "" && step != "."⟩

def text (p : Place) : String :=
  if p.root == "" && p.steps.isEmpty then "." else p.root ++ "/".intercalate p.steps

/-- The place that holds this one. A root, and where the program runs, hold themselves. -/
def parent (p : Place) : Place := { p with steps := p.steps.dropLast }

/-- The steps with every step back taken, as far as there is a step to take back. -/
def resolved (p : Place) : List String :=
  (p.steps.foldl (fun (kept : List String) step =>
    if step != ".." then step :: kept
    else match kept with
      | [] => if p.root == "" then [step] else []
      | last :: before => if last == ".." then step :: kept else before) []).reverse

def standardDirectories : List (List String) :=
  [[], ["bin"], ["boot"], ["dev"], ["etc"], ["home"], ["lib"], ["media"], ["mnt"], ["opt"],
    ["proc"], ["root"], ["run"], ["sbin"], ["srv"], ["sys"], ["tmp"], ["usr"], ["usr", "bin"],
    ["usr", "lib"], ["usr", "local"], ["var"], ["var", "log"], ["var", "tmp"]]

def isDirectory (p : Place) : Bool :=
  if p.root == "" then p.resolved.all (· == "..") else standardDirectories.contains p.resolved

end Place

end Rulebook
