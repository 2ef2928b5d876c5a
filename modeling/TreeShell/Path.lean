/-!
# Paths

A path is a text whose parts stand between slashes. Empty parts and `.` stay where they are, `..`
steps back to the parent, and every other part is a name. A path is canonical when it is `/`, or
when it is written as a slash before each of a list of names.

Nothing here looks at a tree: these functions work on the text alone.
-/

namespace TreeShell.Path

/-- The parts of a path between its slashes, empty ones included. -/
def parts (path : String) : List String :=
  (path.toList.splitOn '/').map String.ofList

/-- The canonical path that goes from the root through the given names. -/
def render (names : List String) : String :=
  match names with
  | [] => "/"
  | _ => String.join (names.map ("/" ++ ·))

/-- Where one part of a path leads from a place, given by the names that lead to it from the root,
last name first. The parent of the root is the root. -/
def step (place : List String) (part : String) : List String :=
  if part = "" ∨ part = "." then place
  else if part = ".." then place.tail
  else part :: place

/-- The names from the root to the place that a list of parts leads to. -/
def follow (parts : List String) : List String :=
  (parts.foldl step []).reverse

/-- The canonical path to the place that a path names, read from the root. -/
def normalize (path : String) : String := render (follow (parts path))

/-- The canonical path to the place that `target` names when it is read from `cursor`. A target that
starts with a slash is read from the root. -/
def resolve (cursor target : String) : String :=
  if target.toList.head? = some '/' then normalize target
  else normalize (cursor ++ "/" ++ target)

/-- The parts of a path that are not empty. -/
def segments (path : String) : List String := (parts path).filter (· ≠ "")

/-- The segments before the last one, and the last one. The root has no last segment. -/
def splitParent (path : String) : Option (List String × String) :=
  let names := segments path
  names.getLast?.map fun leaf => (names.dropLast, leaf)

/-- The last segment of a path, `/` for the root. -/
def basename (path : String) : String := (segments path).getLast?.getD "/"

/-- The path of the child `name` of the directory at `dir`. -/
def join (dir name : String) : String :=
  if dir.toList.getLast? = some '/' then dir ++ name else dir ++ "/" ++ name

end TreeShell.Path
