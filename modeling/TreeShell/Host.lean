import TreeShell.Path

/-!
# Files of the host

A session reads two files of the host at most: the document that holds the tree, and the startup
script. Here the host is a value, so that a whole run is a function: it holds files by the names
that lead to them from the root, and reading follows a path part by part, as the host would.
-/

namespace TreeShell

/-- What is known of the files of the host. -/
structure Host where
  /-- The names that lead from the root to the working directory, which is a folder. -/
  workingDirectory : List String := []
  /-- Each file with its bytes, and folders with `none`. A folder that something is in need not be
  listed. -/
  files : List (List String × Option (List UInt8)) := []

namespace Host

/-- Why a file cannot be read as text. -/
inductive ReadFailure where
  /-- Nothing is at the path. -/
  | missing
  /-- A folder is at the path. -/
  | isFolder
  /-- A file stands where the path needs a folder. -/
  | notFolder
  /-- The bytes of the file are not UTF-8. -/
  | notText
  deriving DecidableEq, Repr

/-- The host's words for a failure. -/
def ReadFailure.message : ReadFailure → String
  | .missing => "No such file or directory (os error 2)"
  | .isFolder => "Is a directory (os error 21)"
  | .notFolder => "Not a directory (os error 20)"
  | .notText => "stream did not contain valid UTF-8"

/-- A place on the way along a path. -/
inductive Place where
  /-- A folder, by the names that lead to it from the root. -/
  | folder (names : List String)
  /-- A file with its bytes. -/
  | file (bytes : List UInt8)

/-- What is found under a list of names. -/
def find? (host : Host) (names : List String) : Option Place :=
  match host.files.lookup names with
  | some (some bytes) => some (.file bytes)
  | some none => some (.folder names)
  | none =>
    let known := host.workingDirectory :: host.files.map (·.1)
    if known.any names.isPrefixOf then some (.folder names) else none

/-- One part of a path, followed from a place. -/
def step (host : Host) (place : Place) (part : String) : Except ReadFailure Place :=
  match place with
  | .file _ => .error .notFolder
  | .folder names =>
    if part = "" ∨ part = "." then .ok place
    else if part = ".." then .ok (.folder names.dropLast)
    else
      match host.find? (names ++ [part]) with
      | some next => .ok next
      | none => .error .missing

/-- The folder that a path starts from, by the names that lead to it. -/
def start (host : Host) (path : String) : List String :=
  if path.toList.head? = some '/' then [] else host.workingDirectory

/-- The text of the file at a path. -/
def readText (host : Host) (path : String) : Except ReadFailure String :=
  if path = "" then .error .missing
  else do
    match ← (Path.parts path).foldlM host.step (.folder (host.start path)) with
    | .folder _ => .error .isFolder
    | .file bytes =>
      match String.fromUTF8? ⟨bytes.toArray⟩ with
      | some text => .ok text
      | none => .error .notText

end Host

end TreeShell
