/-!
# Formats of documents

A document is written in JSON or in YAML. The name of its file tells which: the extensions `yaml`
and `yml`, in any case of their ASCII letters, mean YAML, and everything else means JSON. The
extension is what follows the last point of the name, unless that point is the first character.
-/

namespace TreeShell.Document

/-- The notation of a document. -/
inductive Format where
  /-- JSON. -/
  | json
  /-- YAML. -/
  | yaml
  deriving DecidableEq, Repr

/-- The name of the file at a path: its last part, where empty parts and `.` do not count. A path
that ends in `..` has none. -/
def fileName? (path : String) : Option (List Char) :=
  let parts := (path.toList.splitOn '/').filter fun part => part ≠ [] && part ≠ ['.']
  parts.getLast?.filter (· ≠ ['.', '.'])

/-- The extension of a file name. -/
def extension? (name : List Char) : Option (List Char) :=
  let reversed := name.reverse
  match reversed.dropWhile (· ≠ '.') with
  | _ :: _ :: _ => some (reversed.takeWhile (· ≠ '.')).reverse
  | _ => none

/-- The format of the document at a path. -/
def Format.ofPath (path : String) : Format :=
  let extension := ((fileName? path).bind extension?).map fun cs => cs.map Char.toLower
  if extension = some "yaml".toList ∨ extension = some "yml".toList then .yaml else .json

end TreeShell.Document
