/-!
# Failures of a file system

Every operation on a file system that fails says what it was doing, to which path, and what was in
the way. The long text of a failure names all three; the short one says only what was in the way, in
the words a shell uses.
-/

namespace TreeShell.FileSystem

/-- What was in the way. -/
inductive Obstacle where
  /-- Nothing is at the path. -/
  | notFound
  /-- A directory is needed, and a file is at the path or on the way to it. -/
  | notADirectory
  /-- A file is needed, and a directory is at the path. -/
  | isADirectory
  /-- Something is at the path already. -/
  | alreadyExists
  /-- The directory that is to hold the new node is missing. -/
  | parentMissing
  /-- The file to copy is missing. -/
  | sourceMissing
  deriving DecidableEq, Repr

/-- An operation that failed. -/
structure Failure where
  /-- What was in the way. -/
  obstacle : Obstacle
  /-- The path that the operation was given. -/
  path : String
  /-- What was to be done. -/
  operation : String
  deriving DecidableEq, Repr

/-- The code and the words that open the long text of a failure. -/
def Obstacle.diagnosis : Obstacle → String
  | .notFound => "ENOENT: no such file or directory"
  | .notADirectory => "ENOTDIR: not a directory"
  | .isADirectory => "EISDIR: illegal operation on a directory"
  | .alreadyExists => "EEXIST: file already exists"
  | .parentMissing => "ENOENT: parent directory missing"
  | .sourceMissing => "ENOENT: source file missing"

/-- The short text of a failure: `No such file or directory`, for instance. -/
def Obstacle.reason : Obstacle → String
  | .notFound | .parentMissing | .sourceMissing => "No such file or directory"
  | .notADirectory => "Not a directory"
  | .isADirectory => "Is a directory"
  | .alreadyExists => "File exists"

/-- The long text of a failure. -/
def Failure.message (failure : Failure) : String :=
  failure.obstacle.diagnosis ++ ", " ++ failure.operation ++ " '" ++ failure.path ++ "'"

end TreeShell.FileSystem
