import TreeShell.FileSystem.Failure

/-!
# Outcomes

What comes of a line: an outcome with output and a status, or the request to leave the session. A
command that fails is an outcome too, whose text and status follow from the cause of the failure.
-/

namespace TreeShell

/-- What a command wrote and the status it ended with. -/
structure Outcome where
  /-- The text for the standard output. -/
  stdout : String := ""
  /-- The text for the standard error. -/
  stderr : String := ""
  /-- The status; zero means success. -/
  status : Int := 0
  deriving DecidableEq, Repr

namespace Outcome

/-- Whether a command succeeded. -/
def isSuccess (outcome : Outcome) : Bool := outcome.status == 0

/-- Two outcomes one after the other: their output is joined, and the graver status counts. -/
def andThen (first second : Outcome) : Outcome where
  stdout := first.stdout ++ second.stdout
  stderr := first.stderr ++ second.stderr
  status := max first.status second.status

/-- Outcomes one after the other. -/
def sequence (outcomes : List Outcome) : Outcome := outcomes.foldr andThen {}

end Outcome

/-- The request to leave the session with a status, and the last output before that. -/
structure Exit where
  /-- The status that the process is to end with. -/
  status : Int
  /-- The text for the standard output. -/
  stdout : String := ""
  /-- The text for the standard error. -/
  stderr : String := ""
  deriving DecidableEq, Repr

/-- The text of a request to leave. -/
def Exit.message (exit : Exit) : String := "exit " ++ toString exit.status

/-- What comes of one line. -/
inductive Reply where
  /-- The line was executed; the session goes on. -/
  | done (outcome : Outcome)
  /-- The session ends. -/
  | exit (exit : Exit)
  deriving DecidableEq, Repr

/-- Why a command failed. -/
inductive CommandFailure where
  /-- There is no command of this name. -/
  | notFound (name : String)
  /-- The command cannot be called in this way. -/
  | usage (command message : String)
  /-- The command could not do what it was asked. -/
  | execution (command message : String)
  /-- The command met a failure of the file system. -/
  | fileSystem (command : String) (failure : FileSystem.Failure)
  deriving DecidableEq, Repr

namespace CommandFailure

/-- The text of a failure. -/
def message : CommandFailure → String
  | .notFound name => "Command not found: " ++ name
  | .usage command text | .execution command text => command ++ ": " ++ text
  | .fileSystem command failure => command ++ ": " ++ failure.message

/-- The status of a failure. -/
def status : CommandFailure → Int
  | .notFound _ => 127
  | .usage _ _ => 2
  | .execution _ _ | .fileSystem _ _ => 1

/-- The outcome that a failure amounts to: its text, on a line of the standard error. -/
def outcome (failure : CommandFailure) : Outcome where
  stderr := failure.message ++ "\n"
  status := failure.status

end CommandFailure

end TreeShell
