import TreeShell.Session

/-!
# Commands that only show

`pwd` shows the cursor, `echo` its arguments, `cat` the content of files and `conf-dump` the
configuration. None of them changes the session.
-/

namespace TreeShell.Command

/-- `pwd`: the cursor, or the working directory on the host when no file system is loaded. -/
def pwd (session : Session) : Outcome where
  stdout :=
    (if session.fileSystem.isSome then session.cursor else session.config.cwd) ++ "\n"

/-- `echo`: the arguments with single spaces between them. -/
def echo (args : List String) : Outcome where
  stdout := " ".intercalate args ++ "\n"

/-- `conf-dump`: the configuration report. -/
def confDump (session : Session) : Outcome where
  stdout := session.configurationReport

/-- The content of one operand of `cat`, or the complaint that it cannot be read. -/
def catOperand (session : Session) (fs : FileSystem) (operand : String) : Outcome :=
  match fs.read (session.resolve operand) with
  | .ok content => { stdout := content }
  | .error failure =>
    { stderr := "cat: " ++ operand ++ ": " ++ failure.obstacle.reason ++ "\n", status := 1 }

/-- `cat`: the content of the operands, one after the other. An operand that cannot be read is
reported and passed over. -/
def cat (session : Session) (args : List String) : Except CommandFailure Outcome :=
  match session.fileSystem with
  | none => .error (.execution "cat" "no virtual filesystem loaded (start with --vfs-path)")
  | some fs =>
    if args.isEmpty then .error (.usage "cat" "missing file operand")
    else .ok (Outcome.sequence (args.map (catOperand session fs)))

end TreeShell.Command
