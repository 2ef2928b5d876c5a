import TreeShell.Command.Control
import TreeShell.Command.Listing
import TreeShell.Command.Making
import TreeShell.Command.Reading

/-!
# The commands

The closed set of commands, their names, and the way each of them is carried out.
-/

namespace TreeShell

/-- A command. -/
inductive Builtin where
  /-- Lists directories. -/
  | ls
  /-- Moves the cursor. -/
  | cd
  /-- Shows its arguments. -/
  | echo
  /-- Shows the content of files. -/
  | cat
  /-- Shows the cursor. -/
  | pwd
  /-- Makes directories. -/
  | mkdir
  /-- Makes empty files. -/
  | touch
  /-- Copies a file. -/
  | cp
  /-- Shows the configuration. -/
  | confDump
  /-- Ends the session. -/
  | exit
  deriving DecidableEq, Repr

namespace Builtin

/-- Every command, in the order in which they are announced. -/
def all : List Builtin := [ls, cd, echo, cat, pwd, mkdir, touch, cp, confDump, exit]

/-- The word that calls a command. -/
def name : Builtin → String
  | ls => "ls"
  | cd => "cd"
  | echo => "echo"
  | cat => "cat"
  | pwd => "pwd"
  | mkdir => "mkdir"
  | touch => "touch"
  | cp => "cp"
  | confDump => "conf-dump"
  | exit => "exit"

/-- The command that a word calls. -/
def ofName (word : String) : Except CommandFailure Builtin :=
  match all.find? fun builtin => builtin.name == word with
  | some builtin => .ok builtin
  | none => .error (.notFound word)

/-- Carries out a command. A command that fails changes nothing. -/
def perform (builtin : Builtin) (session : Session) (args : List String) :
    Except CommandFailure Turn :=
  let shows outcome : Turn := { reply := .done outcome, session }
  let changes result : Turn := { reply := .done result.1, session := result.2 }
  match builtin with
  | ls => .ok (shows (Command.ls session args))
  | cd => (Command.cd session args).map changes
  | echo => .ok (shows (Command.echo args))
  | cat => (Command.cat session args).map shows
  | pwd => .ok (shows (Command.pwd session))
  | mkdir => (Command.mkdir session args).map changes
  | touch => (Command.touch session args).map changes
  | cp => (Command.cp session args).map changes
  | confDump => .ok (shows (Command.confDump session))
  | exit => .ok { reply := .exit (Command.exit args), session }

/-- Carries out a command; a failure becomes an outcome. -/
def dispatch (builtin : Builtin) (session : Session) (args : List String) : Turn :=
  match builtin.perform session args with
  | .ok turn => turn
  | .error failure => { reply := .done failure.outcome, session }

end Builtin

end TreeShell
