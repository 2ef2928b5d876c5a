import TreeShell.Session

/-!
# Commands that change the tree

`mkdir` makes directories, `touch` makes empty files and `cp` copies one file. Each of them only
adds nodes: nothing that exists is replaced or removed. `mkdir` and `touch` treat their operands one
after the other, so that an operand may lie in a directory that an earlier one made, and an operand
that fails is reported and keeps nothing else from being done.
-/

namespace TreeShell.Command

/-- The file system after each operand was tried in turn, and what was said. An operand for which
`attempt` fails leaves the file system as it was. -/
def forEach (attempt : FileSystem → String → Except Outcome FileSystem) (fs : FileSystem) :
    List String → FileSystem × Outcome
  | [] => (fs, {})
  | operand :: operands =>
    match attempt fs operand with
    | .ok changed => forEach attempt changed operands
    | .error complaint =>
      let (last, outcome) := forEach attempt fs operands
      (last, complaint.andThen outcome)

/-- Makes the directory that an operand of `mkdir` names. -/
def makeDirectory (session : Session) (fs : FileSystem) (operand : String) :
    Except Outcome FileSystem :=
  (fs.makeDirectory (session.resolve operand)).mapError fun failure =>
    let reason :=
      if failure.obstacle = .alreadyExists then "File exists" else "No such file or directory"
    { stderr := "mkdir: cannot create directory '" ++ operand ++ "': " ++ reason ++ "\n"
      status := 1 }

/-- Makes the empty file that an operand of `touch` names. What exists is left as it is. -/
def makeEmptyFile (session : Session) (fs : FileSystem) (operand : String) :
    Except Outcome FileSystem :=
  match fs.makeFile (session.resolve operand) "" with
  | .ok changed => .ok changed
  | .error failure =>
    if failure.obstacle = .alreadyExists then .ok fs
    else
      .error
        { stderr := "touch: cannot touch '" ++ operand ++ "': No such file or directory\n"
          status := 1 }

/-- A command that makes something for each of its operands, or says what it would make when no
file system is loaded. -/
def makeAll (session : Session) (name missing would : String)
    (attempt : FileSystem → String → Except Outcome FileSystem) (args : List String) :
    Except CommandFailure (Outcome × Session) :=
  if args.isEmpty then .error (.usage name missing)
  else
    match session.fileSystem with
    | none =>
      let line (operand : String) := name ++ ": would create " ++ would ++ ": " ++ operand ++ "\n"
      .ok ({ stdout := String.join (args.map line) }, session)
    | some fs =>
      let (changed, outcome) := forEach attempt fs args
      .ok (outcome, { session with fileSystem := some changed })

/-- `mkdir`: makes a directory for each operand. -/
def mkdir (session : Session) (args : List String) : Except CommandFailure (Outcome × Session) :=
  makeAll session "mkdir" "missing operand" "directory" (makeDirectory session) args

/-- `touch`: makes an empty file for each operand that names nothing. -/
def touch (session : Session) (args : List String) : Except CommandFailure (Outcome × Session) :=
  makeAll session "touch" "missing file operand" "file" (makeEmptyFile session) args

/-- The path that a copy is stored at: below the target under the name of the source if the target
is a directory, else the target itself. -/
def copyTarget (fs : FileSystem) (source target : String) : String :=
  if fs.isDirectory target then Path.join target (Path.basename source) else target

/-- What `cp` says when a copy fails. -/
def copyComplaint (source target : String) (obstacle : FileSystem.Obstacle) : String :=
  match obstacle with
  | .sourceMissing => "cannot stat '" ++ source ++ "': No such file or directory"
  | .isADirectory => "-r not specified; omitting directory '" ++ source ++ "'"
  | other => "cannot create regular file '" ++ target ++ "': " ++ other.reason

/-- Copies the file that one operand names to the place that the other names. -/
def copy (session : Session) (source target : String) :
    Except CommandFailure (Outcome × Session) :=
  match session.fileSystem with
  | none => .ok ({ stdout := "cp: would copy '" ++ source ++ "' to '" ++ target ++ "'\n" }, session)
  | some fs =>
    let sourcePath := session.resolve source
    match fs.copyFile sourcePath (copyTarget fs sourcePath (session.resolve target)) with
    | .ok changed => .ok ({}, { session with fileSystem := some changed })
    | .error failure => .error (.execution "cp" (copyComplaint source target failure.obstacle))

/-- `cp`: copies a file; it takes two operands. -/
def cp (session : Session) (args : List String) : Except CommandFailure (Outcome × Session) :=
  match args with
  | [] => .error (.usage "cp" "missing file operand")
  | [source] =>
    .error (.usage "cp" ("missing destination file operand after '" ++ source ++ "'"))
  | [source, target] => copy session source target
  | _ :: _ :: extra :: _ => .error (.usage "cp" ("extra operand '" ++ extra ++ "'"))

end TreeShell.Command
