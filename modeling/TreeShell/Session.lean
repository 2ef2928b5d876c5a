import TreeShell.Config
import TreeShell.FileSystem
import TreeShell.Outcome

/-!
# Sessions

The state of a session: its configuration, the file system that commands work on, the cursor, which
is the directory that relative paths start from, and the status of the last command. Without a file
system a session only says what its commands would do.
-/

namespace TreeShell

/-- The state of a session. -/
structure Session where
  /-- The settings. -/
  config : Config
  /-- The file system that commands work on, if one is loaded. -/
  fileSystem : Option FileSystem := none
  /-- The path of the directory that relative paths start from. -/
  cursor : String := "/"
  /-- The status of the last command. -/
  lastStatus : Int := 0

namespace Session

/-- The absolute path that an operand of a command means. -/
def resolve (session : Session) (target : String) : String := Path.resolve session.cursor target

/-- The session with its cursor back at the root if the cursor names no directory any more. -/
def ensureCursor (session : Session) : Session :=
  match session.fileSystem with
  | some fs => if fs.isDirectory session.cursor then session else { session with cursor := "/" }
  | none => session

/-- The prompt: user, host and directory. The directory is the cursor, or the working directory on
the host when no file system is loaded. -/
def prompt (session : Session) : String :=
  let dir := if session.fileSystem.isSome then session.cursor else session.config.displayCwd
  session.config.username ++ "@" ++ session.config.hostname ++ ":" ++ dir ++ "$ "

/-- The settings, the kind of session, and for a loaded file system the cursor and the document it
was read from. -/
def configurationReport (session : Session) : String :=
  session.config.dump ++
    match session.fileSystem with
    | none => "mode=stub\n"
    | some fs =>
      "mode=vfs\n" ++ "vfs_cwd=" ++ session.cursor ++ "\n" ++
        match fs.source with
        | some source => "vfs_source=" ++ source ++ "\n"
        | none => ""

end Session

/-- What comes of a line, and the session after it. -/
structure Turn where
  /-- What comes of the line. -/
  reply : Reply
  /-- The session after the line. -/
  session : Session

end TreeShell
