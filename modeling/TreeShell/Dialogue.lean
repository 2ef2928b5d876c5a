import TreeShell.Script
import TreeShell.Text.Backspace

/-!
# Dialogues

A run of a session: the startup script first, and then either one line that was given, or a welcome
and the lines of the input until `exit` or the end of the input. The status of a run is the one that
`exit` asked for; without `exit` it is zero for a dialogue, and the status of the last command for
a single line.
-/

namespace TreeShell.Dialogue

/-- How a run ended. -/
inductive Ending where
  /-- With a status. -/
  | status (status : Int)
  /-- With an input line that is not UTF-8. -/
  | unreadableInput
  deriving DecidableEq, Repr

/-- A run: what it wrote, the session at its end, and the ending. -/
structure Transcript where
  /-- What was written to the standard output. -/
  stdout : String := ""
  /-- What was written to the standard error. -/
  stderr : String := ""
  /-- The session at the end. -/
  session : Session
  /-- How the run ended. -/
  ending : Ending

/-- A part of a run: what it wrote, the session behind it, and the ending if the run ends there. -/
structure Stretch where
  /-- What was written to the standard output. -/
  stdout : String := ""
  /-- What was written to the standard error. -/
  stderr : String := ""
  /-- The session behind it. -/
  session : Session
  /-- How the run ended, if it did. -/
  ending : Option Ending := none

/-- A part of a run, and the rest of the run if it goes on. -/
def Stretch.followedBy (stretch : Stretch) (rest : Session → Transcript) : Transcript :=
  match stretch.ending with
  | some ending => { stretch with ending }
  | none =>
    let transcript := rest stretch.session
    { transcript with
      stdout := stretch.stdout ++ transcript.stdout
      stderr := stretch.stderr ++ transcript.stderr }

/-- What an executed line contributes to a run. -/
def Stretch.ofTurn (turn : Turn) : Stretch :=
  match turn.reply with
  | .done outcome =>
    { stdout := Text.endLine outcome.stdout, stderr := outcome.stderr, session := turn.session }
  | .exit exit =>
    { stdout := Text.endLine exit.stdout
      stderr := exit.stderr
      session := turn.session
      ending := some (.status exit.status) }

/-- The welcome, which names every command. -/
def welcome : String :=
  "Welcome to the shell emulator!\n" ++
    "Available commands: " ++ ", ".intercalate (Builtin.all.map Builtin.name) ++ "\n" ++
    "Environment variables are expanded: $VAR, $\x7bVAR\x7d\n" ++
    "Use 'exit' or Ctrl+C to leave\n" ++
    "--------------------------------------------------\n"

/-- What is written at the end of the input. -/
def farewell : String := "\nExiting shell\n"

/-- The startup script. The run goes on without it if it cannot be read. -/
def startup (host : Host) (session : Session) : Stretch :=
  match session.config.startupScript with
  | none => { session }
  | some path =>
    match host.readText path with
    | .error failure => { stderr := Script.unavailable path failure ++ "\n", session }
    | .ok script =>
      let replay := Script.replay session script
      { stdout := replay.out
        stderr := replay.err
        session := replay.session
        ending := replay.exit.map fun exit => .status exit.status }

/-- A line of the input, `none` if it is not UTF-8. -/
def respond (session : Session) : Option String → Stretch
  | some line => .ofTurn (session.execute (Text.applyBackspaces line))
  | none => { session, ending := some .unreadableInput }

/-- The lines of the input, one after the other. The prompt is written before each of them if
`prompts` is set, and before the end of the input too. -/
def readLines (prompts : Bool) (session : Session) (input : List (Option String)) : Transcript :=
  let shown := if prompts then session.prompt else ""
  match input with
  | [] => { stdout := shown ++ farewell, session, ending := .status 0 }
  | line :: lines =>
    let stretch := respond session line
    { stretch with stdout := shown ++ stretch.stdout }.followedBy fun session =>
      readLines prompts session lines

/-- The startup script and the welcome. -/
def opening (host : Host) (session : Session) : Stretch :=
  let stretch := startup host session
  match stretch.ending with
  | some _ => stretch
  | none => { stretch with stdout := stretch.stdout ++ welcome }

/-- A dialogue: the startup script, the welcome, and the lines of the input. -/
def run (host : Host) (prompts : Bool) (session : Session) (input : List (Option String)) :
    Transcript :=
  (opening host session).followedBy fun session => readLines prompts session input

/-- A run of one line after the startup script. -/
def runLine (host : Host) (session : Session) (line : String) : Transcript :=
  (startup host session).followedBy fun session =>
    (Stretch.ofTurn (session.execute line)).followedBy fun session =>
      { session, ending := .status session.lastStatus }

end TreeShell.Dialogue
