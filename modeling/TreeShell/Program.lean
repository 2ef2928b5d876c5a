import TreeShell.CommandLine.Request
import TreeShell.Dialogue
import TreeShell.Document.Loading

/-!
# The program

A run of the whole program is a function of its arguments, its input, and what it finds on the host.
-/

namespace TreeShell

/-- What the program finds when it is started. -/
structure Surroundings where
  /-- The files of the host. -/
  host : Host
  /-- The environment. -/
  env : Environment
  /-- The name of the host. -/
  hostname : String
  /-- The path of the working directory. -/
  workingDirectory : String
  /-- The number of the user. -/
  userNumber : String

/-- What the program wrote, and the status that it ended with. -/
structure ProcessResult where
  /-- What was written to the standard output. -/
  stdout : String := ""
  /-- What was written to the standard error. -/
  stderr : String := ""
  /-- The status, below 256. -/
  status : Nat
  deriving DecidableEq, Repr

namespace Program

open CommandLine

/-- The result of a notice. -/
def ofNotice (notice : Notice) : ProcessResult :=
  if notice.isWanted then { stdout := notice.text, status := notice.status }
  else { stderr := notice.text, status := notice.status }

/-- The settings of a session that was asked for. -/
def config (surroundings : Surroundings) (request : Request) : Config :=
  { Config.ofEnvironment surroundings.env surroundings.hostname surroundings.workingDirectory
      surroundings.userNumber with
    documentPath := request.documentPath
    startupScript := request.startupScript
    debug := request.debug }

/-- What is written about a session when it starts. -/
def greeting (session : Session) : String :=
  if session.config.debug then session.configurationReport else ""

/-- Whether the environment names a terminal that cannot show a line while it is edited. The prompts
are written to the output then. -/
def needsPrompts (env : Environment) : Bool :=
  match env.value? "TERM" with
  | some terminal => ["dumb", "cons25", "emacs"].contains (terminal.map Char.toLower)
  | none => false

/-- The status of the process after an ending: the lowest eight bits count. -/
def exitStatus : Dialogue.Ending → Nat
  | .status status => (status % 256).toNat
  | .unreadableInput => 1

/-- What is written to the standard error about an ending. -/
def diagnostic : Dialogue.Ending → String
  | .status _ => ""
  | .unreadableInput =>
    "Error: reading input\n\nCaused by:\n    0: " ++ Host.ReadFailure.notText.message ++
      "\n    1: " ++ Host.ReadFailure.notText.message ++ "\n"

/-- A run of the program. -/
def run (surroundings : Surroundings) (arguments : List String) (input : List UInt8) :
    ProcessResult :=
  match Request.ofArguments arguments with
  | .error notice => ofNotice notice
  | .ok request =>
    let host := surroundings.host
    let session := Session.start host (config surroundings request)
    let transcript := match request.line with
      | some line => Dialogue.runLine host session line
      | none =>
        Dialogue.run host (needsPrompts surroundings.env) session (Text.inputLines input)
    { stdout := greeting session ++ transcript.stdout
      stderr := transcript.stderr ++ diagnostic transcript.ending
      status := exitStatus transcript.ending }

end Program

end TreeShell
