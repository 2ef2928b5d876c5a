import TreeShell.Program

/-!
# The program on a host

The outermost layer: it finds out about the host, writes what a run writes while the run goes on,
and ends with its status.
-/

namespace TreeShell.Main

open CommandLine

/-- The bytes of a file; none if it cannot be read. -/
def bytesOf (path : String) : IO (List UInt8) := do
  try
    return (← IO.FS.readBinFile path).toList
  catch _ => return []

/-- The text of a file; empty if it cannot be read. -/
def textOf (path : String) : IO String := do
  return String.ofList (Text.decodeLossy (← bytesOf path))

/-- The environment of the process. -/
def environment : IO Environment := do
  let entries := (← bytesOf "/proc/self/environ").splitOn 0
  return entries.filterMap fun entry =>
    match (Text.decodeLossy entry).span (· ≠ '=') with
    | (name, _ :: value) => some (String.ofList name, String.ofList value)
    | _ => none

/-- The name of the host. -/
def hostname : IO String := do
  let name := String.ofList (Text.trim (← textOf "/proc/sys/kernel/hostname").toList)
  return if name.isEmpty then "localhost" else name

/-- The number of the user. -/
def userNumber : IO String := do
  let lines := (← textOf "/proc/self/status").splitOn "\n"
  let line := (lines.find? fun line => line.startsWith "Uid:").getD ""
  return ((line.splitOn "\t")[1]?).getD ""

/-- What stands under a list of names on the host: a folder, or a file with its bytes. -/
def entry? (names : List String) : IO (Option (List String × Option (List UInt8))) := do
  let path := (← IO.currentDir) / ("/" ++ "/".intercalate names)
  if ← path.isDir then return some (names, none)
  else if ← path.pathExists then return some (names, some (← bytesOf path.toString))
  else return none

/-- The places that a path passes, by the names that lead to them. -/
def places (start : List String) (path : String) : List (List String) :=
  ((Path.parts path).foldl (fun (places, names) part =>
    let next :=
      if part = "" ∨ part = "." then names
      else if part = ".." then names.dropLast
      else names ++ [part]
    (places ++ [next], next)) ([start], start)).1

/-- What the program finds on the host. -/
def surroundings (request : Request) : IO Surroundings := do
  let env ← environment
  let workingDirectory := (← IO.currentDir).toString
  let host : Host := { workingDirectory := (Path.parts workingDirectory).filter (· ≠ "") }
  let paths := request.documentPath.toList ++ request.startupScript.toList
  let files ← (paths.flatMap fun path => places (host.start path) path).filterMapM entry?
  return {
    host := { host with files }
    env
    hostname := ← hostname
    workingDirectory
    userNumber := ← userNumber }

/-- Writes output and flushes it. -/
def write (stdout stderr : String) : IO Unit := do
  IO.print stdout
  IO.eprint stderr
  (← IO.getStdout).flush

/-- Writes what an ending calls for, and gives the status of the process. -/
def conclude (ending : Dialogue.Ending) : IO UInt32 := do
  write "" (Program.diagnostic ending)
  return UInt32.ofNat (Program.exitStatus ending)

/-- Reads a line of the input with its line feed. -/
partial def readLine (input : IO.FS.Stream) (line : List UInt8) : IO (List UInt8) := do
  match (← input.read 1).toList with
  | [] => return line.reverse
  | byte :: _ => if byte = 10 then return (byte :: line).reverse else readLine input (byte :: line)

/-- Holds a dialogue. -/
partial def converse (prompts : Bool) (session : Session) : IO UInt32 := do
  write (if prompts then session.prompt else "") ""
  match Text.inputLines (← readLine (← IO.getStdin) []) with
  | [] =>
    write Dialogue.farewell ""
    conclude (.status 0)
  | line :: _ =>
    let stretch := Dialogue.respond session line
    write stretch.stdout stretch.stderr
    match stretch.ending with
    | some ending => conclude ending
    | none => converse prompts stretch.session

/-- Starts the program. -/
def start (arguments : List String) : IO UInt32 := do
  match Request.ofArguments arguments with
  | .error notice =>
    let result := Program.ofNotice notice
    write result.stdout result.stderr
    return UInt32.ofNat result.status
  | .ok request =>
    let found ← surroundings request
    let session := Session.start found.host (Program.config found request)
    write (Program.greeting session) ""
    match request.line with
    | some line =>
      let transcript := Dialogue.runLine found.host session line
      write transcript.stdout transcript.stderr
      conclude transcript.ending
    | none =>
      let opening := Dialogue.opening found.host session
      write opening.stdout opening.stderr
      match opening.ending with
      | some ending => conclude ending
      | none =>
        converse (Program.needsPrompts found.env || (← (← IO.getStdin).isTty)) opening.session

end TreeShell.Main

/-- The program. -/
def main (arguments : List String) : IO UInt32 := TreeShell.Main.start arguments
