import TreeShell.Decimal.Digits
import TreeShell.Session
import TreeShell.Text.Blank

/-!
# Commands that control the session

`cd` moves the cursor and `exit` ends the session. The argument of `exit` is a decimal integer of
any length, and the status is that integer modulo 256.
-/

namespace TreeShell.Command

/-- What `cd` says without a file system. -/
def cdStub (session : Session) (target : Option String) : Outcome where
  stdout :=
    match target with
    | none => "cd: would change to home directory: " ++ session.config.home ++ "\n"
    | some dir => "cd: would change to directory: " ++ dir ++ "\n"

/-- Moves the cursor to the directory that `target` names, or to the root without a target. -/
def changeDirectory (session : Session) (target : Option String) :
    Except CommandFailure (Outcome × Session) :=
  match session.fileSystem with
  | none => .ok (cdStub session target, session)
  | some fs =>
    let path := match target with
      | none => "/"
      | some dir => session.resolve dir
    if fs.isDirectory path then .ok ({}, { session with cursor := path })
    else
      let reason := if fs.exists? path then "Not a directory" else "No such file or directory"
      .error (.execution "cd" (target.getD "/" ++ ": " ++ reason))

/-- `cd`: moves the cursor; it takes at most one operand. -/
def cd (session : Session) (args : List String) : Except CommandFailure (Outcome × Session) :=
  match args with
  | [] => changeDirectory session none
  | [target] => changeDirectory session (some target)
  | _ => .error (.usage "cd" "too many arguments\nUsage: cd [directory]")

/-- The remainder modulo 256 of the number that a list of decimal digits denotes, when the digits
read so far leave `acc`. -/
def remainder256 (acc : Nat) (digits : List Char) : Nat :=
  digits.foldl (fun acc c => (acc * 10 + Decimal.digitValue c) % 256) acc

/-- The status that a text denotes: a decimal integer with an optional sign, modulo 256. -/
def exitStatus? (text : List Char) : Option Nat :=
  let (negative, digits) := match text with
    | '-' :: rest => (true, rest)
    | '+' :: rest => (false, rest)
    | _ => (false, text)
  if digits.isEmpty || !digits.all Char.isDigit then none
  else
    let rem := remainder256 0 digits
    some (if negative then (256 - rem) % 256 else rem)

/-- `exit`: ends the session with the status that the first argument denotes, with status 0 when
there is none, and with status 1 when it denotes no integer. Further arguments are ignored. -/
def exit (args : List String) : Exit :=
  match args with
  | [] => { status := 0, stdout := "Exiting shell\n" }
  | arg :: _ =>
    let text := Text.trim arg.toList
    match exitStatus? text with
    | some status =>
      { status, stdout := "Exiting with code: " ++ String.ofList text ++ "\n" }
    | none =>
      { status := 1, stderr := "exit: " ++ String.ofList text ++ ": numeric argument required\n" }

end TreeShell.Command
