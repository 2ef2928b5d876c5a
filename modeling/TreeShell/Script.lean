import TreeShell.Execution
import TreeShell.Host
import TreeShell.Text.Lines

/-!
# Startup scripts

A script is replayed line by line. White space around a line is dropped; blank lines and lines that
start with `#` are skipped. Every other line is shown after the prompt and then executed. A line
that fails does not stop the replay, and `exit` does.
-/

namespace TreeShell.Script

/-- How many lines of a script were executed, how many of these failed, how many were skipped. -/
structure Report where
  /-- The lines that were executed. -/
  executed : Nat := 0
  /-- The executed lines that ended with a status other than zero. -/
  failed : Nat := 0
  /-- The blank lines and comments. -/
  skipped : Nat := 0
  deriving DecidableEq, Repr

/-- The replay of a script. -/
structure Replay where
  /-- What was written to the standard output. -/
  out : String := ""
  /-- What was written to the standard error. -/
  err : String := ""
  /-- What became of the lines. -/
  report : Report := {}
  /-- The session after the last line that was executed. -/
  session : Session
  /-- The request to leave, if a line made one. -/
  exit : Option Exit := none

/-- Whether a trimmed line is skipped. -/
def isSkipped (line : List Char) : Bool := line.isEmpty || line.head? == some '#'

/-- A line is skipped if nothing is left of it or a comment. -/
theorem isSkipped_iff {line : List Char} :
    isSkipped line = true ↔ line = [] ∨ line.head? = some '#' := by
  rw [isSkipped, Bool.or_eq_true, List.isEmpty_iff, beq_iff_eq]

theorem isSkipped_eq_false_iff {line : List Char} :
    isSkipped line = false ↔ line ≠ [] ∧ line.head? ≠ some '#' := by
  rw [← not_or, ← isSkipped_iff, Bool.not_eq_true]

/-- A replay that goes on after one skipped line. -/
def Replay.afterSkipped (replay : Replay) : Replay :=
  { replay with report := { replay.report with skipped := replay.report.skipped + 1 } }

/-- A replay that goes on after one executed line, which was shown as `shown`. -/
def Replay.afterExecuted (shown : String) (outcome : Outcome) (replay : Replay) : Replay where
  out := shown ++ Text.endLine outcome.stdout ++ replay.out
  err := outcome.stderr ++ replay.err
  report :=
    { executed := replay.report.executed + 1
      failed := replay.report.failed + if outcome.isSuccess then 0 else 1
      skipped := replay.report.skipped }
  session := replay.session
  exit := replay.exit

/-- Replays the lines of a script. -/
def replayLines (session : Session) : List (List Char) → Replay
  | [] => { session }
  | line :: lines =>
    let line := Text.trim line
    if isSkipped line then (replayLines session lines).afterSkipped
    else
      let shown := session.prompt ++ String.ofList line ++ "\n"
      let turn := session.execute (String.ofList line)
      match turn.reply with
      | .done outcome => (replayLines turn.session lines).afterExecuted shown outcome
      | .exit exit =>
        { out := shown ++ Text.endLine exit.stdout
          err := exit.stderr
          report := { executed := 1 }
          session := turn.session
          exit := some exit }

/-- Replays a script. -/
def replay (session : Session) (script : String) : Replay :=
  replayLines session (Text.lines script.toList)

/-- The complaint about a script that cannot be read. -/
def unavailable (path : String) (failure : Host.ReadFailure) : String :=
  "cannot read startup script '" ++ path ++ "': " ++ failure.message

end TreeShell.Script
