import TreeShell.Dialogue
import TreeShell.Proofs.Lines
import TreeShell.Proofs.Simulation

/-!
# What a replay amounts to

The replay of a script executes the lines that are not skipped one after the other, up to and
including the first that asks to leave, and what it writes and counts is told by these steps. A
script that is continued after the end of a line is replayed in two parts. After an `exit` nothing
more is executed, neither of the script nor of the input nor of a line that was given.
-/

namespace TreeShell

/-! ## Steps -/

/-- What is written to the standard output with a reply. -/
def Reply.stdout : Reply → String
  | .done outcome => outcome.stdout
  | .exit request => request.stdout

/-- What is written to the standard error with a reply. -/
def Reply.stderr : Reply → String
  | .done outcome => outcome.stderr
  | .exit request => request.stderr

/-- A line that is executed, and the session before it. -/
structure Step where
  before : Session
  line : String

namespace Step

/-- The reply to the line. -/
def reply (step : Step) : Reply := (step.before.execute step.line).reply

/-- The line after the prompt of its moment, and what it wrote. -/
def shown (step : Step) : String :=
  step.before.prompt ++ step.line ++ "\n" ++ Text.endLine step.reply.stdout

end Step

/-- The lines that are executed one after the other, up to and including the first one that asks to
leave. -/
def Session.steps (session : Session) : List String → List Step
  | [] => []
  | line :: lines =>
    { before := session, line } ::
      match (session.execute line).reply with
      | .done _ => (session.execute line).session.steps lines
      | .exit _ => []

section Steps

variable {session : Session} {line : String} {lines : List String}

theorem Session.steps_of_done {outcome : Outcome}
    (h : (session.execute line).reply = .done outcome) :
    session.steps (line :: lines) =
      { before := session, line } :: (session.execute line).session.steps lines := by
  rw [steps, h]

end Steps

namespace Script

/-! ## Replays line by line -/

/-- The lines that are executed if no `exit` comes before them. -/
def executable (lines : List (List Char)) : List String :=
  ((lines.map Text.trim).filter fun line => !isSkipped line).map String.ofList

section Replays

variable {session : Session} {line : List Char} {lines : List (List Char)}

theorem executable_of_skipped (h : isSkipped (Text.trim line) = true) :
    executable (line :: lines) = executable lines := by
  rw [executable, List.map_cons, List.filter_cons_of_neg (by simp [h])]
  rfl

theorem executable_of_kept (h : isSkipped (Text.trim line) = false) :
    executable (line :: lines) = String.ofList (Text.trim line) :: executable lines := by
  rw [executable, List.map_cons, List.filter_cons_of_pos (by simp [h]), List.map_cons]
  rfl

theorem replayLines_of_skipped (h : isSkipped (Text.trim line) = true) :
    replayLines session (line :: lines) = (replayLines session lines).afterSkipped := by
  rw [replayLines]
  simp only [h, if_true]

theorem replayLines_of_done {outcome : Outcome} (h : isSkipped (Text.trim line) = false)
    (hreply : (session.execute (String.ofList (Text.trim line))).reply = .done outcome) :
    replayLines session (line :: lines) =
      (replayLines (session.execute (String.ofList (Text.trim line))).session lines).afterExecuted
        (session.prompt ++ String.ofList (Text.trim line) ++ "\n") outcome := by
  rw [replayLines]
  simp only [h, Bool.false_eq_true, if_false]
  rw [hreply]

theorem replayLines_of_exit {exit : Exit} (h : isSkipped (Text.trim line) = false)
    (hreply : (session.execute (String.ofList (Text.trim line))).reply = .exit exit) :
    replayLines session (line :: lines) =
      { out := session.prompt ++ String.ofList (Text.trim line) ++ "\n" ++ Text.endLine exit.stdout
        err := exit.stderr
        report := { executed := 1 }
        session
        exit := some exit } := by
  have hsession := Session.session_eq_of_exit hreply
  rw [replayLines]
  simp only [h, Bool.false_eq_true, if_false]
  rw [hreply, hsession]

/-- What holds of the replay of no lines, and passes from the lines behind a line to the line with
them, holds of every replay. -/
theorem replay_induction {P : Session → List (List Char) → Prop} (nil : ∀ session, P session [])
    (skipped : ∀ session line lines, isSkipped (Text.trim line) = true → P session lines →
      P session (line :: lines))
    (done : ∀ session line lines outcome, isSkipped (Text.trim line) = false →
      (session.execute (String.ofList (Text.trim line))).reply = .done outcome →
      P (session.execute (String.ofList (Text.trim line))).session lines →
      P session (line :: lines))
    (exit : ∀ session line lines exit, isSkipped (Text.trim line) = false →
      (session.execute (String.ofList (Text.trim line))).reply = .exit exit →
      P session (line :: lines))
    (session : Session) (lines : List (List Char)) : P session lines := by
  induction lines generalizing session with
  | nil => exact nil session
  | cons line lines ih =>
    by_cases hskipped : isSkipped (Text.trim line) = true
    · exact skipped session line lines hskipped (ih session)
    · have hkept : isSkipped (Text.trim line) = false := by simpa using hskipped
      cases hreply : (session.execute (String.ofList (Text.trim line))).reply with
      | done outcome => exact done session line lines outcome hkept hreply (ih _)
      | exit request => exact exit session line lines request hkept hreply

end Replays

/-! ## Replays and steps -/

/-- A replay and the replay of what follows. -/
def Replay.followedBy (first second : Replay) : Replay where
  out := first.out ++ second.out
  err := first.err ++ second.err
  report :=
    { executed := first.report.executed + second.report.executed
      failed := first.report.failed + second.report.failed
      skipped := first.report.skipped + second.report.skipped }
  session := second.session
  exit := second.exit

end Script

/-! ## Runs -/

/-- What is encoded as the only file of a host is read from it. -/
theorem Dialogue.readText_only_file (text : String) :
    let host : Host := { files := [(["script"], some text.toUTF8.data.toList)] }
    host.readText "/script" = .ok text := by
  intro host
  have hparts : Path.parts "/script" = ["", "script"] := by decide
  have hwalk : ["", "script"].foldlM host.step (.folder []) =
      .ok (.file text.toUTF8.data.toList) := rfl
  have hbytes : String.fromUTF8? ⟨text.toUTF8.data.toList.toArray⟩ = some text := by
    rw [← Text.encode_toList, Text.fromUTF8?_encode, String.ofList_toList]
  rw [Host.readText, if_neg (by decide), hparts, show host.start "/script" = [] from rfl, hwalk]
  simp only [Bind.bind, Except.bind]
  rw [hbytes]

/-- A startup script that can be read is replayed. -/
theorem Dialogue.startup_of_readText {host : Host} {session : Session} {path script : String}
    (hpath : session.config.startupScript = some path) (hread : host.readText path = .ok script) :
    startup host session =
      { stdout := (Script.replay session script).out
        stderr := (Script.replay session script).err
        session := (Script.replay session script).session
        ending := (Script.replay session script).exit.map fun exit => .status exit.status } := by
  rw [startup, hpath]
  simp only
  rw [hread]

end TreeShell
