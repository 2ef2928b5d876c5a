import TreeShell.Proofs.Replay

/-!
# The status of a run of one line

A run of one line ends with the status that the session notes. No command looks at that status, and
every line with a word notes its own, so that the run ends with the status of the line whatever the
startup script did before. A blank line notes nothing: it replies with status zero, and the run ends
with the status of the last line of the script, which need not be zero.
-/

namespace TreeShell

/-! ## What a reply depends on -/

/-- Two sessions that differ in the status of the last line at most. -/
structure Session.SameButStatus (first second : Session) : Prop where
  config_eq : first.config = second.config
  fileSystem_eq : first.fileSystem = second.fileSystem
  cursor_eq : first.cursor = second.cursor

theorem Session.sameButStatus (session : Session) (status : Int) :
    SameButStatus { session with lastStatus := status } session :=
  ⟨rfl, rfl, rfl⟩

variable {first second : Session}

theorem Session.SameButStatus.resolve_eq (h : first.SameButStatus second) :
    first.resolve = second.resolve := by
  funext target
  rw [resolve, resolve, h.cursor_eq]

namespace Session.SameButStatus

open Command

variable (h : first.SameButStatus second) (args : List String)
include h

theorem ls_eq : ls first args = ls second args := by
  have hoperand : listOperand first = listOperand second := by
    funext fs heading operand
    rw [listOperand, listOperand, h.resolve_eq]
  have hoperands (fs : FileSystem) : listOperands first fs = listOperands second fs := by
    funext operands
    cases operands with
    | nil => rfl
    | cons operand operands => rw [listOperands, listOperands, hoperand]
  rw [ls, ls, h.fileSystem_eq, hoperand]
  simp only [hoperands]

theorem cat_eq : cat first args = cat second args := by
  have hoperand : catOperand first = catOperand second := by
    funext fs operand
    rw [catOperand, catOperand, h.resolve_eq]
  rw [cat, cat, h.fileSystem_eq, hoperand]

theorem changeDirectory_eq (target : Option String) :
    (changeDirectory first target).map Prod.fst = (changeDirectory second target).map Prod.fst := by
  rw [changeDirectory.eq_def, changeDirectory.eq_def, h.fileSystem_eq]
  cases second.fileSystem with
  | none =>
    have hstub : cdStub first target = cdStub second target := by
      rw [cdStub.eq_def, cdStub.eq_def, h.config_eq]
    rw [hstub]
    rfl
  | some fs =>
    simp only [h.resolve_eq]
    split_ifs
    · rfl
    · rfl
    · rfl

theorem cd_eq : (cd first args).map Prod.fst = (cd second args).map Prod.fst := by
  rw [cd.eq_def, cd.eq_def]
  split
  · exact h.changeDirectory_eq none
  · exact h.changeDirectory_eq _
  · rfl

theorem makeAll_eq (name missing would : String)
    (attempt : FileSystem → String → Except Outcome FileSystem) :
    (makeAll first name missing would attempt args).map Prod.fst =
      (makeAll second name missing would attempt args).map Prod.fst := by
  rw [makeAll, makeAll, h.fileSystem_eq]
  split_ifs
  · rfl
  · cases second.fileSystem with
    | none => rfl
    | some fs => rfl

theorem mkdir_eq :
    (mkdir first args).map Prod.fst = (mkdir second args).map Prod.fst := by
  have hattempt : makeDirectory first = makeDirectory second := by
    funext fs operand
    rw [makeDirectory, makeDirectory, h.resolve_eq]
  rw [mkdir, mkdir, hattempt]
  exact h.makeAll_eq args _ _ _ _

theorem touch_eq :
    (touch first args).map Prod.fst = (touch second args).map Prod.fst := by
  have hattempt : makeEmptyFile first = makeEmptyFile second := by
    funext fs operand
    rw [makeEmptyFile, makeEmptyFile, h.resolve_eq]
  rw [touch, touch, hattempt]
  exact h.makeAll_eq args _ _ _ _

theorem copy_eq (source target : String) :
    (copy first source target).map Prod.fst = (copy second source target).map Prod.fst := by
  rw [copy, copy, h.fileSystem_eq]
  cases second.fileSystem with
  | none => rfl
  | some fs =>
    simp only [h.resolve_eq]
    split
    · rfl
    · rfl

theorem cp_eq : (cp first args).map Prod.fst = (cp second args).map Prod.fst := by
  rw [cp.eq_def, cp.eq_def]
  split
  · rfl
  · rfl
  · exact h.copy_eq _ _
  · rfl

theorem pwd_eq : pwd first = pwd second := by
  rw [pwd, pwd, h.fileSystem_eq, h.cursor_eq, h.config_eq]

theorem confDump_eq : confDump first = confDump second := by
  rw [confDump, confDump, configurationReport, configurationReport, h.fileSystem_eq, h.cursor_eq,
    h.config_eq]

/-- No command looks at the status of the last line. -/
theorem perform_eq (builtin : Builtin) :
    (builtin.perform first args).map Turn.reply = (builtin.perform second args).map Turn.reply := by
  -- a command that may change the session is known by what it says
  have hchanges {result other : Except CommandFailure (Outcome × Session)}
      (hsame : result.map Prod.fst = other.map Prod.fst) :
      (result.map fun pair => Turn.mk (.done pair.1) pair.2).map Turn.reply =
        (other.map fun pair => Turn.mk (.done pair.1) pair.2).map Turn.reply := by
    have hsaid (result : Except CommandFailure (Outcome × Session)) :
        (result.map fun pair => Turn.mk (.done pair.1) pair.2).map Turn.reply =
          (result.map Prod.fst).map Reply.done := by
      cases result with
      | ok | error => rfl
    rw [hsaid, hsaid, hsame]
  cases builtin with
  | ls =>
    rw [Builtin.perform, Builtin.perform, h.ls_eq]
    rfl
  | cat =>
    rw [Builtin.perform, Builtin.perform, h.cat_eq]
    cases cat second args with
    | ok | error => rfl
  | pwd =>
    rw [Builtin.perform, Builtin.perform, h.pwd_eq]
    rfl
  | confDump =>
    rw [Builtin.perform, Builtin.perform, h.confDump_eq]
    rfl
  | echo | exit => rfl
  | cd => exact hchanges (h.cd_eq args)
  | mkdir => exact hchanges (h.mkdir_eq args)
  | touch => exact hchanges (h.touch_eq args)
  | cp => exact hchanges (h.cp_eq args)

theorem dispatch_eq (builtin : Builtin) :
    (builtin.dispatch first args).reply = (builtin.dispatch second args).reply := by
  have hreply (session : Session) : (builtin.dispatch session args).reply =
      match (builtin.perform session args).map Turn.reply with
      | .ok reply => reply
      | .error failure => .done failure.outcome := by
    rw [Builtin.dispatch]
    cases builtin.perform session args with
    | ok | error => rfl
  rw [hreply, hreply, h.perform_eq]

/-- Nor does a line. -/
theorem execute_eq (line : String) : (first.execute line).reply = (second.execute line).reply := by
  have hwords : Words.ofLine first.config.env line = Words.ofLine second.config.env line := by
    rw [h.config_eq]
  cases hsecond : Words.ofLine second.config.env line with
  | nil =>
    rw [hsecond] at hwords
    rw [execute, execute, hwords, hsecond]
  | cons name args =>
    rw [hsecond] at hwords
    rw [reply_execute hwords, reply_execute hsecond, call, call]
    cases Builtin.ofName name with
    | ok builtin => exact h.dispatch_eq args builtin
    | error failure => rfl

end Session.SameButStatus

/-! ## What a line notes -/

namespace Session

variable {session : Session}

theorem ensureCursor_lastStatus (session : Session) :
    session.ensureCursor.lastStatus = session.lastStatus := by
  rcases session.ensureCursor_cases with hkept | hreset
  · rw [hkept]
  · rw [hreset]

/-- A line that is not blank notes its status if the session goes on. -/
theorem lastStatus_execute {line : String} {outcome : Outcome}
    (hline : Text.trim line.toList ≠ []) (hreply : (session.execute line).reply = .done outcome) :
    (session.execute line).session.lastStatus = outcome.status := by
  obtain ⟨name, args, hwords⟩ := List.exists_cons_of_ne_nil (mt Words.ofLine_eq_nil_iff.mp hline)
  rw [reply_execute hwords] at hreply
  rw [session_execute_of_done hwords hreply, ensureCursor_lastStatus]

end Session

/-- The status of the last of some steps, or else a status from before. -/
def Step.lastStatus (before : Int) (steps : List Step) : Int :=
  (steps.getLast?.map fun step => step.reply.status).getD before

theorem Step.lastStatus_cons (before : Int) (step : Step) (steps : List Step) :
    lastStatus before (step :: steps) = lastStatus step.reply.status steps := by
  rw [lastStatus, lastStatus, List.getLast?_cons]
  cases steps.getLast? with
  | none | some => rfl

/-- Without an `exit` a script leaves the status of its last step. -/
theorem Script.lastStatus_replayLines (session : Session) (lines : List (List Char))
    (h : (replayLines session lines).exit = none) :
    (replayLines session lines).session.lastStatus =
      Step.lastStatus session.lastStatus (session.steps (executable lines)) := by
  induction session, lines using replay_induction with
  | nil session => rfl
  | skipped session line lines hskipped ih =>
    rw [replayLines_of_skipped hskipped] at h ⊢
    rw [executable_of_skipped hskipped]
    exact ih h
  | done session line lines outcome hkept hreply ih =>
    -- a line that is kept is not blank, and so it notes its status
    have hline : Text.trim (String.ofList (Text.trim line)).toList ≠ [] := by
      rw [String.toList_ofList, ne_eq, ← Words.written_eq_nil_iff, Words.written_trim,
        Words.written_eq_nil_iff]
      exact (isSkipped_eq_false_iff.mp hkept).1
    have hnoted := Session.lastStatus_execute hline hreply
    have hstep : Step.reply { before := session, line := String.ofList (Text.trim line) } =
        .done outcome := hreply
    rw [replayLines_of_done hkept hreply] at h ⊢
    rw [executable_of_kept hkept, Session.steps_of_done hreply, Step.lastStatus_cons, hstep]
    have hrest := ih h
    rw [hnoted] at hrest
    exact hrest
  | exit session line lines request hkept hreply =>
    rw [replayLines_of_exit hkept hreply] at h
    exact absurd h (by simp)

namespace Dialogue

variable {host : Host} {session : Session}

/-- The run of a line after a script that does not ask to leave. -/
theorem ending_runLine (h : (startup host session).ending = none) (line : String) :
    (runLine host session line).ending =
      match ((startup host session).session.execute line).reply with
      | .done _ => .status ((startup host session).session.execute line).session.lastStatus
      | .exit request => .status request.status := by
  rw [runLine, Stretch.followedBy, h]
  simp only
  rw [Stretch.followedBy, Stretch.ofTurn]
  cases ((startup host session).session.execute line).reply with
  | done | exit => rfl

/-- After a script that does not ask to leave, or without one, a line that is not blank determines
the status of the run alone: it is the status that the line replies with, and that is the same
whatever status was noted before. A blank line replies with status zero, but the run ends with the
status that was noted before, which is that of the last line of the script. -/
theorem run_ends_with_status_of_line {host : Host} {session : Session}
    (hstays : (startup host session).ending = none) (line : String) :
    let before := (startup host session).session
    let reply := (before.execute line).reply
    let ending := (runLine host session line).ending
    (Text.trim line.toList ≠ [] → ending = .status reply.status ∧
      ∀ status, (Session.execute { before with lastStatus := status } line).reply = reply) ∧
    (Text.trim line.toList = [] → reply.status = 0 ∧ ending = .status before.lastStatus) ∧
    ∀ path script, session.config.startupScript = some path → host.readText path = .ok script →
      before.lastStatus = Step.lastStatus session.lastStatus
        (session.steps (Script.executable (Text.lines script.toList))) := by
  intro before reply ending
  have hending : ending = _ := ending_runLine hstays line
  refine ⟨?_, ?_, ?_⟩
  · intro hline
    refine ⟨?_, fun status => (before.sameButStatus status).execute_eq line⟩
    cases hreply : (before.execute line).reply with
    | done outcome =>
      have hnoted := Session.lastStatus_execute hline hreply
      rw [hreply] at hending
      rw [hending, show reply = .done outcome from hreply]
      exact congrArg Ending.status hnoted
    | exit request =>
      rw [hreply] at hending
      rw [hending, show reply = .exit request from hreply]
      rfl
  · intro hline
    have hexecute := before.execute_of_trim_eq_nil hline
    rw [hexecute] at hending
    refine ⟨?_, hending⟩
    show (before.execute line).reply.status = 0
    rw [hexecute]
    rfl
  · intro path script hpath hread
    have hstartup := startup_of_readText hpath hread
    have hexit : (Script.replay session script).exit = none := by
      rw [hstartup] at hstays
      exact Option.map_eq_none_iff.mp hstays
    show (startup host session).session.lastStatus = _
    rw [hstartup]
    exact Script.lastStatus_replayLines session _ hexit

/-- After a script whose only line fails, `pwd` ends the run with status zero. -/
theorem pwd_after_failing_script_ends_with_zero :
    let host : Host := { files := [(["script"], some "cat x\n".toUTF8.data.toList)] }
    let config : Config :=
      { username := "", hostname := "", cwd := "/", home := "/", startupScript := some "/script" }
    let session : Session := { config, fileSystem := some .empty }
    (startup host session).ending = none ∧ (startup host session).session.lastStatus = 1 ∧
      (runLine host session "pwd").ending = .status 0 := by
  intro host config session
  obtain ⟨hstays, hnoted, hstatus⟩ :
      (startup host session).ending = none ∧ (startup host session).session.lastStatus = 1 ∧
        ((startup host session).session.execute "pwd").reply.status = 0 := by
    decide +kernel +revert
  obtain ⟨hwords, -, -⟩ := run_ends_with_status_of_line hstays "pwd"
  obtain ⟨hending, -⟩ := hwords (by decide)
  rw [hstatus] at hending
  exact ⟨hstays, hnoted, hending⟩

/-- With a blank line in its place the same run ends with status one, so that a run does not end
with the status of every line. -/
theorem blank_line_after_failing_script_ends_with_one :
    ¬ ∀ (host : Host) (session : Session) (line : String), (startup host session).ending = none →
      (runLine host session line).ending =
        .status ((startup host session).session.execute line).reply.status := by
  intro h
  let host : Host := { files := [(["script"], some "cat x\n".toUTF8.data.toList)] }
  let config : Config :=
    { username := "", hostname := "", cwd := "/", home := "/", startupScript := some "/script" }
  let session : Session := { config, fileSystem := some .empty }
  obtain ⟨hstays, hending, hstatus⟩ :
      (startup host session).ending = none ∧ (runLine host session "").ending = .status 1 ∧
        ((startup host session).session.execute "").reply.status = 0 := by
    clear h
    decide +kernel +revert
  have hclaimed := h host session "" hstays
  rw [hending, hstatus] at hclaimed
  exact absurd hclaimed (by decide)

end Dialogue

end TreeShell
