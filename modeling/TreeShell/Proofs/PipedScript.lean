import TreeShell.Proofs.Replay

/-!
# Scripts and piped input

A text means the same as a startup script and as the input, if it has no comments and no backspaces.
The two paths differ in much: a script is text and its lines are trimmed, blank ones are skipped,
and an `exit` ends the run before the welcome; the input is bytes, its lines are executed as they
come, and the settings name no script. None of this reaches the file system, the cursor or the
status.
-/

namespace TreeShell.Dialogue

variable {session first second : Session}

/-! ## Lines of the input -/

/-- A line of the input does what the trimmed line of the text does. -/
theorem respond_of_readAs {line : List Char} {shown : Option String} (h : Text.ReadAs line shown)
    (hbackspace : Text.backspace ∉ line) (session : Session) :
    respond session shown = .ofTurn (session.execute (String.ofList (Text.trim line))) := by
  obtain ⟨typed, rfl, htrim, hsubset⟩ := h
  have htyped : Text.backspace ∉ (String.ofList typed).toList := by
    rw [String.toList_ofList]
    exact fun hmem => hbackspace (hsubset hmem)
  rw [respond, Text.applyBackspaces, if_neg htyped, ← session.execute_trim, htrim]

theorem readLines_of_done (prompts : Bool) {turn : Turn} {outcome : Outcome} {shown : Option String}
    (hrespond : respond session shown = .ofTurn turn) (hreply : turn.reply = .done outcome)
    (input : List (Option String)) :
    (readLines prompts session (shown :: input)).session =
        (readLines prompts turn.session input).session ∧
      (readLines prompts session (shown :: input)).ending =
        (readLines prompts turn.session input).ending := by
  rw [readLines, hrespond, Stretch.ofTurn, hreply]
  exact ⟨rfl, rfl⟩

theorem readLines_of_exit (prompts : Bool) {turn : Turn} {exit : Exit} {shown : Option String}
    (hrespond : respond session shown = .ofTurn turn) (hreply : turn.reply = .exit exit)
    (input : List (Option String)) :
    (readLines prompts session (shown :: input)).session = turn.session ∧
      (readLines prompts session (shown :: input)).ending = .status exit.status := by
  rw [readLines, hrespond, Stretch.ofTurn, hreply]
  exact ⟨rfl, rfl⟩

/-- Lines of a text that are read from the input lead to the status of the first `exit` among
them. -/
theorem ending_readLines (prompts : Bool) {lines : List (List Char)} {input : List (Option String)}
    (hinput : List.Forall₂ Text.ReadAs lines input)
    (hbackspaces : ∀ line ∈ lines, Text.backspace ∉ line) (session : Session) :
    let replies := session.replies (lines.map String.ofList)
    (readLines prompts session input).ending =
      .status ((replies.findSome? Reply.exitStatus?).getD 0) := by
  induction hinput generalizing session with
  | nil => rfl
  | @cons line shown lines input hline _ ih =>
    obtain ⟨hbackspace, hbackspaces⟩ := List.forall_mem_cons.mp hbackspaces
    have hrespond := respond_of_readAs hline hbackspace session
    rw [session.execute_trim] at hrespond
    simp only
    rw [List.map_cons, Session.replies]
    cases hreply : (session.execute (String.ofList line)).reply with
    | done outcome =>
      rw [(readLines_of_done prompts hrespond hreply input).2, ih hbackspaces,
        List.findSome?_cons_of_isNone]
      rfl
    | exit exit =>
      rw [(readLines_of_exit prompts hrespond hreply input).2]
      rfl

/-! ## Both paths at once -/

/-- Sessions that agree come to agree, one by the lines of a script and one by the same lines of the
input. -/
theorem alike_replayLines_readLines (prompts : Bool) (h : first.Alike Eq second)
    {lines : List (List Char)} {input : List (Option String)}
    (hinput : List.Forall₂ Text.ReadAs lines input)
    (hcomments : ∀ line ∈ lines, line.find? (fun c => !Text.isBlank c) ≠ some '#')
    (hbackspaces : ∀ line ∈ lines, Text.backspace ∉ line) :
    (Script.replayLines first lines).session.Alike Eq (readLines prompts second input).session ∧
      Ending.status (((Script.replayLines first lines).exit.map Exit.status).getD 0) =
        (readLines prompts second input).ending := by
  -- the invariant is that the sessions agree, wherever the two paths have come to
  induction hinput generalizing first second with
  | nil => exact ⟨h, rfl⟩
  | @cons line shown lines input hline _ ih =>
    obtain ⟨hcomment, hcomments⟩ := List.forall_mem_cons.mp hcomments
    obtain ⟨hbackspace, hbackspaces⟩ := List.forall_mem_cons.mp hbackspaces
    have hrespond := respond_of_readAs hline hbackspace second
    rw [← Text.head?_trim] at hcomment
    by_cases hblank : Text.trim line = []
    · have hskipped : Script.isSkipped (Text.trim line) = true :=
        Script.isSkipped_iff.mpr (Or.inl hblank)
      -- the line is skipped here and executed there, where it does nothing
      have hexecute := second.execute_blank hblank
      rw [← second.execute_trim] at hexecute
      rw [hexecute] at hrespond
      obtain ⟨hsession, hending⟩ := readLines_of_done prompts hrespond rfl input
      rw [Script.replayLines_of_skipped hskipped, hsession, hending]
      exact ih h hcomments hbackspaces
    · have hkept : Script.isSkipped (Text.trim line) = false :=
        Script.isSkipped_eq_false_iff.mpr ⟨hblank, hcomment⟩
      have hturn := h.execute FileSystem.bisimulation_eq (String.ofList (Text.trim line))
      have hexit := hturn.exitStatus?_eq
      cases hreply : (first.execute (String.ofList (Text.trim line))).reply with
      | done outcome =>
        rw [hreply] at hexit
        obtain ⟨result, htwin⟩ := Reply.exists_eq_done hexit.symm
        obtain ⟨hsession, hending⟩ := readLines_of_done prompts hrespond htwin input
        rw [Script.replayLines_of_done hkept hreply, hsession, hending]
        exact ih hturn.session hcomments hbackspaces
      | exit request =>
        rw [hreply] at hexit
        obtain ⟨demand, htwin, hstatus⟩ := Reply.exists_eq_exit hexit.symm
        obtain ⟨hsession, hending⟩ := readLines_of_exit prompts hrespond htwin input
        rw [Script.replayLines_of_exit hkept hreply, hsession, hending, hstatus,
          Session.session_eq_of_exit htwin]
        exact ⟨h, rfl⟩

/-! ## Runs -/

/-- A run whose settings name a script that can be read, and whose input is empty. -/
theorem run_script {host : Host} {path text : String} (hread : host.readText path = .ok text)
    (prompts : Bool) (session : Session) (hpath : session.config.startupScript = some path) :
    (run host prompts session []).session = (Script.replay session text).session ∧
      (run host prompts session []).ending =
        .status (((Script.replay session text).exit.map Exit.status).getD 0) := by
  rw [run, opening, startup_of_readText hpath hread]
  cases (Script.replay session text).exit with
  | none => exact ⟨rfl, rfl⟩
  | some exit => exact ⟨rfl, rfl⟩

/-- A run whose settings name no script. -/
theorem run_input (host : Host) (prompts : Bool) (session : Session)
    (hpath : session.config.startupScript = none) (input : List (Option String)) :
    (run host prompts session input).session = (readLines prompts session input).session ∧
      (run host prompts session input).ending = (readLines prompts session input).ending := by
  have hstartup : startup host session = { session } := by rw [startup, hpath]
  rw [run, opening, hstartup]
  exact ⟨rfl, rfl⟩

/-- The session with another startup script in its settings, or with none. -/
def withScript (session : Session) (script : Option String) : Session :=
  { session with config := { session.config with startupScript := script } }

theorem alike_withScript (session : Session) (script other : Option String) :
    (withScript session script).Alike Eq (withScript session other) where
  env_eq := rfl
  home_eq := rfl
  cwd_eq := rfl
  cursor_eq := rfl
  lastStatus_eq := rfl
  fileSystem := by
    show Option.Rel Eq session.fileSystem session.fileSystem
    cases session.fileSystem with
    | none => exact .none
    | some fs => exact .some rfl

/-- A text without comments and without backspaces leads to the same file system, cursor and status
as a startup script before an empty input and as the input without a startup script. Both runs end
with the status of the first `exit` in the text, or with zero. -/
theorem script_is_piped_input {host : Host} {path text : String}
    (hread : host.readText path = .ok text)
    (hcomments : ∀ line ∈ Text.lines text.toList, line.find? (fun c => !Text.isBlank c) ≠ some '#')
    (hbackspaces : Text.backspace ∉ text.toList) (prompts : Bool) (session : Session) :
    let scripted := run host prompts (withScript session (some path)) []
    let input := Text.inputLines text.toUTF8.data.toList
    let piped := run host prompts (withScript session none) input
    let replies := (withScript session none).replies ((Text.lines text.toList).map String.ofList)
    scripted.session.fileSystem = piped.session.fileSystem ∧
      scripted.session.cursor = piped.session.cursor ∧
      scripted.session.lastStatus = piped.session.lastStatus ∧
      scripted.ending = piped.ending ∧
      piped.ending = .status ((replies.findSome? Reply.exitStatus?).getD 0) := by
  intro scripted input piped replies
  have hinput : List.Forall₂ Text.ReadAs (Text.lines text.toList) input := by
    have hbytes := Text.forall₂_readAs_inputLines text.toList
    rwa [Text.encode_toList] at hbytes
  have hbackspaces : ∀ line ∈ Text.lines text.toList, Text.backspace ∉ line :=
    fun line hline hmem => hbackspaces (Text.subset_of_mem_lines hline hmem)
  obtain ⟨hscript, hscriptEnding⟩ := run_script hread prompts (withScript session (some path)) rfl
  obtain ⟨hpiped, hpipedEnding⟩ := run_input host prompts (withScript session none) rfl input
  obtain ⟨hsession, hending⟩ := alike_replayLines_readLines prompts
    (alike_withScript session (some path) none) hinput hcomments hbackspaces
  have hsame : scripted.session.Alike Eq piped.session := by
    rw [hscript, hpiped]
    exact hsession
  have hfileSystem : scripted.session.fileSystem = piped.session.fileSystem := by
    rcases rel_cases hsame.fileSystem with ⟨hnone, hnone'⟩ | ⟨fs, twin, hsome, hsome', hfs⟩
    · rw [hnone, hnone']
    · rw [hsome, hsome', hfs]
  refine ⟨hfileSystem, hsame.cursor_eq, hsame.lastStatus_eq, ?_, ?_⟩
  · exact hscriptEnding.trans (hending.trans hpipedEnding.symm)
  · exact hpipedEnding.trans (ending_readLines prompts hinput hbackspaces _)

/-- White space around a line, a blank line, a quote that is never closed and a line behind `exit`
make no difference. -/
theorem untidy_script_is_piped_input :
    let text := "\tmkdir a \r\n \r\ncd \"a \nexit 3\nmkdir b"
    let host : Host := { files := [(["script"], some text.toUTF8.data.toList)] }
    let config : Config := { username := "", hostname := "", cwd := "/", home := "/" }
    let session : Session := { config, fileSystem := some .empty }
    let scripted := run host true (withScript session (some "/script")) []
    let piped := run host true (withScript session none) (Text.inputLines text.toUTF8.data.toList)
    host.readText "/script" = .ok text ∧
      (∀ line ∈ Text.lines text.toList, line.find? (fun c => !Text.isBlank c) ≠ some '#') ∧
      Text.backspace ∉ text.toList ∧
      scripted.session.fileSystem = piped.session.fileSystem ∧
      scripted.session.cursor = piped.session.cursor ∧
      scripted.session.lastStatus = piped.session.lastStatus ∧ scripted.ending = piped.ending := by
  intro text host config session scripted piped
  have hcomments : ∀ line ∈ Text.lines text.toList,
      line.find? (fun c => !Text.isBlank c) ≠ some '#' := by decide
  have hbackspaces : Text.backspace ∉ text.toList := by decide
  have hread : host.readText "/script" = .ok text := readText_only_file text
  obtain ⟨hfileSystem, hcursor, hstatus, hending, -⟩ :=
    script_is_piped_input hread hcomments hbackspaces true session
  exact ⟨hread, hcomments, hbackspaces, hfileSystem, hcursor, hstatus, hending⟩

end TreeShell.Dialogue
