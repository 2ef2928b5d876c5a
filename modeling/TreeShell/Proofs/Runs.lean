import TreeShell.Execution
import TreeShell.Proofs.Growth

/-!
# Runs of lines

What a command can do to a session is little: it leaves the session as it is, moves the cursor to a
directory, or lets the tree grow. This is shown once, command by command, and everything that holds
of a session for as long as it runs follows from it. The last result says that a run of lines keeps
every file and every directory and invents no content.
-/

namespace TreeShell

open FileSystem

theorem map_eq_ok_iff {ε α β : Type} {f : α → β} {result : Except ε α} {value : β} :
    result.map f = .ok value ↔ ∃ inner, result = .ok inner ∧ f inner = value := by
  cases result <;> simp [Except.map]

theorem map_eq_error_iff {ε α β : Type} {f : α → β} {result : Except ε α} {fault : ε} :
    result.map f = .error fault ↔ result = .error fault := by
  cases result <;> simp [Except.map]

theorem mapError_eq_ok_iff {ε ζ α : Type} {f : ε → ζ} {result : Except ε α} {value : α} :
    result.mapError f = .ok value ↔ result = .ok value := by
  cases result <;> simp [Except.mapError]

theorem mapError_eq_error_iff {ε ζ α : Type} {f : ε → ζ} {result : Except ε α} {fault : ζ} :
    result.mapError f = .error fault ↔ ∃ inner, result = .error inner ∧ f inner = fault := by
  cases result <;> simp [Except.mapError]

/-- What a command can do to a session. -/
inductive Session.Change (session : Session) : Session → Prop where
  /-- Nothing. -/
  | same : session.Change session
  /-- The cursor moves to a directory. -/
  | moved {fs : FileSystem} {path : String} (hfs : session.fileSystem = some fs)
      (hpath : Path.IsCanonical path) (hdirectory : fs.isDirectory path = true) :
      session.Change { session with cursor := path }
  /-- The tree grows. -/
  | grown {fs after : FileSystem} (hfs : session.fileSystem = some fs) (hgrowth : Growth fs after) :
      session.Change { session with fileSystem := some after }

namespace Command

variable {session changed : Session} {outcome : Outcome} {args : List String}

/-! ## Commands one by one -/

theorem change_of_changeDirectory {target : Option String}
    (h : changeDirectory session target = .ok (outcome, changed)) : session.Change changed := by
  unfold changeDirectory at h
  split at h
  · obtain ⟨-, rfl⟩ := Prod.mk.inj (Except.ok.inj h)
    exact .same
  · next fs hfs =>
    simp only at h
    split_ifs at h with hdirectory
    obtain ⟨-, rfl⟩ := Prod.mk.inj (Except.ok.inj h)
    refine .moved hfs ?_ hdirectory
    split
    · exact Path.isCanonical_root
    · exact Path.isCanonical_resolve _ _

theorem change_of_cd (h : cd session args = .ok (outcome, changed)) : session.Change changed := by
  unfold cd at h
  split at h
  · exact change_of_changeDirectory h
  · exact change_of_changeDirectory h
  · exact absurd h (by simp)

/-- Operands that are treated one after the other let the tree grow if each of them does. -/
theorem growth_forEach {attempt : FileSystem → String → Except Outcome FileSystem}
    (hattempt : ∀ fs operand after, attempt fs operand = .ok after → Growth fs after)
    (fs : FileSystem) (operands : List String) : Growth fs (forEach attempt fs operands).1 := by
  induction operands generalizing fs with
  | nil => exact .refl
  | cons operand operands ih =>
    rw [forEach]
    split
    · next after hafter => exact (hattempt fs operand after hafter).trans (ih after)
    · exact ih fs

theorem growth_makeDirectory {fs after : FileSystem} {operand : String}
    (h : makeDirectory session fs operand = .ok after) : Growth fs after := by
  rw [makeDirectory, mapError_eq_ok_iff] at h
  have hcanonical := Path.isCanonical_resolve session.cursor operand
  exact .single ⟨.directory (session.resolve operand), trivial, hcanonical, h⟩

theorem growth_makeEmptyFile {fs after : FileSystem} {operand : String}
    (h : makeEmptyFile session fs operand = .ok after) : Growth fs after := by
  unfold makeEmptyFile at h
  split at h
  · next other hrun =>
    obtain rfl := Except.ok.inj h
    have hcanonical := Path.isCanonical_resolve session.cursor operand
    exact .single ⟨.file (session.resolve operand) "", rfl, hcanonical, hrun⟩
  · split_ifs at h
    obtain rfl := Except.ok.inj h
    exact .refl

theorem change_of_makeAll {name missing would : String}
    {attempt : FileSystem → String → Except Outcome FileSystem}
    (hattempt : ∀ fs operand after, attempt fs operand = .ok after → Growth fs after)
    (h : makeAll session name missing would attempt args = .ok (outcome, changed)) :
    session.Change changed := by
  unfold makeAll at h
  split_ifs at h
  split at h
  · obtain ⟨-, rfl⟩ := Prod.mk.inj (Except.ok.inj h)
    exact .same
  · next fs hfs =>
    obtain ⟨-, rfl⟩ := Prod.mk.inj (Except.ok.inj h)
    exact .grown hfs (growth_forEach hattempt fs args)

/-- A copy has a file for its source, and that has a name for the copy to take. -/
theorem isCanonical_copyTarget {fs after : FileSystem} {source target : String}
    (hsource : Path.IsCanonical source) (htarget : Path.IsCanonical target)
    (hrun : fs.copyFile source (copyTarget fs source target) = .ok after) :
    Path.IsCanonical (copyTarget fs source target) := by
  have hroot : Path.segments source ≠ [] := by
    intro hnil
    have hread := fs.read_eq source
    rw [hnil, view_nil] at hread
    simp [copyFile, hread] at hrun
  unfold copyTarget
  split_ifs
  · exact Path.isCanonical_join htarget (Path.isName_basename hsource hroot)
  · exact htarget

theorem change_of_cp (h : cp session args = .ok (outcome, changed)) : session.Change changed := by
  unfold cp at h
  split at h
  · exact absurd h (by simp)
  · exact absurd h (by simp)
  · next source target =>
    unfold copy at h
    split at h
    · obtain ⟨-, rfl⟩ := Prod.mk.inj (Except.ok.inj h)
      exact .same
    · next fs hfs =>
      simp only at h
      split at h
      · next after hrun =>
        obtain ⟨-, rfl⟩ := Prod.mk.inj (Except.ok.inj h)
        have hcanonical := isCanonical_copyTarget (Path.isCanonical_resolve session.cursor source)
          (Path.isCanonical_resolve session.cursor target) hrun
        exact .grown hfs (.single ⟨.copy _ _, trivial, hcanonical, hrun⟩)
      · exact absurd h (by simp)
  · exact absurd h (by simp)

end Command

/-! ## Lines -/

/-- A command that is carried out changes the session as commands do. -/
theorem Builtin.change_of_perform {builtin : Builtin} {session : Session} {args : List String}
    {turn : Turn} (h : builtin.perform session args = .ok turn) : session.Change turn.session := by
  cases builtin with
  | cd =>
    obtain ⟨result, hcd, rfl⟩ := map_eq_ok_iff.mp h
    exact Command.change_of_cd hcd
  | mkdir =>
    obtain ⟨result, hmkdir, rfl⟩ := map_eq_ok_iff.mp h
    exact Command.change_of_makeAll (fun _ _ _ => Command.growth_makeDirectory) hmkdir
  | touch =>
    obtain ⟨result, htouch, rfl⟩ := map_eq_ok_iff.mp h
    exact Command.change_of_makeAll (fun _ _ _ => Command.growth_makeEmptyFile) htouch
  | cp =>
    obtain ⟨result, hcp, rfl⟩ := map_eq_ok_iff.mp h
    exact Command.change_of_cp hcp
  | cat =>
    obtain ⟨outcome, -, rfl⟩ := map_eq_ok_iff.mp h
    exact .same
  | ls | echo | pwd | confDump | exit =>
    rw [← Except.ok.inj h]
    exact .same

theorem Builtin.ofName_name (builtin : Builtin) : ofName builtin.name = .ok builtin := by
  cases builtin <;> rfl

theorem Builtin.name_injective {builtin other : Builtin} (h : builtin.name = other.name) :
    builtin = other := by
  have hofName := builtin.ofName_name
  rw [h, other.ofName_name] at hofName
  exact (Except.ok.inj hofName).symm

theorem Builtin.name_mem (builtin : Builtin) : builtin.name ∈ all.map name := by
  cases builtin <;> decide

theorem Session.call_name (session : Session) (builtin : Builtin) (args : List String) :
    session.call builtin.name args = builtin.dispatch session args := by
  rw [call, Builtin.ofName_name]

theorem Builtin.dispatch_of_ok {builtin : Builtin} {session : Session} {args : List String}
    {turn : Turn} (h : builtin.perform session args = .ok turn) :
    builtin.dispatch session args = turn := by
  rw [dispatch, h]

theorem Builtin.dispatch_of_error {builtin : Builtin} {session : Session} {args : List String}
    {failure : CommandFailure} (h : builtin.perform session args = .error failure) :
    builtin.dispatch session args = { reply := .done failure.outcome, session } := by
  rw [dispatch, h]

/-- A word calls the command of that name, or there is none. -/
theorem Session.call_cases (session : Session) (name : String) (args : List String) :
    (∃ builtin : Builtin, builtin.name = name ∧
      session.call name args = builtin.dispatch session args) ∨
    (name ∉ Builtin.all.map Builtin.name ∧
      session.call name args =
        { reply := .done (CommandFailure.notFound name).outcome, session }) := by
  unfold call Builtin.ofName
  cases hfind : Builtin.all.find? fun builtin => builtin.name == name with
  | some builtin =>
    have hname : builtin.name = name := by simpa using List.find?_some hfind
    exact Or.inl ⟨builtin, hname, rfl⟩
  | none =>
    refine Or.inr ⟨?_, rfl⟩
    intro hmem
    obtain ⟨builtin, hbuiltin, rfl⟩ := List.mem_map.mp hmem
    have hother := List.find?_eq_none.mp hfind builtin hbuiltin
    exact absurd hother (by simp)

/-- Calling a word changes the session as commands do, whether or not it names one. -/
theorem Session.change_call (session : Session) (name : String) (args : List String) :
    session.Change (session.call name args).session := by
  rcases session.call_cases name args with ⟨builtin, -, hcall⟩ | ⟨-, hcall⟩
  · rw [hcall, Builtin.dispatch]
    split
    · next turn hturn => exact Builtin.change_of_perform hturn
    · exact .same
  · rw [hcall]
    exact .same

/-- A line changes the session as commands do, and then looks after the cursor unless it was blank
or ended the session. -/
theorem Session.change_execute (session : Session) (line : String) :
    session.Change (session.execute line).session ∨
      ∃ changed status, session.Change changed ∧
        (session.execute line).session = { changed with lastStatus := status }.ensureCursor := by
  unfold Session.execute
  split
  · exact Or.inl .same
  · next name args _ =>
    have hcall := session.change_call name args
    simp only
    split
    · exact Or.inl hcall
    · next outcome _ => exact Or.inr ⟨_, outcome.status, hcall, rfl⟩

/-- A line replies what the command that it calls replies. -/
theorem Session.reply_execute {session : Session} {line name : String} {args : List String}
    (hwords : Words.ofLine session.config.env line = name :: args) :
    (session.execute line).reply = (session.call name args).reply := by
  rw [execute, hwords]
  simp only
  split
  · rfl
  · rfl

theorem Session.reply_execute_builtin {session : Session} {line : String} {builtin : Builtin}
    {args : List String} (hwords : Words.ofLine session.config.env line = builtin.name :: args) :
    (session.execute line).reply = (builtin.dispatch session args).reply := by
  rw [reply_execute hwords, call_name]

/-- A line that asks to leave ends where the command that it calls ends. -/
theorem Session.session_execute_of_exit {session : Session} {line name : String}
    {args : List String} {request : Exit}
    (hwords : Words.ofLine session.config.env line = name :: args)
    (hreply : (session.call name args).reply = .exit request) :
    (session.execute line).session = (session.call name args).session := by
  rw [execute, hwords]
  simp only
  rw [hreply]

/-- Every other line notes the status and looks after the cursor. -/
theorem Session.session_execute_of_done {session : Session} {line name : String}
    {args : List String} {outcome : Outcome}
    (hwords : Words.ofLine session.config.env line = name :: args)
    (hreply : (session.call name args).reply = .done outcome) :
    (session.execute line).session =
      { (session.call name args).session with lastStatus := outcome.status }.ensureCursor := by
  rw [execute, hwords]
  simp only
  rw [hreply]

/-- A command that asks to leave does nothing else. -/
theorem Builtin.session_eq_of_exit {builtin : Builtin} {session : Session} {args : List String}
    {turn : Turn} {exit : Exit} (h : builtin.perform session args = .ok turn)
    (hexit : turn.reply = .exit exit) : turn.session = session := by
  cases builtin with
  | cd | mkdir | touch | cp =>
    obtain ⟨result, -, rfl⟩ := map_eq_ok_iff.mp h
    exact absurd hexit (by simp)
  | cat =>
    obtain ⟨outcome, -, rfl⟩ := map_eq_ok_iff.mp h
    rfl
  | ls | echo | pwd | confDump | exit => rw [← Except.ok.inj h]

/-- A line that asks to leave leaves the session as it is. -/
theorem Session.session_eq_of_exit {session : Session} {line : String} {exit : Exit}
    (h : (session.execute line).reply = .exit exit) : (session.execute line).session = session := by
  cases hwords : Words.ofLine session.config.env line with
  | nil => rw [execute, hwords]
  | cons name args =>
    rw [reply_execute hwords] at h
    rw [session_execute_of_exit hwords h]
    rcases session.call_cases name args with ⟨builtin, -, hcall⟩ | ⟨-, hcall⟩
    · rw [hcall, Builtin.dispatch] at h ⊢
      split at h
      · next turn hturn => exact Builtin.session_eq_of_exit hturn h
      · rfl
    · rw [hcall]

/-! ## Runs -/

/-- The session after a list of lines. Nothing keeps a caller from executing lines after one that
asked to leave. -/
def Session.run (session : Session) (lines : List String) : Session :=
  lines.foldl (fun session line => (session.execute line).session) session

/-- Looking after the cursor puts it back to the root at most. -/
theorem Session.ensureCursor_cases (session : Session) :
    session.ensureCursor = session ∨ session.ensureCursor = { session with cursor := "/" } := by
  unfold ensureCursor
  split
  · split_ifs
    · exact Or.inl rfl
    · exact Or.inr rfl
  · exact Or.inl rfl

theorem Session.ensureCursor_fileSystem (session : Session) :
    session.ensureCursor.fileSystem = session.fileSystem := by
  rcases session.ensureCursor_cases with hkept | hreset
  · rw [hkept]
  · rw [hreset]

/-- A property of sessions that commands keep, and that the end of a line keeps, when the status is
noted and the cursor looked after. -/
structure Session.Invariant (P : Session → Prop) : Prop where
  /-- Commands keep the property. -/
  change {session changed : Session} : P session → session.Change changed → P changed
  /-- The end of a line keeps the property. -/
  settle {session : Session} (status : Int) :
    P session → P { session with lastStatus := status }.ensureCursor

section Invariants

variable {P : Session → Prop} {session : Session}

theorem Session.Invariant.execute (hP : Session.Invariant P) (h : P session) (line : String) :
    P (session.execute line).session := by
  rcases session.change_execute line with hchange | ⟨changed, status, hchange, hsession⟩
  · exact hP.change h hchange
  · rw [hsession]
    exact hP.settle status (hP.change h hchange)

/-- What one line keeps is kept by every run of lines. -/
theorem Session.Invariant.run (hP : Session.Invariant P) (h : P session) (lines : List String) :
    P (session.run lines) := by
  induction lines generalizing session with
  | nil => exact h
  | cons line lines ih => exact ih (hP.execute h line)

end Invariants

theorem Session.Change.growth {session changed : Session} {fs : FileSystem}
    (h : session.Change changed) (hfs : session.fileSystem = some fs) :
    ∃ after, changed.fileSystem = some after ∧ Growth fs after := by
  cases h with
  | same => exact ⟨fs, hfs, .refl⟩
  | moved => exact ⟨fs, hfs, .refl⟩
  | grown hother hgrowth =>
    obtain rfl := Option.some.inj (hother.symm.trans hfs)
    exact ⟨_, rfl, hgrowth⟩

/-- To have grown from a file system is kept. -/
theorem Session.invariant_growth (fs : FileSystem) :
    Session.Invariant fun session => ∃ after, session.fileSystem = some after ∧ Growth fs after where
  change := by
    rintro session changed ⟨middle, hmiddle, hearlier⟩ hchange
    obtain ⟨after, hafter, hlater⟩ := hchange.growth hmiddle
    exact ⟨after, hafter, hearlier.trans hlater⟩
  settle := by
    rintro session status ⟨after, hafter, hgrowth⟩
    exact ⟨after, (ensureCursor_fileSystem _).trans hafter, hgrowth⟩

/-- A run of lines lets the tree grow. -/
theorem Session.growth_run {session : Session} {fs : FileSystem}
    (hfs : session.fileSystem = some fs) (lines : List String) :
    ∃ after, (session.run lines).fileSystem = some after ∧ Growth fs after :=
  (invariant_growth fs).run ⟨fs, hfs, .refl⟩ lines

theorem Session.run_append (session : Session) (earlier later : List String) :
    session.run (earlier ++ later) = (session.run earlier).run later :=
  List.foldl_append

/-- Between any two moments of a run nothing is lost or overwritten: files keep their content and
directories stay directories. And nothing is invented: a file that is not empty has the content of a
file of the tree that the run started with. -/
theorem Session.run_keeps_and_invents_nothing {session : Session} {fs : FileSystem}
    (hfs : session.fileSystem = some fs) (earlier later : List String) :
    ∃ before after, (session.run earlier).fileSystem = some before ∧
      (session.run (earlier ++ later)).fileSystem = some after ∧
      (∀ names shown, before.view names = some shown → after.view names = some shown) ∧
      (∀ path content, before.read path = .ok content → after.read path = .ok content) ∧
      (∀ path, before.isDirectory path = true → after.isDirectory path = true) ∧
      (∀ names content, after.view names = some (.file content) → content ≠ "" →
        ∃ origin, fs.view origin = some (.file content)) := by
  obtain ⟨before, hbefore, hearlier⟩ := growth_run hfs earlier
  obtain ⟨after, hafter, hlater⟩ := growth_run hbefore later
  have hgrowth : Growth fs after := hearlier.trans hlater
  refine ⟨before, after, hbefore, by rw [run_append, hafter], ?_, ?_, ?_, ?_⟩
  · exact fun _ _ => hlater.view_eq_of_some
  · exact fun _ _ => hlater.read_eq_ok
  · exact fun _ => hlater.isDirectory
  · exact fun _ _ => hgrowth.exists_origin

/-- A file keeps its content through lines that try to put something in its place. -/
theorem Session.run_keeps_contested_file :
    let fs : FileSystem := { root := .directory [("a", .file "x"), ("b", .file "y")] }
    let session : Session :=
      { config := { username := "", hostname := "", cwd := "/", home := "/" }
        fileSystem := some fs }
    session.fileSystem = some fs ∧
      ∃ after, (session.run ["touch a", "cp b a", "mkdir a"]).fileSystem = some after ∧
        after.read "/a" = .ok "x" := by
  intro fs session
  have hfs : session.fileSystem = some fs := rfl
  have hread : fs.read "/a" = .ok "x" := by decide
  obtain ⟨before, after, hbefore, hafter, -, hkeeps, -⟩ :=
    run_keeps_and_invents_nothing hfs [] ["touch a", "cp b a", "mkdir a"]
  obtain rfl : fs = before := Option.some.inj hbefore
  exact ⟨hfs, after, hafter, hkeeps "/a" "x" hread⟩

end TreeShell
