import TreeShell.Proofs.ChildOrder
import TreeShell.Proofs.Runs

/-!
# Sessions that cannot be told apart

A relation between file systems that no operation can tell apart extends to sessions: if two
sessions hold related file systems and agree in the rest of what commands look at, then a line does
the same to both and they agree again afterwards. Only the report of the settings may tell them
apart, and it does not if the settings are the same. This is shown once, command by command, for
every such relation. The last result takes the relation to be equality up to the order of children,
and says that this order cannot be observed.
-/

namespace TreeShell

/-! ## File systems that cannot be told apart -/

/-- A relation between file systems that no operation can tell apart. -/
structure FileSystem.Bisimulation (R : FileSystem → FileSystem → Prop) : Prop where
  source_eq {fs twin : FileSystem} : R fs twin → fs.source = twin.source
  isDirectory_eq {fs twin : FileSystem} : R fs twin → fs.isDirectory = twin.isDirectory
  exists?_eq {fs twin : FileSystem} : R fs twin → fs.exists? = twin.exists?
  list_eq {fs twin : FileSystem} : R fs twin → fs.list = twin.list
  read_eq {fs twin : FileSystem} : R fs twin → fs.read = twin.read
  /-- A creation does the same to both. -/
  run {fs twin : FileSystem} :
    R fs twin → ∀ creation : Creation, Matched R (creation.run fs) (creation.run twin)

theorem FileSystem.bisimulation_eq : Bisimulation Eq where
  source_eq := by
    rintro fs _ rfl
    rfl
  isDirectory_eq := by
    rintro fs _ rfl
    rfl
  exists?_eq := by
    rintro fs _ rfl
    rfl
  list_eq := by
    rintro fs _ rfl
    rfl
  read_eq := by
    rintro fs _ rfl
    rfl
  run := by
    rintro fs _ rfl creation
    cases creation.run fs with
    | ok after => exact .ok rfl
    | error failure => exact .error failure

theorem FileSystem.bisimulation_reordered : Bisimulation Reordered where
  source_eq := Reordered.source_eq
  isDirectory_eq h := funext h.isDirectory_eq
  exists?_eq h := funext h.exists?_eq
  list_eq h := funext h.list_eq
  read_eq h := funext h.read_eq
  run := Reordered.matched_run

/-! ## Sessions that cannot be told apart -/

/-- Two sessions agree in what commands look at. Their settings may differ in what is reported
only, and their file systems are related. -/
structure Session.Alike (R : FileSystem → FileSystem → Prop) (first second : Session) : Prop where
  env_eq : first.config.env = second.config.env
  home_eq : first.config.home = second.config.home
  cwd_eq : first.config.cwd = second.config.cwd
  cursor_eq : first.cursor = second.cursor
  lastStatus_eq : first.lastStatus = second.lastStatus
  /-- No file system is loaded, or related ones are. -/
  fileSystem : Option.Rel R first.fileSystem second.fileSystem

/-- The status that a reply carries. -/
def Reply.status : Reply → Int
  | .done outcome => outcome.status
  | .exit request => request.status

/-- The status that the session is to end with, if it is to end. -/
def Reply.exitStatus? : Reply → Option Int
  | .done _ => none
  | .exit request => some request.status

theorem Reply.exists_eq_done {reply : Reply} (h : reply.exitStatus? = none) :
    ∃ outcome, reply = .done outcome := by
  cases reply with
  | done outcome => exact ⟨outcome, rfl⟩
  | exit request => exact absurd h (Option.some_ne_none _)

theorem Reply.exists_eq_exit {reply : Reply} {status : Int} (h : reply.exitStatus? = some status) :
    ∃ request, reply = .exit request ∧ request.status = status := by
  cases reply with
  | done outcome => exact absurd h.symm (Option.some_ne_none status)
  | exit request => exact ⟨request, rfl, Option.some.inj h⟩

/-- What comes of a line in two sessions that agree: the sessions agree again, and the replies carry
one status. If the settings are the same, so are the replies. -/
structure Turn.Alike (R : FileSystem → FileSystem → Prop) (sameSettings : Prop)
    (first second : Turn) : Prop where
  session : first.session.Alike R second.session
  status_eq : first.reply.status = second.reply.status
  exitStatus?_eq : first.reply.exitStatus? = second.reply.exitStatus?
  /-- Sessions with the same settings give the same reply. -/
  reply_eq : sameSettings → first.reply = second.reply

variable {R : FileSystem → FileSystem → Prop} {first second : Session}

theorem Turn.alike_of_reply_eq {sameSettings : Prop} {turn twin : Turn}
    (hsession : turn.session.Alike R twin.session) (hreply : turn.reply = twin.reply) :
    turn.Alike R sameSettings twin where
  session := hsession
  status_eq := by rw [hreply]
  exitStatus?_eq := by rw [hreply]
  reply_eq _ := hreply

theorem Session.Alike.resolve_eq (h : first.Alike R second) : first.resolve = second.resolve := by
  funext target
  rw [Session.resolve, Session.resolve, h.cursor_eq]

theorem Session.Alike.withCursor (h : first.Alike R second) (path : String) :
    Session.Alike R { first with cursor := path } { second with cursor := path } :=
  { h with cursor_eq := rfl }

theorem Session.Alike.withStatus (h : first.Alike R second) (status : Int) :
    Session.Alike R { first with lastStatus := status } { second with lastStatus := status } :=
  { h with lastStatus_eq := rfl }

theorem Session.Alike.withFileSystem (h : first.Alike R second) {fs twin : FileSystem}
    (hfs : R fs twin) :
    Session.Alike R { first with fileSystem := some fs } { second with fileSystem := some twin } :=
  { h with fileSystem := .some hfs }

/-! ## Commands one by one -/

namespace Command

/-- What a command that may change the session makes of two that agree. -/
def Same (R : FileSystem → FileSystem → Prop) (first second : Outcome × Session) : Prop :=
  first.1 = second.1 ∧ first.2.Alike R second.2

variable (hR : FileSystem.Bisimulation R) (h : first.Alike R second)
include hR h

theorem listOperand_eq {fs twin : FileSystem} (hfs : R fs twin) :
    listOperand first fs = listOperand second twin := by
  funext heading operand
  rw [listOperand, listOperand, h.resolve_eq, hR.list_eq hfs, hR.read_eq hfs]

theorem ls_eq (args : List String) : ls first args = ls second args := by
  rw [ls, ls]
  rcases rel_cases h.fileSystem with ⟨hnone, hnone'⟩ | ⟨fs, twin, hsome, hsome', hfs⟩
  · rw [hnone, hnone']
  · have hoperand := listOperand_eq hR h hfs
    have hoperands : listOperands first fs = listOperands second twin := by
      funext operands
      cases operands with
      | nil => rfl
      | cons operand operands => rw [listOperands, listOperands, hoperand]
    rw [hsome, hsome']
    simp only [hoperand, hoperands]

theorem cat_eq (args : List String) : cat first args = cat second args := by
  rw [cat, cat]
  rcases rel_cases h.fileSystem with ⟨hnone, hnone'⟩ | ⟨fs, twin, hsome, hsome', hfs⟩
  · rw [hnone, hnone']
  · have hoperand : catOperand first fs = catOperand second twin := by
      funext operand
      rw [catOperand, catOperand, h.resolve_eq, hR.read_eq hfs]
    rw [hsome, hsome']
    simp only [hoperand]

omit hR in
theorem pwd_eq : pwd first = pwd second := by
  rw [pwd, pwd, h.cursor_eq, h.cwd_eq]
  rcases rel_cases h.fileSystem with ⟨hnone, hnone'⟩ | ⟨fs, twin, hsome, hsome', -⟩
  · rw [hnone, hnone']
  · rw [hsome, hsome']
    rfl

theorem confDump_eq (hconfig : first.config = second.config) :
    confDump first = confDump second := by
  rw [confDump, confDump, Session.configurationReport, Session.configurationReport, hconfig,
    h.cursor_eq]
  rcases rel_cases h.fileSystem with ⟨hnone, hnone'⟩ | ⟨fs, twin, hsome, hsome', hfs⟩
  · rw [hnone, hnone']
  · rw [hsome, hsome']
    simp only [hR.source_eq hfs]

theorem matched_changeDirectory (target : Option String) :
    Matched (Same R) (changeDirectory first target) (changeDirectory second target) := by
  rw [changeDirectory.eq_def, changeDirectory.eq_def]
  rcases rel_cases h.fileSystem with ⟨hnone, hnone'⟩ | ⟨fs, twin, hsome, hsome', hfs⟩
  · rw [hnone, hnone']
    have hstub : cdStub first target = cdStub second target := by
      rw [cdStub.eq_def, cdStub.eq_def, h.home_eq]
    exact .ok ⟨hstub, h⟩
  · have hmoved (path : String) := h.withCursor path
    rw [hsome, hsome'] at hmoved ⊢
    simp only [h.resolve_eq, hR.isDirectory_eq hfs, hR.exists?_eq hfs]
    split_ifs
    · exact .ok ⟨rfl, hmoved _⟩
    · exact .error _
    · exact .error _

theorem matched_cd (args : List String) : Matched (Same R) (cd first args) (cd second args) := by
  rw [cd.eq_def, cd.eq_def]
  split
  · exact matched_changeDirectory hR h none
  · exact matched_changeDirectory hR h (some _)
  · exact .error _

omit hR h in
/-- Operands that are treated one after the other lead to related file systems and the same
outcome if each of them does. -/
theorem same_forEach {attempt retry : FileSystem → String → Except Outcome FileSystem}
    (hattempt : ∀ fs twin operand, R fs twin → Matched R (attempt fs operand) (retry twin operand))
    {fs twin : FileSystem} (hfs : R fs twin) (operands : List String) :
    R (forEach attempt fs operands).1 (forEach retry twin operands).1 ∧
      (forEach attempt fs operands).2 = (forEach retry twin operands).2 := by
  induction operands generalizing fs twin with
  | nil => exact ⟨hfs, rfl⟩
  | cons operand operands ih =>
    have hfirst := hattempt fs twin operand hfs
    rw [forEach, forEach]
    generalize attempt fs operand = result at hfirst ⊢
    generalize retry twin operand = other at hfirst ⊢
    cases hfirst with
    | ok hafter => exact ih hafter
    | error complaint =>
      obtain ⟨hlast, houtcome⟩ := ih hfs
      exact ⟨hlast, by simp only [houtcome]⟩

theorem matched_makeDirectory {fs twin : FileSystem} (hfs : R fs twin) (operand : String) :
    Matched R (makeDirectory first fs operand) (makeDirectory second twin operand) := by
  rw [makeDirectory, makeDirectory, h.resolve_eq]
  exact (hR.run hfs (.directory (second.resolve operand))).mapError _

theorem matched_makeEmptyFile {fs twin : FileSystem} (hfs : R fs twin) (operand : String) :
    Matched R (makeEmptyFile first fs operand) (makeEmptyFile second twin operand) := by
  have hrun := hR.run hfs (.file (second.resolve operand) "")
  rw [FileSystem.Creation.run, FileSystem.Creation.run] at hrun
  rw [makeEmptyFile, makeEmptyFile, h.resolve_eq]
  generalize fs.makeFile (second.resolve operand) "" = result at hrun ⊢
  generalize twin.makeFile (second.resolve operand) "" = other at hrun ⊢
  cases hrun with
  | ok hafter => exact .ok hafter
  | error failure =>
    simp only
    split_ifs
    · exact .ok hfs
    · exact .error _

omit hR in
theorem matched_makeAll {name missing would : String}
    {attempt retry : FileSystem → String → Except Outcome FileSystem}
    (hattempt : ∀ fs twin operand, R fs twin → Matched R (attempt fs operand) (retry twin operand))
    (args : List String) :
    Matched (Same R) (makeAll first name missing would attempt args)
      (makeAll second name missing would retry args) := by
  rw [makeAll, makeAll]
  split_ifs
  · exact .error _
  · rcases rel_cases h.fileSystem with ⟨hnone, hnone'⟩ | ⟨fs, twin, hsome, hsome', hfs⟩
    · rw [hnone, hnone']
      exact .ok ⟨rfl, h⟩
    · rw [hsome, hsome']
      obtain ⟨hlast, houtcome⟩ := same_forEach hattempt hfs args
      exact .ok ⟨houtcome, h.withFileSystem hlast⟩

theorem matched_copy (source target : String) :
    Matched (Same R) (copy first source target) (copy second source target) := by
  rw [copy, copy]
  rcases rel_cases h.fileSystem with ⟨hnone, hnone'⟩ | ⟨fs, twin, hsome, hsome', hfs⟩
  · rw [hnone, hnone']
    exact .ok ⟨rfl, h⟩
  · rw [hsome, hsome']
    -- whether the copy goes into a directory is seen alike
    have htarget : copyTarget fs = copyTarget twin := by
      funext source target
      rw [copyTarget, copyTarget, hR.isDirectory_eq hfs]
    simp only [h.resolve_eq, htarget]
    have hrun := hR.run hfs (.copy (second.resolve source)
      (copyTarget twin (second.resolve source) (second.resolve target)))
    rw [FileSystem.Creation.run, FileSystem.Creation.run] at hrun
    generalize fs.copyFile _ _ = result at hrun ⊢
    generalize twin.copyFile _ _ = other at hrun ⊢
    cases hrun with
    | ok hafter => exact .ok ⟨rfl, h.withFileSystem hafter⟩
    | error failure => exact .error _

theorem matched_cp (args : List String) : Matched (Same R) (cp first args) (cp second args) := by
  rw [cp.eq_def, cp.eq_def]
  split
  · exact .error _
  · exact .error _
  · exact matched_copy hR h _ _
  · exact .error _

end Command

/-! ## Lines -/

section Lines

variable (hR : FileSystem.Bisimulation R) (h : first.Alike R second)
include hR h

/-- A command does the same to sessions that agree. -/
theorem Builtin.matched_perform (builtin : Builtin) (args : List String) :
    Matched (Turn.Alike R (first.config = second.config)) (builtin.perform first args)
      (builtin.perform second args) := by
  have hshows {outcome other : Outcome} (hsame : outcome = other) :
      Turn.Alike R (first.config = second.config) { reply := .done outcome, session := first }
        { reply := .done other, session := second } :=
    Turn.alike_of_reply_eq h (by rw [hsame])
  have hchanges {result other : Except CommandFailure (Outcome × Session)}
      (hmatched : Matched (Command.Same R) result other) :
      Matched (Turn.Alike R (first.config = second.config))
        (result.map fun pair => { reply := .done pair.1, session := pair.2 })
        (other.map fun pair => { reply := .done pair.1, session := pair.2 }) :=
    hmatched.map fun _ _ hsame => Turn.alike_of_reply_eq hsame.2 (by rw [hsame.1])
  cases builtin with
  | ls => exact .ok (hshows (Command.ls_eq hR h args))
  | cd => exact hchanges (Command.matched_cd hR h args)
  | echo => exact .ok (hshows rfl)
  | cat =>
    rw [perform, perform, Command.cat_eq hR h args]
    cases Command.cat second args with
    | ok outcome => exact .ok (hshows rfl)
    | error failure => exact .error failure
  | pwd => exact .ok (hshows (Command.pwd_eq h))
  | mkdir =>
    exact hchanges (Command.matched_makeAll h
      (fun _ _ operand hfs => Command.matched_makeDirectory hR h hfs operand) args)
  | touch =>
    exact hchanges (Command.matched_makeAll h
      (fun _ _ operand hfs => Command.matched_makeEmptyFile hR h hfs operand) args)
  | cp => exact hchanges (Command.matched_cp hR h args)
  | confDump =>
    -- the report is all that may tell the sessions apart
    refine .ok ⟨h, rfl, rfl, ?_⟩
    intro hconfig
    rw [Command.confDump_eq hR h hconfig]
  | exit => exact .ok (Turn.alike_of_reply_eq h rfl)

theorem Session.Alike.call (name : String) (args : List String) :
    (first.call name args).Alike R (first.config = second.config) (second.call name args) := by
  rw [Session.call, Session.call]
  cases Builtin.ofName name with
  | error failure => exact Turn.alike_of_reply_eq h rfl
  | ok builtin =>
    have hperform := Builtin.matched_perform hR h builtin args
    simp only
    rw [Builtin.dispatch, Builtin.dispatch]
    generalize builtin.perform first args = result at hperform ⊢
    generalize builtin.perform second args = other at hperform ⊢
    cases hperform with
    | ok hturn => exact hturn
    | error failure => exact Turn.alike_of_reply_eq h rfl

theorem Session.Alike.ensureCursor : first.ensureCursor.Alike R second.ensureCursor := by
  rw [Session.ensureCursor, Session.ensureCursor]
  rcases rel_cases h.fileSystem with ⟨hnone, hnone'⟩ | ⟨fs, twin, hsome, hsome', hfs⟩
  · rw [hnone, hnone']
    exact h
  · rw [hsome, hsome']
    simp only [hR.isDirectory_eq hfs, h.cursor_eq]
    split_ifs
    · exact h
    · have hroot := h.withCursor "/"
      rwa [hsome, hsome'] at hroot

/-- A line does the same to sessions that agree. -/
theorem Session.Alike.execute (line : String) :
    (first.execute line).Alike R (first.config = second.config) (second.execute line) := by
  rw [Session.execute, Session.execute, h.env_eq]
  cases Words.ofLine second.config.env line with
  | nil => exact Turn.alike_of_reply_eq h rfl
  | cons name args =>
    have hcall := h.call hR name args
    simp only
    generalize first.call name args = turn at hcall ⊢
    generalize second.call name args = twin at hcall ⊢
    obtain ⟨reply, session⟩ := turn
    obtain ⟨answer, other⟩ := twin
    obtain ⟨hsession, hstatus, hexit, hreply⟩ := hcall
    cases reply with
    | exit request =>
      obtain ⟨demand, rfl, -⟩ := Reply.exists_eq_exit hexit.symm
      exact ⟨hsession, hstatus, hexit, hreply⟩
    | done outcome =>
      obtain ⟨result, rfl⟩ := Reply.exists_eq_done hexit.symm
      refine ⟨?_, hstatus, hexit, hreply⟩
      have hequal : outcome.status = result.status := hstatus
      simp only [hequal]
      exact (hsession.withStatus result.status).ensureCursor hR

end Lines

/-! ## Runs -/

/-- The replies to a list of lines, one after the other. -/
def Session.replies (session : Session) : List String → List Reply
  | [] => []
  | line :: lines =>
    let turn := session.execute line
    turn.reply :: turn.session.replies lines

theorem Session.ensureCursor_config (session : Session) :
    session.ensureCursor.config = session.config := by
  rcases session.ensureCursor_cases with hkept | hreset
  · rw [hkept]
  · rw [hreset]

/-- No line changes the settings. -/
theorem Session.invariant_config (config : Config) :
    Session.Invariant fun session => session.config = config where
  change := by
    rintro session changed hconfig hchange
    cases hchange with
    | same | moved | grown => exact hconfig
  settle _ hconfig := (ensureCursor_config _).trans hconfig

/-- Two sessions that differ at most in the order of children. -/
structure Session.SameUpToOrder (first second : Session) : Prop where
  config_eq : first.config = second.config
  cursor_eq : first.cursor = second.cursor
  lastStatus_eq : first.lastStatus = second.lastStatus
  /-- No file system is loaded, or two that are one up to the order of children. -/
  fileSystem : Option.Rel FileSystem.Reordered first.fileSystem second.fileSystem

theorem Session.SameUpToOrder.alike (h : first.SameUpToOrder second) :
    first.Alike FileSystem.Reordered second where
  env_eq := by rw [h.config_eq]
  home_eq := by rw [h.config_eq]
  cwd_eq := by rw [h.config_eq]
  cursor_eq := h.cursor_eq
  lastStatus_eq := h.lastStatus_eq
  fileSystem := h.fileSystem

/-- A line gives one reply to both sessions and leaves them the same up to order. -/
theorem Session.SameUpToOrder.execute (h : first.SameUpToOrder second) (line : String) :
    (first.execute line).reply = (second.execute line).reply ∧
      (first.execute line).session.SameUpToOrder (second.execute line).session := by
  have hturn := h.alike.execute FileSystem.bisimulation_reordered line
  -- to be alike is weaker than to have the same settings, which a line does not change either
  have hsettings : (first.execute line).session.config = (second.execute line).session.config := by
    rw [(invariant_config second.config).execute h.config_eq line,
      (invariant_config second.config).execute rfl line]
  exact ⟨hturn.reply_eq h.config_eq, hsettings, hturn.session.cursor_eq,
    hturn.session.lastStatus_eq, hturn.session.fileSystem⟩

/-- The order in which children are kept cannot be observed: whatever lines are executed, sessions
that differ in nothing else reply the same, line by line, and differ in nothing else afterwards. -/
theorem Session.child_order_is_unobservable (h : first.SameUpToOrder second)
    (lines : List String) :
    first.replies lines = second.replies lines ∧
      (first.run lines).SameUpToOrder (second.run lines) := by
  induction lines generalizing first second with
  | nil => exact ⟨rfl, h⟩
  | cons line lines ih =>
    obtain ⟨hreply, hsession⟩ := h.execute line
    obtain ⟨hreplies, hlast⟩ := ih hsession
    refine ⟨?_, hlast⟩
    rw [Session.replies, Session.replies, hreply, hreplies]

/-- Two trees that keep their children in different orders, above and below, are listed alike after
a directory is added below. -/
theorem Session.order_of_nested_children_is_unobservable :
    let inner : List (String × Node) := [("x", .file "1"), ("y", .file "2")]
    let tree : Node := .directory [("a", .directory inner), ("b", .file "3")]
    let twin : Node := .directory [("b", .file "3"), ("a", .directory inner.reverse)]
    let config : Config := { username := "", hostname := "", cwd := "/", home := "/" }
    let first : Session := { config, fileSystem := some { root := tree } }
    let second : Session := { config, fileSystem := some { root := twin } }
    let lines := ["mkdir a/z", "ls", "ls a"]
    tree ≠ twin ∧ first.SameUpToOrder second ∧ first.replies lines = second.replies lines ∧
      (first.run lines).SameUpToOrder (second.run lines) := by
  intro inner tree twin config first second lines
  have hnamed : Node.Named (fun _ => True) (.directory inner) := by
    refine .directory (by decide) (fun _ _ => trivial) ?_
    intro child hchild
    simp only [inner, List.mem_cons, List.not_mem_nil, or_false] at hchild
    rcases hchild with rfl | rfl
    · exact .file "1"
    · exact .file "2"
  have hinner : Node.Reordered (.directory inner) (.directory inner.reverse) :=
    hnamed.reordered_of_perm (List.reverse_perm inner).symm
  have htree : tree.Reordered twin := by
    refine .directory (by decide) (by decide) ?_
    intro name child other hchild hother
    simp only [List.mem_cons, Prod.mk.injEq, List.not_mem_nil, or_false] at hchild hother
    rcases hchild with ⟨rfl, rfl⟩ | ⟨rfl, rfl⟩ <;> rcases hother with ⟨hname, rfl⟩ | ⟨hname, rfl⟩
    · exact absurd hname (by decide)
    · exact hinner
    · exact .file "3"
    · exact absurd hname (by decide)
  have hsame : first.SameUpToOrder second := ⟨rfl, rfl, rfl, .some ⟨htree, rfl⟩⟩
  exact ⟨by simp [tree, twin], hsame, child_order_is_unobservable hsame lines⟩

end TreeShell
