import TreeShell.Proofs.Expansion
import TreeShell.Proofs.Runs

/-!
# The cursor

The cursor of a session is a canonical path, and it names a directory of the tree of that moment.
Every command keeps this, so that the cursor never has to be put back to the root; and from every
place that a session can come to, `cd` succeeds on a target that only stays or steps back.
-/

namespace TreeShell.Session

open FileSystem

/-- The cursor names a directory, if there is a tree. -/
def Anchored (session : Session) : Prop :=
  ∀ fs, session.fileSystem = some fs → fs.isDirectory session.cursor = true

/-- A cursor that names a directory is left there. -/
theorem Anchored.ensureCursor_eq {session : Session} (h : session.Anchored) :
    session.ensureCursor = session := by
  unfold ensureCursor
  split
  · next fs hfs => rw [if_pos (h fs hfs)]
  · rfl

theorem Anchored.change {session changed : Session} (h : session.Anchored)
    (hchange : session.Change changed) : changed.Anchored := by
  intro other hother
  cases hchange with
  | same => exact h other hother
  | moved hfs hpath hdirectory =>
    rw [hfs] at hother
    rwa [← Option.some.inj hother]
  | grown hfs hgrowth =>
    rw [← Option.some.inj hother]
    exact hgrowth.isDirectory (h _ hfs)

theorem Anchored.withStatus {session : Session} (h : session.Anchored) (status : Int) :
    Anchored { session with lastStatus := status } := h

/-- At the end of a line such a cursor need not be put back. -/
theorem Anchored.session_execute_of_done {session : Session} (h : session.Anchored)
    {line name : String} {args : List String} {outcome : Outcome}
    (hwords : Words.ofLine session.config.env line = name :: args)
    (hreply : (session.call name args).reply = .done outcome) :
    (session.execute line).session =
      { (session.call name args).session with lastStatus := outcome.status } := by
  have hsettled := (h.change (session.change_call name args)).withStatus outcome.status
  rw [Session.session_execute_of_done hwords hreply, hsettled.ensureCursor_eq]

theorem Anchored.execute_of_done {session changed : Session} (h : session.Anchored)
    {line name : String} {args : List String} {outcome : Outcome}
    (hwords : Words.ofLine session.config.env line = name :: args)
    (hcall : session.call name args = { reply := .done outcome, session := changed }) :
    session.execute line =
      { reply := .done outcome, session := { changed with lastStatus := outcome.status } } := by
  have hreply : (session.call name args).reply = .done outcome := by rw [hcall]
  have hsession := h.session_execute_of_done hwords hreply
  rw [← reply_execute hwords] at hreply
  rw [hcall] at hsession
  calc session.execute line = ⟨(session.execute line).reply, (session.execute line).session⟩ := rfl
    _ = ⟨.done outcome, { changed with lastStatus := outcome.status }⟩ := by
        rw [hreply, hsession]

/-- The cursor is where it should be. -/
structure Placed (session : Session) : Prop where
  /-- The cursor is a canonical path. -/
  isCanonical : Path.IsCanonical session.cursor
  /-- The cursor names a directory of the tree. -/
  isDirectory : ∀ fs, session.fileSystem = some fs → fs.isDirectory session.cursor = true
  /-- Without a tree the cursor is the root. -/
  eq_root : session.fileSystem = none → session.cursor = "/"

theorem isDirectory_root (fs : FileSystem) : fs.isDirectory "/" = true := by
  have hsegments : Path.segments "/" = [] := by decide
  rw [isDirectory_iff, hsegments, view_nil]

theorem placed_fresh (config : Config) (fileSystem : Option FileSystem) :
    Placed { config, fileSystem } where
  isCanonical := Path.isCanonical_root
  isDirectory fs _ := isDirectory_root fs
  eq_root _ := rfl

theorem Placed.anchored {session : Session} (h : session.Placed) : session.Anchored :=
  h.isDirectory

theorem Placed.ensureCursor_eq {session : Session} (h : session.Placed) :
    session.ensureCursor = session :=
  h.anchored.ensureCursor_eq

/-- The status of the last line has no part in this. -/
theorem Placed.withStatus {session : Session} (h : session.Placed) (status : Int) :
    Placed { session with lastStatus := status } :=
  ⟨h.isCanonical, h.isDirectory, h.eq_root⟩

theorem Placed.change {session changed : Session} (h : session.Placed)
    (hchange : session.Change changed) : changed.Placed := by
  have hanchored := h.anchored.change hchange
  cases hchange with
  | same => exact h
  | moved hfs hpath hdirectory =>
    refine ⟨hpath, hanchored, ?_⟩
    intro hnone
    rw [hfs] at hnone
    exact absurd hnone (by simp)
  | grown hfs hgrowth =>
    refine ⟨h.isCanonical, hanchored, ?_⟩
    intro hnone
    exact absurd hnone (by simp)

/-- The cursor stays in its place, line after line. -/
theorem invariant_placed : Invariant Placed where
  change := Placed.change
  settle := by
    intro session status h
    rw [(h.withStatus status).ensureCursor_eq]
    exact h.withStatus status

theorem Change.fileSystem_eq_none {session changed : Session} (h : session.Change changed)
    (hnone : session.fileSystem = none) : changed.fileSystem = none := by
  cases h with
  | same => exact hnone
  | moved => exact hnone
  | grown hfs => exact absurd (hnone.symm.trans hfs) (by simp)

/-- A session without a tree never gets one. -/
theorem invariant_fileSystem_eq_none : Invariant fun session => session.fileSystem = none where
  change hnone hchange := hchange.fileSystem_eq_none hnone
  settle _ hnone := (ensureCursor_fileSystem _).trans hnone

/-! ## Moving the cursor -/

/-- The directories on the way to the cursor are there. -/
theorem Placed.view_eq_directory {session : Session} (h : session.Placed) {fs : FileSystem}
    (hfs : session.fileSystem = some fs) {names : List String}
    (hnames : names <+: Path.segments session.cursor) : fs.view names = some .directory := by
  have hcursor := isDirectory_iff.mp (h.isDirectory fs hfs)
  obtain ⟨back, hback⟩ := hnames
  rw [← hback] at hcursor
  by_cases hnil : back = []
  · rwa [hnil, List.append_nil] at hcursor
  · exact Node.view_eq_directory_of_append hcursor hnil

theorem cd_singleton {session : Session} {fs : FileSystem} (hfs : session.fileSystem = some fs)
    (target : String) :
    let path := session.resolve target
    let reason := if fs.exists? path then "Not a directory" else "No such file or directory"
    Command.cd session [target] =
      if fs.isDirectory path then .ok ({}, { session with cursor := path })
      else .error (.execution "cd" (target ++ ": " ++ reason)) := by
  obtain ⟨config, loaded, cursor, lastStatus⟩ := session
  obtain rfl : loaded = some fs := hfs
  rfl

theorem cd_of_isDirectory {session : Session} {fs : FileSystem} {target : String}
    (hfs : session.fileSystem = some fs)
    (hdirectory : fs.isDirectory (session.resolve target) = true) :
    Command.cd session [target] =
      .ok ({}, { session with cursor := session.resolve target }) := by
  rw [cd_singleton hfs, if_pos hdirectory]

/-- From its place the cursor can stay or step back. -/
theorem Placed.cd_of_parts {session : Session} (h : session.Placed) {fs : FileSystem}
    (hfs : session.fileSystem = some fs) {target : String}
    (htarget : ∀ part ∈ Path.parts target, part = "" ∨ part = "." ∨ part = "..") :
    Command.cd session [target] =
      .ok ({}, { session with cursor := session.resolve target }) := by
  have hprefix := Path.segments_resolve_prefix h.isCanonical htarget
  exact cd_of_isDirectory hfs (isDirectory_iff.mpr (h.view_eq_directory hfs hprefix))

/-- A line that calls `cd` leaves the session that `cd` leaves, with the status of success. -/
theorem Placed.execute_cd {session changed : Session} (h : session.Placed) {line target : String}
    (hwords : Words.ofLine session.config.env line = ["cd", target])
    (hcd : Command.cd session [target] = .ok ({}, changed)) :
    session.execute line =
      { reply := .done {}, session := { changed with lastStatus := 0 } } := by
  refine h.anchored.execute_of_done hwords ?_
  have hperform : Builtin.perform .cd session [target] =
      .ok { reply := .done {}, session := changed } := map_eq_ok_iff.mpr ⟨_, hcd, rfl⟩
  rw [← Builtin.dispatch_of_ok hperform]
  exact session.call_name .cd [target]

theorem words_cd_parent (env : Environment) : Words.ofLine env "cd .." = ["cd", ".."] := by
  have hwritten : Words.written "cd ..".toList = ["cd".toList, "..".toList] := by decide
  rw [Words.ofLine, hwritten, List.map_cons, List.map_cons, List.map_nil,
    Expansion.expand_of_not_mem (by decide), Expansion.expand_of_not_mem (by decide)]
  rfl

/-- Wherever a run of lines leads, the cursor is a canonical path to a directory whose ancestors are
there too, so that putting the cursor back never changes anything, neither between two lines nor
within one. Without a tree the cursor stays at the root. With a tree `cd` succeeds on every target
that only stays or steps back, and `cd ..` drops the last name of the cursor. -/
theorem cursor_names_directory (config : Config) (fileSystem : Option FileSystem)
    (lines : List String) :
    let session := Session.run { config, fileSystem } lines
    Path.normalize session.cursor = session.cursor ∧
    (fileSystem = none → session.cursor = "/") ∧
    session.ensureCursor = session ∧
    (∀ name args status,
      let changed := { (session.call name args).session with lastStatus := status }
      changed.ensureCursor = changed) ∧
    ∀ fs, session.fileSystem = some fs →
      fs.isDirectory session.cursor = true ∧
      (∀ names, names <+: Path.segments session.cursor → fs.view names = some .directory) ∧
      (∀ target, (∀ part ∈ Path.parts target, part = "" ∨ part = "." ∨ part = "..") →
        Command.cd session [target] =
          .ok ({}, { session with cursor := session.resolve target }) ∧
        ∀ line, Words.ofLine session.config.env line = ["cd", target] →
          session.execute line =
            { reply := .done {}
              session := { session with cursor := session.resolve target, lastStatus := 0 } }) ∧
      session.execute "cd .." =
        { reply := .done {}
          session :=
            { session with
              cursor := Path.render (Path.segments session.cursor).dropLast
              lastStatus := 0 } } := by
  intro session
  have hplaced : session.Placed := invariant_placed.run (placed_fresh config fileSystem) lines
  refine ⟨Path.normalize_of_isCanonical hplaced.isCanonical, ?_, hplaced.ensureCursor_eq, ?_, ?_⟩
  · intro hnone
    exact hplaced.eq_root (invariant_fileSystem_eq_none.run hnone lines)
  · intro name args status
    exact ((hplaced.change (session.change_call name args)).withStatus status).ensureCursor_eq
  · intro fs hfs
    refine ⟨hplaced.isDirectory fs hfs, fun _ => hplaced.view_eq_directory hfs, ?_, ?_⟩
    · intro target htarget
      have hcd := hplaced.cd_of_parts hfs htarget
      exact ⟨hcd, fun line hwords => hplaced.execute_cd hwords hcd⟩
    · have hparent : ∀ part ∈ Path.parts "..", part = "" ∨ part = "." ∨ part = ".." := by decide
      have hcd := hplaced.cd_of_parts hfs hparent
      have hcursor : session.resolve ".." = Path.render (Path.segments session.cursor).dropLast :=
        Path.resolve_parent hplaced.isCanonical
      rw [hplaced.execute_cd (words_cd_parent session.config.env) hcd, hcursor]

end TreeShell.Session
