import TreeShell.Proofs.Cursor
import TreeShell.Proofs.Diagnostics
import TreeShell.Proofs.Listing
import TreeShell.Proofs.LoadedTree
import TreeShell.Proofs.Simulation

/-!
# Names that are listed and names that are accepted

A listing of the cursor shows a name as a directory just when `cd` accepts the name, and as a file
just when `cat` does. All three look at one place of the tree: the name leads from the cursor to the
path that is one name longer, and what stands there is the child that the listing shows, because
siblings have distinct names. Called by a line, the commands see the name as it is if the line
leaves it alone.
-/

namespace TreeShell

/-! ## Kinds -/

/-- The kind of what is seen. -/
def Surface.kind : Surface → Kind
  | .file _ => .file
  | .directory => .directory

theorem Surface.map_kind_eq_directory_iff {shown : Option Surface} :
    shown.map kind = some .directory ↔ shown = some .directory := by
  rcases shown with _ | ⟨content⟩ | _ <;> simp [kind]

theorem Surface.map_kind_eq_file_iff {shown : Option Surface} :
    shown.map kind = some .file ↔ ∃ content, shown = some (.file content) := by
  rcases shown with _ | ⟨content⟩ | _ <;> simp [kind]

namespace Node

theorem kind_surface (node : Node) : node.surface.kind = node.kind := by
  cases node with
  | file | directory => rfl

end Node

namespace FileSystem

/-- A directory of a well-formed tree is listed with the names that lead on from it. -/
theorem exists_list_eq_ok {fs : FileSystem} (h : fs.root.WellFormed) {path : String}
    (hpath : fs.isDirectory path = true) :
    ∃ entries, fs.list path = .ok entries ∧
      ∀ kind name, ⟨kind, name⟩ ∈ entries ↔
        (fs.view (Path.segments path ++ [name])).map Surface.kind = some kind := by
  obtain ⟨children, hwalk⟩ := Node.view_eq_directory_iff.mp (isDirectory_iff.mp hpath)
  refine ⟨Node.listing children, list_of_walk? hwalk, ?_⟩
  intro kind name
  -- what is seen one name further is the child that the name is looked up to
  have hlookup : fs.root.walk? (Path.segments path ++ [name]) = children.lookup name := by
    rw [← children?_bind_lookup, children?_eq_some_iff.mpr hwalk, Option.bind_some]
  rw [(h.named.walk? hwalk).mem_listing_iff, view, Node.view, hlookup, Option.map_map]
  have hkind : Surface.kind ∘ Node.surface = Node.kind := funext Node.kind_surface
  rw [hkind]

end FileSystem

namespace Session

open FileSystem

variable {session : Session} {fs : FileSystem} {name : String}

/-! ## Commands called with a name -/

theorem cd_of_not_isDirectory {target : String} (hfs : session.fileSystem = some fs)
    (hdirectory : fs.isDirectory (session.resolve target) = false) :
    ∃ failure, Command.cd session [target] = .error failure := by
  rw [cd_singleton hfs, hdirectory, if_neg Bool.false_ne_true]
  exact ⟨_, rfl⟩

section Names

variable (h : session.Placed) (hfs : session.fileSystem = some fs) (hname : Path.IsName name)
include h hfs hname

/-- `cd` goes on to a name just when a directory stands there. -/
theorem cd_name_cases :
    let shown := fs.view (Path.segments session.cursor ++ [name])
    shown = some .directory ∧ Command.cd session [name] =
        .ok ({}, { session with cursor := Path.join session.cursor name }) ∨
      shown ≠ some .directory ∧ ∃ failure, Command.cd session [name] = .error failure := by
  intro shown
  have hsegments : Path.segments (session.resolve name) = Path.segments session.cursor ++ [name] :=
    Path.segments_resolve_of_isName h.isCanonical hname
  have hdirectory : fs.isDirectory (session.resolve name) = true ↔ shown = some .directory := by
    rw [isDirectory_iff, hsegments]
  by_cases hshown : shown = some .directory
  · refine Or.inl ⟨hshown, ?_⟩
    rw [cd_of_isDirectory hfs (hdirectory.mpr hshown), resolve,
      Path.resolve_of_isName h.isCanonical hname]
  · have hnot : fs.isDirectory (session.resolve name) = false := by
      rw [← Bool.not_eq_true, hdirectory]
      exact hshown
    exact Or.inr ⟨hshown, cd_of_not_isDirectory hfs hnot⟩

/-- `cat` shows what a name holds just when a file stands there. -/
theorem cat_name_cases :
    let shown := fs.view (Path.segments session.cursor ++ [name])
    (∃ content, shown = some (.file content) ∧
        Command.cat session [name] = .ok { stdout := content }) ∨
      (∀ content, shown ≠ some (.file content)) ∧
        ∃ complaint, Command.cat session [name] = .ok complaint ∧ complaint.status = 1 := by
  intro shown
  have hsegments : Path.segments (session.resolve name) = Path.segments session.cursor ++ [name] :=
    Path.segments_resolve_of_isName h.isCanonical hname
  have hread (content : String) :
      fs.read (session.resolve name) = .ok content ↔ shown = some (.file content) := by
    rw [read_eq_ok_iff, hsegments]
  rw [Command.cat_singleton hfs, Command.catOperand]
  cases hresult : fs.read (session.resolve name) with
  | ok content => exact Or.inl ⟨content, (hread content).mp hresult, rfl⟩
  | error failure =>
    refine Or.inr ⟨?_, _, rfl, rfl⟩
    intro content hshown
    rw [(hread content).mpr hshown] at hresult
    exact absurd hresult (by simp)

end Names

theorem ls_nil (h : session.Placed) (hfs : session.fileSystem = some fs) {entries : List Entry}
    (hlist : fs.list session.cursor = .ok entries) :
    Command.ls session [] = { stdout := String.join (entries.map Command.entryLine) } := by
  rw [Command.ls, hfs]
  simp only
  rw [Command.listOperand, resolve, Path.resolve_dot h.isCanonical, hlist]
  simp only
  rw [String.empty_append]

theorem words_of_isPlain (hplain : Words.IsPlain name) (env : Environment) :
    Words.ofLine env ("cd " ++ name) = ["cd", name] ∧
      Words.ofLine env ("cat " ++ name) = ["cat", name] := by
  have hcd : Words.IsPlain "cd" := by decide
  have hcat : Words.IsPlain "cat" := by decide
  exact ⟨hcd.ofLine_pair hplain, hcat.ofLine_pair hplain⟩

/-- Wherever lines lead from a tree that was loaded, the listing of the cursor tells what `cd` and
`cat` do with a name. Either it shows a directory of that name, and `cd` goes there, or `cd` fails;
and either it shows a file of that name, and `cat` shows the content of the file, or `cat` fails.
A line that calls one of them with the name does the same if the name holds no white space, no quote
and no dollar sign. -/
theorem listing_tells_what_is_accepted {loaded : FileSystem} (hloaded : Document.Loaded loaded)
    (config : Config) (lines : List String) {name : String} (hname : Path.IsName name) :
    let session := run { config, fileSystem := some loaded } lines
    let moved := { session with cursor := Path.join session.cursor name }
    let cd := Command.cd session [name]
    let cat := Command.cat session [name]
    let cdLine := session.execute ("cd " ++ name)
    let catLine := session.execute ("cat " ++ name)
    ∃ fs entries, session.fileSystem = some fs ∧ fs.list session.cursor = .ok entries ∧
      Command.ls session [] = { stdout := String.join (entries.map Command.entryLine) } ∧
      (⟨.directory, name⟩ ∈ entries ∧ cd = .ok ({}, moved) ∧
          (Words.IsPlain name →
            cdLine = { reply := .done {}, session := { moved with lastStatus := 0 } }) ∨
        ⟨.directory, name⟩ ∉ entries ∧ ∃ failure, cd = .error failure ∧
          (Words.IsPlain name → cdLine.reply = .done failure.outcome ∧ failure.status ≠ 0)) ∧
      ((∃ content, ⟨.file, name⟩ ∈ entries ∧
          fs.view (Path.segments session.cursor ++ [name]) = some (.file content) ∧
          cat = .ok { stdout := content } ∧
          (Words.IsPlain name → catLine.reply = .done { stdout := content })) ∨
        ⟨.file, name⟩ ∉ entries ∧ ∃ complaint, cat = .ok complaint ∧ complaint.status = 1 ∧
          (Words.IsPlain name → catLine.reply = .done complaint)) := by
  intro session moved cd cat cdLine catLine
  have hplaced : session.Placed := invariant_placed.run (placed_fresh config (some loaded)) lines
  have hwellFormed : session.WellFormed := by
    refine invariant_wellFormed.run ?_ lines
    intro other hother
    rw [← Option.some.inj hother]
    exact hloaded.wellFormed
  have hstart : Session.fileSystem { config, fileSystem := some loaded } = some loaded := rfl
  obtain ⟨fs, hfs, -⟩ := growth_run hstart lines
  obtain ⟨entries, hlist, hentries⟩ :=
    exists_list_eq_ok (hwellFormed fs hfs) (hplaced.isDirectory fs hfs)
  refine ⟨fs, entries, hfs, hlist, ls_nil hplaced hfs hlist, ?_, ?_⟩
  · rw [hentries, Surface.map_kind_eq_directory_iff]
    rcases cd_name_cases hplaced hfs hname with ⟨hshown, hcd⟩ | ⟨hshown, failure, hcd⟩
    · refine Or.inl ⟨hshown, hcd, ?_⟩
      intro hplain
      exact hplaced.execute_cd (words_of_isPlain hplain _).1 hcd
    · refine Or.inr ⟨hshown, failure, hcd, ?_⟩
      intro hplain
      have hperform : Builtin.perform .cd session [name] = .error failure :=
        map_eq_error_iff.mpr hcd
      have hreply : cdLine.reply = (Builtin.dispatch .cd session [name]).reply :=
        reply_execute_builtin (words_of_isPlain hplain _).1
      rw [Builtin.dispatch_of_error hperform] at hreply
      exact ⟨hreply, failure.status_ne_zero⟩
  · -- what the line replies is what the command says
    have hline (outcome : Outcome) (hcat : cat = .ok outcome) (hplain : Words.IsPlain name) :
        catLine.reply = .done outcome := by
      have hperform : Builtin.perform .cat session [name] =
          .ok { reply := .done outcome, session } := map_eq_ok_iff.mpr ⟨outcome, hcat, rfl⟩
      have hreply : catLine.reply = (Builtin.dispatch .cat session [name]).reply :=
        reply_execute_builtin (words_of_isPlain hplain _).2
      rwa [Builtin.dispatch_of_ok hperform] at hreply
    rw [hentries, Surface.map_kind_eq_file_iff]
    rcases cat_name_cases hplaced hfs hname with ⟨content, hshown, hcat⟩ |
      ⟨hshown, complaint, hcat, hstatus⟩
    · exact Or.inl ⟨content, ⟨content, hshown⟩, hshown, hcat, hline _ hcat⟩
    · refine Or.inr ⟨?_, complaint, hcat, hstatus, hline _ hcat⟩
      rintro ⟨content, hfile⟩
      exact hshown content hfile

/-- Below the root a directory is listed and accepted, in a tree that was empty at first. -/
theorem directory_below_cursor_is_listed_and_accepted :
    let config : Config := { username := "", hostname := "", cwd := "/", home := "/" }
    let session := run { config, fileSystem := some .empty } ["mkdir a a/b", "cd a"]
    let moved := { session with cursor := Path.join session.cursor "b" }
    Document.Loaded .empty ∧ Path.IsName "b" ∧ Words.IsPlain "b" ∧
      ∃ fs entries, session.fileSystem = some fs ∧ fs.list session.cursor = .ok entries ∧
        ⟨.directory, "b"⟩ ∈ entries ∧
        session.execute "cd b" =
          { reply := .done {}, session := { moved with lastStatus := 0 } } := by
  intro config session moved
  have hloaded : Document.Loaded .empty := .empty none
  have hname : Path.IsName "b" := ⟨by decide, by decide, by decide, by decide⟩
  have hplain : Words.IsPlain "b" := by decide
  have hline : "cd " ++ "b" = "cd b" := by decide
  have hreply : (session.execute "cd b").reply.status = 0 := by decide +kernel +revert
  obtain ⟨fs, entries, hfs, hlist, -, hcd, -⟩ :=
    listing_tells_what_is_accepted hloaded config ["mkdir a a/b", "cd a"] hname
  rw [hline] at hcd
  refine ⟨hloaded, hname, hplain, fs, entries, hfs, hlist, ?_⟩
  rcases hcd with ⟨hlisted, -, hturn⟩ | ⟨-, failure, -, hturn⟩
  · exact ⟨hlisted, hturn hplain⟩
  · obtain ⟨hfailed, hstatus⟩ := hturn hplain
    rw [hfailed] at hreply
    exact absurd hreply hstatus

end Session

end TreeShell
