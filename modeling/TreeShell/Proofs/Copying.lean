import TreeShell.Proofs.Diagnostics
import TreeShell.Proofs.Resolution

/-!
# Copying one file

A copy goes to the place that its second operand names, or below it, under the last name of the
first, if a directory is there. Whether `cp` succeeds depends on what is seen at three places: a file
at the source, nothing at the place of the copy, and a directory above it. It then adds one file
there and changes nothing else. If it fails, it says which of the three is wanting, the source first,
and changes nothing at all.
-/

namespace TreeShell

open FileSystem

/-- The names that a copy is found at, by the names of its source and of its target: below the
target, under the last name of the source, if a directory is there. -/
def FileSystem.copyPlace (fs : FileSystem) (source target : List String) : List String :=
  if fs.view target = some .directory then target ++ source.getLast?.toList else target

/-- What can be in the way of a copy. -/
def FileSystem.copyFaults : List Obstacle :=
  [.sourceMissing, .isADirectory, .alreadyExists, .parentMissing]

/-- Why a copy fails, by what is seen at its source and at its place. -/
inductive FileSystem.CopyFault (fs : FileSystem) (origin place : List String) : Obstacle → Prop where
  | missing (horigin : fs.view origin = none) : CopyFault fs origin place .sourceMissing
  | directory (horigin : fs.view origin = some .directory) : CopyFault fs origin place .isADirectory
  | taken {content : String} (horigin : fs.view origin = some (.file content))
      (hplace : fs.view place ≠ none) : CopyFault fs origin place .alreadyExists
  | parentless {content : String} (horigin : fs.view origin = some (.file content))
      (hplace : fs.view place = none) (hparent : fs.view place.dropLast ≠ some .directory) :
      CopyFault fs origin place .parentMissing

namespace FileSystem

variable {fs : FileSystem}

theorem copyFault_of_copyFile {source path : String} {failure : Failure}
    (h : fs.copyFile source path = .error failure) :
    fs.CopyFault (Path.segments source) (Path.segments path) failure.obstacle := by
  have hrun : (Creation.copy source path).run fs = .error failure := h
  rcases Creation.run_eq_error_iff.mp hrun with hfault | ⟨⟨new, hproduct⟩, hfault⟩
  · obtain ⟨origin, target, hcopy, hfault⟩ := hfault
    obtain ⟨rfl, rfl⟩ := Creation.copy.inj hcopy
    rcases hfault with ⟨hview, rfl⟩ | ⟨hview, rfl⟩
    · exact .directory hview
    · exact .missing hview
  · obtain ⟨content, horigin, -⟩ := Creation.product?_copy_eq_some_iff.mp hproduct
    rcases hfault with ⟨htaken, rfl⟩ | ⟨⟨parent, leaf, hsegments, hparent⟩, rfl⟩
    · refine .taken horigin ?_
      rcases htaken with hroot | htaken
      · have htarget : Path.segments path = [] := hroot
        rw [htarget, view_nil]
        simp
      · exact htaken
    · have htarget : Path.segments path = parent ++ [leaf] := hsegments
      refine .parentless horigin ?_ ?_
      · -- whatever is there has a directory above it
        by_contra hview
        obtain ⟨shown, hshown⟩ := Option.ne_none_iff_exists'.mp hview
        rw [htarget] at hshown
        exact hparent (Node.view_eq_directory_of_append hshown (by simp))
      · rw [htarget, List.dropLast_concat]
        exact hparent

namespace CopyFault

variable {origin place : List String} {obstacle : Obstacle}

/-- The place matters only if a file is at the source. -/
theorem of_place {other : List String} (h : fs.CopyFault origin other obstacle)
    (hplace : ∀ content, fs.view origin = some (.file content) → other = place) :
    fs.CopyFault origin place obstacle := by
  cases h with
  | missing horigin => exact .missing horigin
  | directory horigin => exact .directory horigin
  | taken horigin htaken =>
    rw [hplace _ horigin] at htaken
    exact .taken horigin htaken
  | parentless horigin hvacant hparent =>
    rw [hplace _ horigin] at hvacant hparent
    exact .parentless horigin hvacant hparent

theorem mem_copyFaults (h : fs.CopyFault origin place obstacle) : obstacle ∈ copyFaults := by
  cases h with
  | missing | directory | taken | parentless => decide

theorem sourceMissing_iff (h : fs.CopyFault origin place obstacle) :
    obstacle = .sourceMissing ↔ fs.view origin = none := by
  cases h with
  | missing horigin | directory horigin | taken horigin | parentless horigin => simp [horigin]

theorem isADirectory_iff (h : fs.CopyFault origin place obstacle) :
    obstacle = .isADirectory ↔ fs.view origin = some .directory := by
  cases h with
  | missing horigin | directory horigin | taken horigin | parentless horigin => simp [horigin]

theorem alreadyExists_iff (h : fs.CopyFault origin place obstacle) :
    obstacle = .alreadyExists ↔
      (∃ content, fs.view origin = some (.file content)) ∧ fs.view place ≠ none := by
  cases h with
  | missing horigin | directory horigin => simp [horigin]
  | taken horigin hplace | parentless horigin hplace => simp [horigin, hplace]

theorem parentMissing_iff (h : fs.CopyFault origin place obstacle) :
    obstacle = .parentMissing ↔
      (∃ content, fs.view origin = some (.file content)) ∧ fs.view place = none := by
  cases h with
  | missing horigin | directory horigin => simp [horigin]
  | taken horigin hplace | parentless horigin hplace => simp [horigin, hplace]

end CopyFault

end FileSystem

namespace Command

/-! ## The path of a copy -/

/-- The path of a copy leads to its place. Only the root has no last name, and it is no file. -/
theorem segments_copyTarget {fs : FileSystem} {source target content : String}
    (hsource : Path.IsCanonical source) (htarget : Path.IsCanonical target)
    (horigin : fs.view (Path.segments source) = some (.file content)) :
    Path.segments (copyTarget fs source target) =
      fs.copyPlace (Path.segments source) (Path.segments target) := by
  have hroot : Path.segments source ≠ [] := by
    intro hnil
    rw [hnil, view_nil] at horigin
    exact absurd horigin (by simp)
  have hlast : (Path.segments source).getLast?.toList = [Path.basename source] := by
    rw [Path.basename, List.getLast?_eq_some_getLast hroot]
    rfl
  unfold copyTarget copyPlace
  by_cases hdirectory : fs.view (Path.segments target) = some .directory
  · rw [if_pos (isDirectory_iff.mpr hdirectory), if_pos hdirectory, hlast,
      Path.segments_join htarget (Path.isName_basename hsource hroot)]
  · rw [if_neg (mt isDirectory_iff.mp hdirectory), if_neg hdirectory]

/-! ## What is said of a copy that fails -/

theorem take_toList_append {front : String} {count : Nat} (h : count ≤ front.toList.length)
    (back : String) : (front ++ back).toList.take count = front.toList.take count := by
  rw [String.toList_append, List.take_append_of_le_length h]

/-- How the text of a copy that fails begins, which tells a fault of the source from the others. -/
def opening : Obstacle → String
  | .sourceMissing => "cannot s"
  | .isADirectory => "-r not s"
  | _ => "cannot c"

theorem take_copyComplaint (source target : String) (obstacle : Obstacle) :
    (copyComplaint source target obstacle).toList.take 8 = (opening obstacle).toList := by
  cases obstacle with
  | sourceMissing =>
    show ("cannot stat '" ++ source ++ "': No such file or directory").toList.take 8 = _
    rw [String.append_assoc, take_toList_append (by decide)]
    decide
  | isADirectory =>
    show ("-r not specified; omitting directory '" ++ source ++ "'").toList.take 8 = _
    rw [String.append_assoc, take_toList_append (by decide)]
    decide
  | notFound | notADirectory | alreadyExists | parentMissing =>
    show ("cannot create regular file '" ++ target ++ "': " ++ _).toList.take 8 = _
    rw [String.append_assoc, String.append_assoc, take_toList_append (by decide)]
    decide

theorem copyComplaint_of_opening {source target : String} {obstacle : Obstacle}
    (h : opening obstacle = "cannot c") :
    copyComplaint source target obstacle =
      "cannot create regular file '" ++ target ++ "': " ++ obstacle.reason := by
  cases obstacle with
  | sourceMissing | isADirectory => exact absurd h (by decide)
  | notFound | notADirectory | alreadyExists | parentMissing => rfl

/-- The text tells the faults of a copy apart. -/
theorem copyComplaint_eq_iff {source target : String} {obstacle other : Obstacle}
    (hobstacle : obstacle ∈ copyFaults) (hother : other ∈ copyFaults) :
    copyComplaint source target obstacle = copyComplaint source target other ↔
      obstacle = other := by
  refine ⟨?_, fun h => by rw [h]⟩
  intro htext
  have hopening : opening obstacle = opening other := by
    have htake := take_copyComplaint source target obstacle
    rw [htext, take_copyComplaint] at htake
    exact (String.toList_inj.mp htake).symm
  have hreason (h : opening obstacle = "cannot c") : obstacle.reason = other.reason := by
    rw [copyComplaint_of_opening h, copyComplaint_of_opening (hopening ▸ h)] at htext
    exact (String.append_right_inj _).mp htext
  simp only [copyFaults, List.mem_cons, List.not_mem_nil, or_false] at hobstacle hother
  rcases hobstacle with rfl | rfl | rfl | rfl <;> rcases hother with rfl | rfl | rfl | rfl <;>
    revert hopening hreason <;> decide

/-! ## The command -/

section Pairs

variable {session changed : Session} {fs : FileSystem} {source target : String}

theorem cp_pair (hfs : session.fileSystem = some fs) (source target : String) :
    cp session [source, target] =
      match fs.copyFile (session.resolve source)
        (copyTarget fs (session.resolve source) (session.resolve target)) with
      | .ok after => .ok ({}, { session with fileSystem := some after })
      | .error failure =>
        .error (.execution "cp" (copyComplaint source target failure.obstacle)) := by
  have hcopy : cp session [source, target] = copy session source target := rfl
  rw [copy, hfs] at hcopy
  exact hcopy

theorem cp_eq_ok_iff (hfs : session.fileSystem = some fs) {value : Outcome × Session} :
    cp session [source, target] = .ok value ↔
      ∃ after, fs.copyFile (session.resolve source)
          (copyTarget fs (session.resolve source) (session.resolve target)) = .ok after ∧
        value = ({}, { session with fileSystem := some after }) := by
  rw [cp_pair hfs]
  split
  · next after hrun => simp [hrun, eq_comm]
  · next failure hrun => simp [hrun]

theorem cp_eq_error_iff (hfs : session.fileSystem = some fs) {failure : CommandFailure} :
    cp session [source, target] = .error failure ↔
      ∃ fault, fs.copyFile (session.resolve source)
          (copyTarget fs (session.resolve source) (session.resolve target)) = .error fault ∧
        failure = .execution "cp" (copyComplaint source target fault.obstacle) := by
  rw [cp_pair hfs]
  split
  · next after hrun => simp [hrun]
  · next fault hrun => simp [hrun, eq_comm]

theorem cat_of_view (hfs : session.fileSystem = some fs) {operand content : String}
    (hview : fs.view (Path.segments (session.resolve operand)) = some (.file content)) :
    cat session [operand] = .ok { stdout := content } := by
  rw [cat_singleton hfs, catOperand, read_eq_ok_iff.mpr hview]

/-- A copy succeeds if a file is at its source, nothing at its place and a directory above it. -/
theorem exists_cp_eq_ok_iff (hfs : session.fileSystem = some fs) :
    let origin := Path.segments (session.resolve source)
    let place := fs.copyPlace origin (Path.segments (session.resolve target))
    (∃ value, cp session [source, target] = .ok value) ↔
      (∃ content, fs.view origin = some (.file content)) ∧ fs.view place = none ∧
        fs.view place.dropLast = some .directory := by
  intro origin place
  have hcopy : (∃ value, cp session [source, target] = .ok value) ↔
      ∃ after, (Creation.copy (session.resolve source) (copyTarget fs (session.resolve source)
        (session.resolve target))).run fs = .ok after := by
    constructor
    · rintro ⟨value, hvalue⟩
      obtain ⟨after, hrun, -⟩ := (cp_eq_ok_iff hfs).mp hvalue
      exact ⟨after, hrun⟩
    · rintro ⟨after, hrun⟩
      exact ⟨_, (cp_eq_ok_iff hfs).mpr ⟨after, hrun, rfl⟩⟩
  have hplace {content : String} (horigin : fs.view origin = some (.file content)) :
      Path.segments (copyTarget fs (session.resolve source) (session.resolve target)) = place :=
    segments_copyTarget (Path.isCanonical_resolve _ _) (Path.isCanonical_resolve _ _) horigin
  rw [hcopy, Creation.exists_run_eq_ok_iff]
  constructor
  · rintro ⟨hfree, new, hproduct⟩
    obtain ⟨content, horigin, -⟩ := Creation.product?_copy_eq_some_iff.mp hproduct
    have hview := isFree_iff_view.mp hfree
    rw [Creation.target, hplace horigin] at hview
    exact ⟨⟨content, horigin⟩, hview⟩
  · rintro ⟨⟨content, horigin⟩, hview⟩
    refine ⟨isFree_iff_view.mpr ?_, .file content, ?_⟩
    · rwa [Creation.target, hplace horigin]
    · exact Creation.product?_copy_eq_some_iff.mpr ⟨content, horigin, rfl⟩

/-- A copy that succeeds adds one file at its place, with the content of its source. -/
theorem pointUpdate_of_cp (hfs : session.fileSystem = some fs) {outcome : Outcome}
    (h : cp session [source, target] = .ok (outcome, changed)) :
    let origin := Path.segments (session.resolve source)
    let place := fs.copyPlace origin (Path.segments (session.resolve target))
    outcome = {} ∧ ∃ content after parent leaf, fs.view origin = some (.file content) ∧
      place = parent ++ [leaf] ∧ PointUpdate fs parent leaf (.file content) after ∧
      changed = { session with fileSystem := some after } ∧
      Path.IsCanonical (Path.render place) ∧ Path.segments (Path.render place) = place := by
  intro origin place
  obtain ⟨after, hrun, hvalue⟩ := (cp_eq_ok_iff hfs).mp h
  obtain ⟨rfl, rfl⟩ := Prod.mk.inj hvalue
  have hsource := Path.isCanonical_resolve session.cursor source
  have htarget := Path.isCanonical_resolve session.cursor target
  obtain ⟨new, parent, leaf, hproduct, hsegments, hupdate⟩ := Creation.pointUpdate_of_run
    (show (Creation.copy _ _).run fs = .ok after from hrun)
  obtain ⟨content, horigin, rfl⟩ := Creation.product?_copy_eq_some_iff.mp hproduct
  have hplace : Path.segments (copyTarget fs (session.resolve source) (session.resolve target)) =
      place := segments_copyTarget hsource htarget horigin
  have hcanonical := isCanonical_copyTarget hsource htarget hrun
  have hrender : Path.render place =
      copyTarget fs (session.resolve source) (session.resolve target) := by
    rw [← hplace]
    exact Path.render_segments hcanonical
  refine ⟨rfl, content, after, parent, leaf, horigin, ?_, hupdate, rfl, ?_, ?_⟩
  · rw [← hplace]
    exact hsegments
  · rw [hrender]
    exact hcanonical
  · rw [hrender, hplace]

/-- A copy that fails says what is in its way. -/
theorem copyFault_of_cp (hfs : session.fileSystem = some fs) {failure : CommandFailure}
    (h : cp session [source, target] = .error failure) :
    let origin := Path.segments (session.resolve source)
    let place := fs.copyPlace origin (Path.segments (session.resolve target))
    ∃ obstacle, fs.CopyFault origin place obstacle ∧
      failure = .execution "cp" (copyComplaint source target obstacle) := by
  intro origin place
  obtain ⟨fault, hrun, hfailure⟩ := (cp_eq_error_iff hfs).mp h
  refine ⟨fault.obstacle, ?_, hfailure⟩
  refine (copyFault_of_copyFile hrun).of_place ?_
  intro content horigin
  exact segments_copyTarget (Path.isCanonical_resolve _ _) (Path.isCanonical_resolve _ _) horigin

end Pairs

theorem cp_of_length_ne (session : Session) {args : List String} (h : args.length ≠ 2) :
    ∃ message, cp session args = .error (.usage "cp" message) := by
  rw [cp.eq_def]
  split
  · exact ⟨_, rfl⟩
  · exact ⟨_, rfl⟩
  · exact absurd rfl h
  · exact ⟨_, rfl⟩

end Command

open Command

/-- `cp` succeeds just when its source names a file, and nothing is at the place of the copy but a
directory above it. One file is then added there, with the content of the source, and `cat` shows
the same for both; all else looks as before. Otherwise the session stays as it is, the status is 1,
and the text says what is in the way: first what is wrong with the source, then whether the place is
taken or has no directory above it. Without exactly two operands nothing changes and the status
is 2. -/
theorem Session.cp_copies_one_file {session : Session} {fs : FileSystem}
    (hfs : session.fileSystem = some fs) (source target : String) :
    let origin := Path.segments (session.resolve source)
    let place := fs.copyPlace origin (Path.segments (session.resolve target))
    let result := cp session [source, target]
    ((∃ value, result = .ok value) ↔
      (∃ content, fs.view origin = some (.file content)) ∧ fs.view place = none ∧
        fs.view place.dropLast = some .directory) ∧
    (∀ outcome changed, result = .ok (outcome, changed) →
      outcome = {} ∧ ∃ content after parent leaf, fs.view origin = some (.file content) ∧
        place = parent ++ [leaf] ∧ PointUpdate fs parent leaf (.file content) after ∧
        changed = { session with fileSystem := some after } ∧
        (∀ names, names ≠ place → after.view names = fs.view names) ∧
        cat session [source] = .ok { stdout := content } ∧
        cat changed [source] = .ok { stdout := content } ∧
        cat changed [Path.render place] = .ok { stdout := content }) ∧
    (∀ failure, result = .error failure → ∃ message,
      Builtin.cp.dispatch session [source, target] =
        { reply := .done { stderr := "cp: " ++ message ++ "\n", status := 1 }, session } ∧
      (message = "cannot stat '" ++ source ++ "': No such file or directory" ↔
        fs.view origin = none) ∧
      (message = "-r not specified; omitting directory '" ++ source ++ "'" ↔
        fs.view origin = some .directory) ∧
      (message = "cannot create regular file '" ++ target ++ "': " ++ "File exists" ↔
        (∃ content, fs.view origin = some (.file content)) ∧ fs.view place ≠ none) ∧
      (message =
          "cannot create regular file '" ++ target ++ "': " ++ "No such file or directory" ↔
        (∃ content, fs.view origin = some (.file content)) ∧ fs.view place = none)) ∧
    ∀ args : List String, args.length ≠ 2 → ∃ complaint,
      Builtin.cp.dispatch session args = { reply := .done complaint, session } ∧
        complaint.status = 2 := by
  intro origin place result
  refine ⟨exists_cp_eq_ok_iff hfs, ?_, ?_, ?_⟩
  · intro outcome changed hresult
    obtain ⟨houtcome, content, after, parent, leaf, horigin, hplace, hupdate, rfl, hcanonical,
      hsegments⟩ := pointUpdate_of_cp hfs hresult
    have hview : after.view = Function.update fs.view place (some (.file content)) := by
      rw [hupdate.view_eq, ← hplace]
      rfl
    refine ⟨houtcome, content, after, parent, leaf, horigin, hplace, hupdate, rfl, ?_,
      cat_of_view hfs horigin, ?_, ?_⟩
    · intro names hnames
      rw [hview, Function.update_of_ne hnames]
    · exact cat_of_view rfl (hupdate.view_eq_of_some horigin)
    · refine cat_of_view rfl ?_
      -- the path of the place is absolute, so that it is read as it is
      have hresolve : Session.resolve { session with fileSystem := some after }
          (Path.render place) = Path.render place :=
        Path.resolve_of_isCanonical hcanonical session.cursor
      rw [hresolve, hsegments, hview, Function.update_self]
  · intro failure hresult
    obtain ⟨obstacle, hfault, rfl⟩ := copyFault_of_cp hfs hresult
    have hdispatch : Builtin.cp.dispatch session [source, target] =
        { reply := .done (CommandFailure.execution "cp"
            (copyComplaint source target obstacle)).outcome, session } :=
      Builtin.dispatch_of_error (map_eq_error_iff.mpr hresult)
    have htext (other : Obstacle) (hother : other ∈ copyFaults) :
        copyComplaint source target obstacle = copyComplaint source target other ↔
          obstacle = other :=
      copyComplaint_eq_iff hfault.mem_copyFaults hother
    refine ⟨copyComplaint source target obstacle, hdispatch, ?_, ?_, ?_, ?_⟩
    · exact (htext .sourceMissing (by decide)).trans hfault.sourceMissing_iff
    · exact (htext .isADirectory (by decide)).trans hfault.isADirectory_iff
    · exact (htext .alreadyExists (by decide)).trans hfault.alreadyExists_iff
    · exact (htext .parentMissing (by decide)).trans hfault.parentMissing_iff
  · intro args hargs
    obtain ⟨message, hmessage⟩ := cp_of_length_ne session hargs
    exact ⟨_, Builtin.dispatch_of_error (map_eq_error_iff.mpr hmessage), rfl⟩

/-- Copied to the root from below it, a file takes its own name there; and where a directory has
that name already, the copy fails because its place is taken. -/
theorem Session.cp_into_root_takes_name_of_source :
    let inner : List (String × Node) := [("f", .file "x"), ("g", .file "y")]
    let fs : FileSystem := { root := .directory [("a", .directory inner), ("g", .directory [])] }
    let session : Session :=
      { config := { username := "", hostname := "", cwd := "/", home := "/" }
        fileSystem := some fs, cursor := "/a" }
    session.fileSystem = some fs ∧
      (∃ changed, cp session ["./f", ".."] = .ok ({}, changed) ∧
        cat changed ["/f"] = .ok { stdout := "x" }) ∧
      Builtin.cp.dispatch session ["g", "//"] =
        { reply := .done
            { stderr := "cp: cannot create regular file '//': File exists\n", status := 1 }
          session } := by
  intro inner fs session
  have hfs : session.fileSystem = some fs := rfl
  refine ⟨hfs, ?_, ?_⟩
  · obtain ⟨hsucceeds, hcopied, -, -⟩ := cp_copies_one_file hfs "./f" ".."
    have horigin : Path.segments (session.resolve "./f") = ["a", "f"] := by decide
    have hplace : fs.copyPlace ["a", "f"] (Path.segments (session.resolve "..")) = ["f"] := by
      decide
    have hview : fs.view ["a", "f"] = some (.file "x") := by decide
    rw [horigin, hplace] at hsucceeds hcopied
    obtain ⟨⟨outcome, changed⟩, hresult⟩ :=
      hsucceeds.mpr ⟨⟨"x", hview⟩, by decide, by decide⟩
    obtain ⟨rfl, content, after, parent, leaf, hcontent, -, -, -, -, -, -, hcat⟩ :=
      hcopied outcome changed hresult
    obtain rfl : content = "x" := Surface.file.inj (Option.some.inj (hcontent.symm.trans hview))
    have hpath : Path.render ["f"] = "/f" := by decide
    rw [hpath] at hcat
    exact ⟨changed, hresult, hcat⟩
  · obtain ⟨hsucceeds, -, hfails, -⟩ := cp_copies_one_file hfs "g" "//"
    have htaken : fs.view (fs.copyPlace (Path.segments (session.resolve "g"))
        (Path.segments (session.resolve "//"))) ≠ none := by decide
    cases hresult : cp session ["g", "//"] with
    | ok value => exact absurd (hsucceeds.mp ⟨value, hresult⟩).2.1 htaken
    | error failure =>
      obtain ⟨message, hdispatch, -, -, hexists, -⟩ := hfails failure hresult
      have htext : "cp: " ++ ("cannot create regular file '" ++ "//" ++ "': " ++ "File exists") ++
          "\n" = "cp: cannot create regular file '//': File exists\n" := by decide
      rw [hdispatch, hexists.mpr ⟨⟨"y", by decide⟩, htaken⟩, htext]

end TreeShell
