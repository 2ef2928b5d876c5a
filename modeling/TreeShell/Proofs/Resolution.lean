import Mathlib.Data.List.Forall2
import TreeShell.Proofs.Cursor

/-!
# Paths that are read from other paths

Reading one path from the place that another leads to is reading the two as one path, because
following the parts of a path is a fold over them: the names that a canonical path is written from
lead back to the place where the first part of the fold ended. A path that has been resolved is
canonical, and is read the same from everywhere. Two moves of the cursor can therefore be made in one,
and a command that is given the absolute path of an operand does what it does for the operand; only
its complaints, which repeat the operand as it was written, read differently.
-/

namespace TreeShell

namespace Path

/-! ## Resolving twice -/

/-- The names of a normalized path lead where the path led. -/
theorem foldl_step_parts_normalize (path : String) :
    (parts (normalize path)).foldl step [] = (parts path).foldl step [] := by
  have hfollow : follow (parts (normalize path)) = follow (parts path) :=
    follow_parts_render fun _ => isName_of_mem_follow
  rw [follow, follow] at hfollow
  exact List.reverse_injective hfollow

/-- A path may be normalized before another one is written behind it. -/
theorem normalize_normalize_append (path target : String) :
    normalize (normalize path ++ "/" ++ target) = normalize (path ++ "/" ++ target) := by
  have hfollow : follow (parts (normalize path ++ "/" ++ target)) =
      follow (parts (path ++ "/" ++ target)) := by
    rw [parts_append, parts_append, follow, follow, List.foldl_append, List.foldl_append,
      foldl_step_parts_normalize]
  exact congrArg render hfollow

theorem head?_of_isCanonical {path : String} (h : IsCanonical path) :
    path.toList.head? = some '/' := by
  obtain ⟨names, -, rfl⟩ := h
  cases names with
  | nil => rfl
  | cons name names => simp [render]

/-- A canonical path is read the same from everywhere. -/
theorem resolve_of_isCanonical {path : String} (h : IsCanonical path) (cursor : String) :
    resolve cursor path = path := by
  rw [resolve, if_pos (head?_of_isCanonical h), normalize_of_isCanonical h]

/-- Resolving one target from where another leads is resolving the two as one. -/
theorem resolve_resolve {first second : String} (hfirst : first ≠ "")
    (hsecond : second.toList.head? ≠ some '/') (cursor : String) :
    resolve (resolve cursor first) second = resolve cursor (first ++ "/" ++ second) := by
  have hhead : (first ++ "/" ++ second).toList.head? = first.toList.head? := by
    have hchars : first.toList ≠ [] := by simpa using hfirst
    rw [String.toList_append, String.toList_append, List.append_assoc]
    exact List.head?_append_of_ne_nil _ hchars
  rw [resolve, if_neg hsecond, resolve, resolve, hhead]
  split_ifs with habsolute
  · exact normalize_normalize_append first second
  · have hseam : cursor ++ "/" ++ (first ++ "/" ++ second) =
        cursor ++ "/" ++ first ++ "/" ++ second := by simp only [String.append_assoc]
    rw [normalize_normalize_append, hseam]

/-- Without a first target the slash at the seam would make the second one absolute. -/
example : resolve (resolve "/a" "") "b" ≠ resolve "/a" ("" ++ "/" ++ "b") := by decide

end Path

open Command

variable {session : Session} {fs : FileSystem}

/-! ## Two moves in one -/

theorem cd_eq_ok_iff (hfs : session.fileSystem = some fs) {target : String} {outcome : Outcome}
    {changed : Session} :
    cd session [target] = .ok (outcome, changed) ↔
      fs.isDirectory (session.resolve target) = true ∧ outcome = {} ∧
        changed = { session with cursor := session.resolve target } := by
  rw [Session.cd_singleton hfs]
  split_ifs with hdirectory
  · simp [hdirectory, eq_comm]
  · simp [hdirectory]

/-- Two moves of the cursor that succeed can be made in one. -/
theorem cd_of_cd {first second : String} {outcome next : Outcome} {middle last : Session}
    (hfs : session.fileSystem = some fs) (hfirst : first ≠ "")
    (hsecond : second.toList.head? ≠ some '/')
    (hmiddle : cd session [first] = .ok (outcome, middle))
    (hlast : cd middle [second] = .ok (next, last)) :
    cd session [first ++ "/" ++ second] = .ok (next, last) := by
  obtain ⟨-, -, hmoved⟩ := (cd_eq_ok_iff hfs).mp hmiddle
  have hmiddleFs : middle.fileSystem = some fs := by rw [hmoved, hfs]
  obtain ⟨hdirectory, hnext, hlastMoved⟩ := (cd_eq_ok_iff hmiddleFs).mp hlast
  have hresolve : middle.resolve second = session.resolve (first ++ "/" ++ second) := by
    rw [hmoved]
    exact Path.resolve_resolve hfirst hsecond session.cursor
  rw [hresolve] at hdirectory hlastMoved
  refine (cd_eq_ok_iff hfs).mpr ⟨hdirectory, hnext, ?_⟩
  rw [hlastMoved, hmoved]

/-! ## Operands that resolve alike -/

/-- An outcome without its complaints. -/
def Outcome.muted (outcome : Outcome) : Outcome := { outcome with stderr := "" }

theorem Outcome.muted_andThen (first second : Outcome) :
    (first.andThen second).muted = first.muted.andThen second.muted := by
  simp [muted, andThen]

theorem Outcome.muted_sequence (outcomes : List Outcome) :
    (sequence outcomes).muted = sequence (outcomes.map muted) := by
  induction outcomes with
  | nil => rfl
  | cons outcome outcomes ih =>
    rw [List.map_cons, sequence, sequence, List.foldr_cons, List.foldr_cons, muted_andThen]
    exact congrArg (andThen outcome.muted) ih

/-- What a command comes to in two calls that differ in their complaints at most: it is carried out
in both and leaves the same session, or fails as a whole in both with the same status. -/
inductive Builtin.Likewise : Except CommandFailure Turn → Except CommandFailure Turn → Prop where
  | ok {session : Session} {outcome other : Outcome} (h : outcome.muted = other.muted) :
      Likewise (.ok { reply := .done outcome, session }) (.ok { reply := .done other, session })
  | error {failure other : CommandFailure} (h : failure.status = other.status) :
      Likewise (.error failure) (.error other)

/-- Operands that resolve to the same paths, one by one. -/
abbrev Session.Aliases (session : Session) : List String → List String → Prop :=
  List.Forall₂ fun operand other => session.resolve operand = session.resolve other

theorem Session.aliases_map_resolve (session : Session) (args : List String) :
    session.Aliases args (args.map session.resolve) := by
  rw [Aliases, List.forall₂_map_right_iff, List.forall₂_same]
  intro operand _
  exact (Path.resolve_of_isCanonical (Path.isCanonical_resolve _ _) _).symm

namespace Command

variable {args others : List String}

/-- Operands that are treated one after the other lead to the same tree, with the same complaints
left out, if each of them does. -/
theorem forEach_of_aliases {attempt : FileSystem → String → Except Outcome FileSystem}
    (hattempt : ∀ fs operand other, session.resolve operand = session.resolve other →
      (attempt fs operand).mapError Outcome.muted = (attempt fs other).mapError Outcome.muted)
    (h : session.Aliases args others) (fs : FileSystem) :
    (forEach attempt fs args).1 = (forEach attempt fs others).1 ∧
      (forEach attempt fs args).2.muted = (forEach attempt fs others).2.muted := by
  induction h generalizing fs with
  | nil => exact ⟨rfl, rfl⟩
  | @cons operand other operands rest halias _ ih =>
    have hfirst := hattempt fs operand other halias
    rw [forEach, forEach]
    generalize attempt fs operand = result at hfirst ⊢
    generalize attempt fs other = twin at hfirst ⊢
    cases result with
    | ok after =>
      obtain rfl : twin = .ok after := mapError_eq_ok_iff.mp hfirst.symm
      exact ih after
    | error complaint =>
      obtain ⟨grumble, rfl, hmuted⟩ := mapError_eq_error_iff.mp hfirst.symm
      obtain ⟨hlast, houtcome⟩ := ih fs
      refine ⟨hlast, ?_⟩
      rw [Outcome.muted_andThen, Outcome.muted_andThen, hmuted, houtcome]

theorem makeDirectory_of_alias {operand other : String}
    (h : session.resolve operand = session.resolve other) (fs : FileSystem) :
    (makeDirectory session fs operand).mapError Outcome.muted =
      (makeDirectory session fs other).mapError Outcome.muted := by
  rw [makeDirectory, makeDirectory, h]
  cases fs.makeDirectory (session.resolve other) with
  | ok after => rfl
  | error failure => rfl

theorem makeEmptyFile_of_alias {operand other : String}
    (h : session.resolve operand = session.resolve other) (fs : FileSystem) :
    (makeEmptyFile session fs operand).mapError Outcome.muted =
      (makeEmptyFile session fs other).mapError Outcome.muted := by
  rw [makeEmptyFile, makeEmptyFile, h]
  cases fs.makeFile (session.resolve other) "" with
  | ok after => rfl
  | error failure =>
    simp only
    split_ifs
    · rfl
    · rfl

theorem catOperand_of_alias {operand other : String}
    (h : session.resolve operand = session.resolve other) (fs : FileSystem) :
    (catOperand session fs operand).muted = (catOperand session fs other).muted := by
  rw [catOperand, catOperand, h]
  cases fs.read (session.resolve other) with
  | ok content => rfl
  | error failure => rfl

end Command

namespace Builtin

variable {args others : List String}

theorem likewise_of_makeAll {name missing would : String}
    {attempt : FileSystem → String → Except Outcome FileSystem}
    (hattempt : ∀ fs operand other, session.resolve operand = session.resolve other →
      (attempt fs operand).mapError Outcome.muted = (attempt fs other).mapError Outcome.muted)
    (hfs : session.fileSystem = some fs) (h : session.Aliases args others) :
    Likewise
      ((makeAll session name missing would attempt args).map
        fun result => { reply := .done result.1, session := result.2 })
      ((makeAll session name missing would attempt others).map
        fun result => { reply := .done result.1, session := result.2 }) := by
  obtain ⟨htree, houtcome⟩ := forEach_of_aliases hattempt h fs
  rw [makeAll, makeAll, hfs]
  cases h with
  | nil => exact .error rfl
  | cons halias hrest =>
    rw [if_neg (by simp), if_neg (by simp)]
    simp only [Except.map, htree]
    exact .ok houtcome

theorem likewise_cat (hfs : session.fileSystem = some fs) (h : session.Aliases args others) :
    Likewise (Builtin.cat.perform session args) (Builtin.cat.perform session others) := by
  have hmuted : (args.map (catOperand session fs)).map Outcome.muted =
      (others.map (catOperand session fs)).map Outcome.muted := by
    induction h with
    | nil => rfl
    | cons halias _ ih => simp only [List.map_cons, catOperand_of_alias halias, ih]
  rw [perform, perform, Command.cat, Command.cat, hfs]
  cases h with
  | nil => exact .error rfl
  | cons halias hrest =>
    simp only
    rw [if_neg (by simp), if_neg (by simp)]
    refine .ok ?_
    rw [Outcome.muted_sequence, Outcome.muted_sequence, hmuted]

theorem likewise_cp (hfs : session.fileSystem = some fs) (h : session.Aliases args others) :
    Likewise (Builtin.cp.perform session args) (Builtin.cp.perform session others) := by
  rw [perform, perform, Command.cp.eq_def, Command.cp.eq_def]
  rcases h with _ | ⟨hsource, _ | ⟨htarget, _ | ⟨-, -⟩⟩⟩
  · exact .error rfl
  · exact .error rfl
  · simp only
    rw [copy, copy, hfs, hsource, htarget]
    simp only
    split
    · exact .ok rfl
    · exact .error rfl
  · exact .error rfl

/-- Operands that resolve alike make no difference to a command but in its complaints. -/
theorem likewise_perform {builtin : Builtin} (hbuiltin : builtin ∈ [mkdir, touch, cp, cat])
    (hfs : session.fileSystem = some fs) (h : session.Aliases args others) :
    Likewise (builtin.perform session args) (builtin.perform session others) := by
  rcases List.mem_cons.mp hbuiltin with rfl | hbuiltin
  · exact likewise_of_makeAll (fun fs _ _ halias => makeDirectory_of_alias halias fs) hfs h
  rcases List.mem_cons.mp hbuiltin with rfl | hbuiltin
  · exact likewise_of_makeAll (fun fs _ _ halias => makeEmptyFile_of_alias halias fs) hfs h
  rcases List.mem_cons.mp hbuiltin with rfl | hbuiltin
  · exact likewise_cp hfs h
  · obtain rfl := List.mem_singleton.mp hbuiltin
    exact likewise_cat hfs h

theorem dispatch_of_likewise {builtin : Builtin}
    (h : Likewise (builtin.perform session args) (builtin.perform session others)) :
    ∃ outcome other changed,
      builtin.dispatch session args = { reply := .done outcome, session := changed } ∧
      builtin.dispatch session others = { reply := .done other, session := changed } ∧
      outcome.stdout = other.stdout ∧ outcome.status = other.status := by
  rw [dispatch, dispatch]
  generalize builtin.perform session args = result at h ⊢
  generalize builtin.perform session others = twin at h ⊢
  cases h with
  | @ok changed outcome other hmuted =>
    have hstdout : outcome.muted.stdout = other.muted.stdout := by rw [hmuted]
    have hstatus : outcome.muted.status = other.muted.status := by rw [hmuted]
    exact ⟨outcome, other, changed, rfl, rfl, hstdout, hstatus⟩
  | @error failure other hstatus =>
    exact ⟨failure.outcome, other.outcome, session, rfl, rfl, rfl, hstatus⟩

end Builtin

/-- Paths are resolved one from another as if they were written as one, unless the second is
absolute, and a path that has been resolved is resolved to itself from everywhere. With a tree, two
moves of the cursor that succeed can therefore be made in one, and `mkdir`, `touch`, `cp` and `cat`
leave the same session, with the same output and status, when they are given the absolute paths of
their operands. -/
theorem resolution_composes :
    (∀ cursor first second : String, first ≠ "" → second.toList.head? ≠ some '/' →
      Path.resolve (Path.resolve cursor first) second =
        Path.resolve cursor (first ++ "/" ++ second)) ∧
    (∀ cursor other target : String,
      Path.resolve other (Path.resolve cursor target) = Path.resolve cursor target) ∧
    ∀ (session : Session) (fs : FileSystem), session.fileSystem = some fs →
      (∀ first second outcome next middle last, first ≠ "" → second.toList.head? ≠ some '/' →
        cd session [first] = .ok (outcome, middle) → cd middle [second] = .ok (next, last) →
        cd session [first ++ "/" ++ second] = .ok (next, last)) ∧
      ∀ builtin ∈ [Builtin.mkdir, .touch, .cp, .cat], ∀ args,
        ∃ outcome other changed,
          builtin.dispatch session args = { reply := .done outcome, session := changed } ∧
          builtin.dispatch session (args.map session.resolve) =
            { reply := .done other, session := changed } ∧
          outcome.stdout = other.stdout ∧ outcome.status = other.status := by
  refine ⟨?_, ?_, ?_⟩
  · intro cursor first second hfirst hsecond
    exact Path.resolve_resolve hfirst hsecond cursor
  · intro cursor other target
    exact Path.resolve_of_isCanonical (Path.isCanonical_resolve cursor target) other
  · intro session fs hfs
    constructor
    · intro first second outcome next middle last hfirst hsecond hmiddle hlast
      exact cd_of_cd hfs hfirst hsecond hmiddle hlast
    · intro builtin hbuiltin args
      have haliases := session.aliases_map_resolve args
      exact Builtin.dispatch_of_likewise (Builtin.likewise_perform hbuiltin hfs haliases)

/-- A move into a directory and another one out of it and further down are made in one. `touch`
makes one file and fails at another, whichever way its operands are written. -/
theorem moves_through_parent_are_made_in_one :
    let fs : FileSystem :=
      { root := .directory [("a", .directory [("b", .directory [])]), ("f", .file "x")] }
    let touched : FileSystem :=
      { root := .directory
          [("a", .directory [("b", .directory [])]), ("f", .file "x"), ("n", .file "")] }
    let session : Session :=
      { config := { username := "", hostname := "", cwd := "/", home := "/" }
        fileSystem := some fs }
    let middle : Session := { session with cursor := "/a" }
    let last : Session := { session with cursor := "/a/b" }
    let outcome : Outcome :=
      { stderr := "touch: cannot touch 'f/x': No such file or directory\n", status := 1 }
    let changed : Session := { session with fileSystem := some touched }
    session.fileSystem = some fs ∧ "a/" ≠ "" ∧ "../a/b".toList.head? ≠ some '/' ∧
      cd session ["a/"] = .ok ({}, middle) ∧ cd middle ["../a/b"] = .ok ({}, last) ∧
      cd session ["a//../a/b"] = .ok ({}, last) ∧
      Builtin.touch.dispatch session ["a/../n", "f/x"] =
        { reply := .done outcome, session := changed } ∧
      ∃ other, Builtin.touch.dispatch session ["/n", "/f/x"] =
          { reply := .done other, session := changed } ∧
        other.stdout = "" ∧ other.status = 1 := by
  intro fs touched session middle last outcome changed
  obtain ⟨hisDirectory, hisDirectoryBelow⟩ :
      fs.isDirectory (session.resolve "a/") = true ∧
        fs.isDirectory (middle.resolve "../a/b") = true := by
    decide +kernel +revert
  have hfs : session.fileSystem = some fs := rfl
  have hmiddleFs : middle.fileSystem = some fs := rfl
  have hfirst : "a/" ≠ "" := by decide
  have hsecond : "../a/b".toList.head? ≠ some '/' := by decide
  have ha : Path.resolve "/" "a/" = "/a" := by decide
  have hb : Path.resolve "/a" "../a/b" = "/a/b" := by decide
  have hmiddle : cd session ["a/"] = .ok ({}, middle) := by
    refine (cd_eq_ok_iff hfs).mpr ⟨hisDirectory, rfl, ?_⟩
    simp only [session, middle, Session.resolve, ha]
  have hlast : cd middle ["../a/b"] = .ok ({}, last) := by
    refine (cd_eq_ok_iff hmiddleFs).mpr ⟨hisDirectoryBelow, rfl, ?_⟩
    simp only [middle, last, Session.resolve, hb]
  have hn : Path.splitParent (Path.resolve "/" "a/../n") = some ([], "n") := by decide
  have hx : Path.splitParent (Path.resolve "/" "f/x") = some (["f"], "x") := by decide
  have htouch : Builtin.touch.dispatch session ["a/../n", "f/x"] =
      { reply := .done outcome, session := changed } := by
    simp only [session, Builtin.dispatch, Builtin.perform, touch, makeAll, forEach, makeEmptyFile,
      Session.resolve, FileSystem.makeFile, FileSystem.add, hn, hx]
    rfl
  have hpaths : ["a/../n", "f/x"].map session.resolve = ["/n", "/f/x"] := by
    show ["a/../n", "f/x"].map (Path.resolve "/") = ["/n", "/f/x"]
    decide
  obtain ⟨-, -, hsessions⟩ := resolution_composes
  obtain ⟨hcd, hdispatch⟩ := hsessions session fs hfs
  obtain ⟨said, other, reached, hsaid, hother, hstdout, hstatus⟩ :=
    hdispatch .touch (by decide) ["a/../n", "f/x"]
  rw [hpaths] at hother
  obtain ⟨hreply, rfl⟩ := Turn.mk.inj (htouch.symm.trans hsaid)
  obtain rfl := Reply.done.inj hreply
  exact ⟨hfs, hfirst, hsecond, hmiddle, hlast,
    hcd "a/" "../a/b" {} {} middle last hfirst hsecond hmiddle hlast, htouch, other, hother,
    hstdout.symm, hstatus.symm⟩

end TreeShell
