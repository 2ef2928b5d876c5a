import TreeShell.Proofs.IndependentCreations
import TreeShell.Proofs.Operands
import TreeShell.Proofs.Simulation

/-!
# Touching files

`touch` makes an empty file at every place that is free and complains of the places that have no
directory above them. An empty file is no directory, so that none of the operands changes what is
said of another one: the complaints are read off the tree as it was at the start, and the view that
is left has an empty file more at each free place. The order of the operands therefore shows in
nothing but the order of the complaints and of the children, and a second call finds all places
taken.
-/

namespace TreeShell

namespace FileSystem

variable {fs middle after : FileSystem}

/-! ## Empty files at free places -/

/-- Nothing is at a place, and a directory is above it. -/
def Vacant (fs : FileSystem) (place : List String) : Prop :=
  fs.view place = none ∧ fs.view place.dropLast = some .directory

/-- The view of `after` is that of `fs` with an empty file at each of the places that was free. -/
structure Touched (fs : FileSystem) (places : List (List String)) (after : FileSystem) : Prop where
  /-- An empty file is at each of the places that was free. -/
  view_of_vacant {names : List String} : names ∈ places → fs.Vacant names →
    after.view names = some (.file "")
  /-- All else looks as before. -/
  view_of_not {names : List String} : ¬ (names ∈ places ∧ fs.Vacant names) →
    after.view names = fs.view names

theorem lacksParent_iff_view {path : String} :
    fs.LacksParent path ↔ fs.view (Path.segments path).dropLast ≠ some .directory := by
  constructor
  · rintro ⟨parent, leaf, hsegments, hlacks⟩
    rwa [hsegments, List.dropLast_concat]
  · intro hlacks
    have hne : Path.segments path ≠ [] := by
      intro hnil
      rw [hnil, List.dropLast_nil, view_nil] at hlacks
      exact hlacks rfl
    refine ⟨(Path.segments path).dropLast, (Path.segments path).getLast hne, ?_, hlacks⟩
    exact (List.dropLast_append_getLast hne).symm

namespace Touched

variable {places others : List (List String)}

theorem of_not_vacant (h : ∀ place ∈ places, ¬ fs.Vacant place) : Touched fs places fs where
  view_of_vacant hmem hvacant := absurd hvacant (h _ hmem)
  view_of_not _ := rfl

theorem of_pointUpdate {parent : List String} {leaf : String}
    (h : PointUpdate fs parent leaf (.file "") after)
    (hparent : fs.view parent = some .directory) : Touched fs [parent ++ [leaf]] after where
  view_of_vacant hmem _ := by
    rw [List.mem_singleton.mp hmem, h.view_eq, Function.update_self]
    rfl
  view_of_not {names} hnot := by
    have hne : names ≠ parent ++ [leaf] := by
      rintro rfl
      refine hnot ⟨List.mem_singleton_self _, h.vacant, ?_⟩
      rwa [List.dropLast_concat]
    rw [h.view_eq, Function.update_of_ne hne]

/-- No directory comes or goes. -/
theorem view_eq_directory_iff (h : Touched fs places after) {names : List String} :
    after.view names = some .directory ↔ fs.view names = some .directory := by
  by_cases hnames : names ∈ places ∧ fs.Vacant names
  · obtain ⟨hmem, hvacant⟩ := hnames
    rw [h.view_of_vacant hmem hvacant, hvacant.1]
    simp
  · rw [h.view_of_not hnames]

theorem not_vacant_of_mem (h : Touched fs places after) {place : List String}
    (hmem : place ∈ places) : ¬ after.Vacant place := by
  rintro ⟨hnone, hparent⟩
  by_cases hvacant : fs.Vacant place
  · rw [h.view_of_vacant hmem hvacant] at hnone
    exact absurd hnone (by simp)
  · rw [h.view_of_not fun hboth => hvacant hboth.2] at hnone
    exact hvacant ⟨hnone, h.view_eq_directory_iff.mp hparent⟩

theorem append (hfirst : Touched fs places middle) (hsecond : Touched middle others after) :
    Touched fs (places ++ others) after where
  view_of_vacant {names} hmem hvacant := by
    by_cases hplaces : names ∈ places
    · -- the file is there already
      have hmiddle := hfirst.view_of_vacant hplaces hvacant
      rw [hsecond.view_of_not, hmiddle]
      rintro ⟨-, hnone, -⟩
      rw [hmiddle] at hnone
      exact absurd hnone (by simp)
    · have hothers : names ∈ others := (List.mem_append.mp hmem).resolve_left hplaces
      have hmiddle : middle.view names = fs.view names :=
        hfirst.view_of_not fun hboth => hplaces hboth.1
      refine hsecond.view_of_vacant hothers ⟨hmiddle.trans hvacant.1, ?_⟩
      exact hfirst.view_eq_directory_iff.mpr hvacant.2
  view_of_not {names} hnot := by
    have hfirstNot : ¬ (names ∈ places ∧ fs.Vacant names) := by
      rintro ⟨hmem, hvacant⟩
      exact hnot ⟨List.mem_append_left others hmem, hvacant⟩
    have hsecondNot : ¬ (names ∈ others ∧ middle.Vacant names) := by
      rintro ⟨hmem, hnone, hparent⟩
      refine hnot ⟨List.mem_append_right places hmem, ?_, hfirst.view_eq_directory_iff.mp hparent⟩
      rw [← hfirst.view_of_not hfirstNot, hnone]
    rw [hsecond.view_of_not hsecondNot, hfirst.view_of_not hfirstNot]

/-- The order of the places does not matter. -/
theorem view_eq_of_perm (h : Touched fs places middle) (hother : Touched fs others after)
    (hperm : places.Perm others) : middle.view = after.view := by
  funext names
  by_cases hnames : names ∈ places ∧ fs.Vacant names
  · obtain ⟨hmem, hvacant⟩ := hnames
    rw [h.view_of_vacant hmem hvacant, hother.view_of_vacant (hperm.mem_iff.mp hmem) hvacant]
  · rw [h.view_of_not hnames, hother.view_of_not]
    rwa [← hperm.mem_iff]

end Touched

theorem Growth.distinct (h : Growth fs after) (hfs : fs.root.Named fun _ => True) :
    after.root.Named fun _ => True := by
  induction h with
  | refl => exact hfs
  | tail _ hgrows ih =>
    obtain ⟨creation, -, -, hrun⟩ := hgrows
    exact Creation.distinct_of_run ih hrun

end FileSystem

/-- The lines of texts that are put together are the lines of each of them, if each is ended. -/
theorem Text.lines_join {texts : List String} (h : ∀ text ∈ texts, IsEnded text) :
    lines (String.join texts).toList = texts.flatMap fun text => lines text.toList := by
  induction texts with
  | nil => rfl
  | cons text texts ih =>
    obtain ⟨htext, htexts⟩ := List.forall_mem_cons.mp h
    have hended : text.toList = [] ∨ text.toList.getLast? = some '\n' := by
      rcases htext with rfl | hlast
      · exact Or.inl rfl
      · exact Or.inr hlast
    rw [String.join_cons, String.toList_append, lines_append hended, ih htexts, List.flatMap_cons]

namespace Command

open FileSystem

variable {session : Session} {fs after : FileSystem} {args others : List String}

/-! ## What is said -/

/-- What `touch` says of an operand that has no directory above it. -/
def touchComplaint (operand : String) : String :=
  "touch: cannot touch '" ++ operand ++ "': No such file or directory\n"

/-- The place of an operand. -/
def place (session : Session) (operand : String) : List String :=
  Path.segments (session.resolve operand)

/-- The operands that have no directory above them. -/
def orphans (session : Session) (fs : FileSystem) (args : List String) : List String :=
  args.filter fun operand => fs.view (place session operand).dropLast ≠ some .directory

/-- The complaints of some operands. -/
def complaints (operands : List String) : Outcome where
  stderr := String.join (operands.map touchComplaint)
  status := if operands = [] then 0 else 1

theorem complaints_cons (operand : String) (operands : List String) :
    complaints (operand :: operands) =
      Outcome.andThen { stderr := touchComplaint operand, status := 1 } (complaints operands) := by
  have hstatus : max (1 : Int) (if operands = [] then 0 else 1) = 1 := by
    split_ifs <;> decide
  simp only [complaints, Outcome.andThen, List.map_cons, String.join_cons, String.empty_append,
    hstatus, if_neg (List.cons_ne_nil operand operands)]

theorem lines_complaints (operands : List String) :
    Text.lines (complaints operands).stderr.toList =
      operands.flatMap fun operand => Text.lines (touchComplaint operand).toList := by
  have hended : ∀ text ∈ operands.map touchComplaint, Text.IsEnded text := by
    intro text htext
    obtain ⟨operand, -, rfl⟩ := List.mem_map.mp htext
    exact Or.inr (Text.getLast?_append rfl _)
  rw [complaints, Text.lines_join hended, List.flatMap_map]

/-- In another order the complaints are the same lines, and the status is the same. -/
theorem complaints_perm {operands : List String} (h : operands.Perm others) :
    (complaints operands).status = (complaints others).status ∧
      (Text.lines (complaints operands).stderr.toList).Perm
        (Text.lines (complaints others).stderr.toList) := by
  constructor
  · have hnil : operands = [] ↔ others = [] := by
      constructor
      · rintro rfl
        exact h.nil_eq.symm
      · rintro rfl
        exact h.eq_nil
    simp only [complaints, hnil]
  · rw [lines_complaints, lines_complaints]
    exact h.flatMap_right _

theorem orphans_congr (h : ∀ names, after.view names = some .directory ↔
    fs.view names = some .directory) : orphans session after args = orphans session fs args := by
  refine List.filter_congr ?_
  intro operand _
  rw [decide_eq_decide, ne_eq, ne_eq, h]

/-! ## What is done -/

/-- One operand: a file is made if the place is free, and only the lack of a directory above it is
complained of. -/
theorem makeEmptyFile_cases (session : Session) (fs : FileSystem) (operand : String) :
    (fs.view (place session operand).dropLast = some .directory ∧
      ∃ after, makeEmptyFile session fs operand = .ok after ∧
        Touched fs [place session operand] after ∧
        (¬ fs.Vacant (place session operand) → after = fs)) ∨
    (fs.view (place session operand).dropLast ≠ some .directory ∧
      makeEmptyFile session fs operand =
        .error { stderr := touchComplaint operand, status := 1 }) := by
  rw [makeEmptyFile, makeFile]
  rcases fs.add_cases (session.resolve operand) (.file "") "open" with
    ⟨htaken, hadd⟩ | ⟨hlacks, hadd⟩ | ⟨hfree, -⟩
  · have hparent := not_lacksParent_of_isTaken htaken
    rw [lacksParent_iff_view, not_not] at hparent
    have hoccupied : ¬ fs.Vacant (place session operand) := by
      rintro ⟨hnone, hdirectory⟩
      exact not_isTaken_of_isFree (isFree_iff_view.mpr ⟨hnone, hdirectory⟩) htaken
    refine Or.inl ⟨hparent, fs, ?_, ?_, fun _ => rfl⟩
    · rw [hadd]
      rfl
    · exact Touched.of_not_vacant (List.forall_mem_singleton.mpr hoccupied)
  · refine Or.inr ⟨lacksParent_iff_view.mp hlacks, ?_⟩
    rw [hadd]
    rfl
  · obtain ⟨after, hadd⟩ :
        ∃ after, fs.add (session.resolve operand) (.file "") "open" = .ok after :=
      exists_add_eq_ok_iff.mpr hfree
    obtain ⟨parent, leaf, hsegments, hupdate⟩ := pointUpdate_of_add hadd fun _ _ => rfl
    have hvacant := isFree_iff_view.mp hfree
    have hparent : fs.view parent = some .directory := by
      rw [← hvacant.2, hsegments, List.dropLast_concat]
    refine Or.inl ⟨hvacant.2, after, ?_, ?_, fun hoccupied => absurd hvacant hoccupied⟩
    · rw [hadd]
    · rw [place, hsegments]
      exact Touched.of_pointUpdate hupdate hparent

/-- All operands: the complaints are read off the tree as it was at the start. -/
theorem exists_forEach_makeEmptyFile (session : Session) (fs : FileSystem) (args : List String) :
    ∃ after, forEach (makeEmptyFile session) fs args =
        (after, complaints (orphans session fs args)) ∧
      Touched fs (args.map (place session)) after ∧
      ((∀ operand ∈ args, ¬ fs.Vacant (place session operand)) → after = fs) := by
  -- for every tree: each operand hands on one with the same directories
  induction args generalizing fs with
  | nil =>
    refine ⟨fs, rfl, Touched.of_not_vacant ?_, fun _ => rfl⟩
    intro names hnames
    exact absurd hnames List.not_mem_nil
  | cons operand args ih =>
    rw [forEach]
    rcases makeEmptyFile_cases session fs operand with
      ⟨hparent, middle, hmade, hfirst, hkept⟩ | ⟨hparent, hfailed⟩
    · obtain ⟨after, hrest, hsecond, hstill⟩ := ih middle
      have horphans : orphans session middle args = orphans session fs (operand :: args) := by
        rw [orphans_congr fun names => hfirst.view_eq_directory_iff, orphans, orphans,
          List.filter_cons_of_neg (by simp [hparent])]
      refine ⟨after, ?_, hfirst.append hsecond, ?_⟩
      · simp only [hmade, hrest, horphans]
      · intro hoccupied
        obtain ⟨hhead, htail⟩ := List.forall_mem_cons.mp hoccupied
        obtain rfl := hkept hhead
        exact hstill htail
    · obtain ⟨after, hrest, hsecond, hstill⟩ := ih fs
      have horphans : orphans session fs (operand :: args) =
          operand :: orphans session fs args := by
        rw [orphans, orphans, List.filter_cons_of_pos (by simp [hparent])]
      have hoccupied : ¬ fs.Vacant (place session operand) := fun hvacant => hparent hvacant.2
      have hfirst : Touched fs [place session operand] fs :=
        Touched.of_not_vacant (List.forall_mem_singleton.mpr hoccupied)
      refine ⟨after, ?_, hfirst.append hsecond, ?_⟩
      · rw [hfailed, hrest, horphans, complaints_cons]
      · intro hoccupied
        exact hstill (List.forall_mem_cons.mp hoccupied).2

theorem exists_touch_eq_ok (hfs : session.fileSystem = some fs) (hargs : args ≠ []) :
    ∃ after, touch session args =
        .ok (complaints (orphans session fs args), { session with fileSystem := some after }) ∧
      Touched fs (args.map (place session)) after ∧
      ((∀ operand ∈ args, ¬ fs.Vacant (place session operand)) → after = fs) ∧
      Growth fs after ∧ after.source = fs.source := by
  obtain ⟨after, hforEach, htouched, hkept⟩ := exists_forEach_makeEmptyFile session fs args
  have hgrowth : Growth fs (forEach (makeEmptyFile session) fs args).1 :=
    growth_forEach (fun _ _ _ => growth_makeEmptyFile) fs args
  have hsource := ((adds_makeEmptyFile session).additions_forEach fs args).source_eq
  rw [hforEach] at hgrowth hsource
  refine ⟨after, ?_, htouched, hkept, hgrowth, hsource⟩
  exact (makeAll_eq_ok_iff hfs).mpr ⟨hargs, after, _, hforEach, rfl⟩

end Command

open Command FileSystem

/-- A second call of `touch` with the same operands changes nothing and says what the first one
said. In another order the operands lead to the same tree up to the order of children, with the same
status and the same lines of complaint in some order. -/
theorem Session.touch_is_idempotent_and_ignores_order {session : Session} {fs : FileSystem}
    (hfs : session.fileSystem = some fs) {allowed : String → Prop}
    (hnamed : fs.root.Named allowed) {args : List String} (hargs : args ≠ []) :
    ∃ outcome changed, touch session args = .ok (outcome, changed) ∧
      touch changed args = .ok (outcome, changed) ∧
      ∀ others, args.Perm others → ∃ other reached, touch session others = .ok (other, reached) ∧
        changed.SameUpToOrder reached ∧ outcome.status = other.status ∧
        outcome.stdout = other.stdout ∧
        (Text.lines outcome.stderr.toList).Perm (Text.lines other.stderr.toList) := by
  have hdistinct : fs.root.Named fun _ => True := hnamed.mono fun _ _ => trivial
  obtain ⟨after, htouch, htouched, -, hgrowth, hsource⟩ := exists_touch_eq_ok hfs hargs
  refine ⟨_, _, htouch, ?_, ?_⟩
  · have hafter : { session with fileSystem := some after }.fileSystem = some after := rfl
    obtain ⟨again, hagain, -, hkept, -, -⟩ := exists_touch_eq_ok hafter hargs
    -- the first call leaves none of the places free
    have hsame : again = after := by
      refine hkept ?_
      intro operand hoperand
      exact htouched.not_vacant_of_mem (List.mem_map_of_mem hoperand)
    have horphans : orphans session after args = orphans session fs args :=
      orphans_congr fun names => htouched.view_eq_directory_iff
    rw [hsame] at hagain
    rw [← horphans]
    exact hagain
  · intro others hperm
    have hothers : others ≠ [] := by
      rintro rfl
      exact hargs hperm.eq_nil
    obtain ⟨twin, htwin, htwinTouched, -, htwinGrowth, htwinSource⟩ :=
      exists_touch_eq_ok hfs hothers
    have hview : after.view = twin.view := htouched.view_eq_of_perm htwinTouched (hperm.map _)
    have hroots : after.root.Reordered twin.root := by
      refine (hgrowth.distinct hdistinct).reordered_of_view_eq (htwinGrowth.distinct hdistinct) ?_
      intro names
      exact congrFun hview names
    obtain ⟨hstatus, hlines⟩ := complaints_perm (hperm.filter _)
    refine ⟨_, _, htwin, ⟨rfl, rfl, rfl, .some ⟨hroots, ?_⟩⟩, hstatus, rfl, hlines⟩
    rw [hsource, htwinSource]

/-- A name is missing on the way to one operand, and another operand makes a file of that name. In
either order the one fails and the other succeeds; only the new files come in another order. -/
theorem Session.touch_below_new_file_fails_in_either_order :
    let fs : FileSystem := { root := .directory [("d", .empty)] }
    let one : FileSystem :=
      { root := .directory [("d", .directory [("a", .file "")]), ("n", .file ""), ("b", .file "")] }
    let two : FileSystem :=
      { root := .directory [("d", .directory [("a", .file "")]), ("b", .file ""), ("n", .file "")] }
    let session : Session :=
      { config := { username := "", hostname := "", cwd := "/", home := "/" }
        fileSystem := some fs }
    let args := ["n/x", "d/a", "n", "b"]
    let others := ["b", "n", "d/a", "n/x"]
    let outcome : Outcome :=
      { stderr := "touch: cannot touch 'n/x': No such file or directory\n", status := 1 }
    session.fileSystem = some fs ∧ fs.root.Named (fun _ => True) ∧ args ≠ [] ∧ args.Perm others ∧
      touch session args = .ok (outcome, { session with fileSystem := some one }) ∧
      touch { session with fileSystem := some one } args =
        .ok (outcome, { session with fileSystem := some one }) ∧
      touch session others = .ok (outcome, { session with fileSystem := some two }) ∧
      one.root ≠ two.root ∧
      Session.SameUpToOrder { session with fileSystem := some one }
        { session with fileSystem := some two } := by
  intro fs one two session args others outcome
  have hfs : session.fileSystem = some fs := rfl
  have hnamed : fs.root.Named fun _ => True := by
    refine .directory (by decide) (fun _ _ => trivial) ?_
    intro child hchild
    rw [List.mem_singleton.mp hchild]
    exact .empty
  have hargs : args ≠ [] := List.cons_ne_nil _ _
  have hperm : args.Perm others := by decide
  have hmissing : Path.splitParent (Path.resolve "/" "n/x") = some (["n"], "x") := by decide
  have hinner : Path.splitParent (Path.resolve "/" "d/a") = some (["d"], "a") := by decide
  have hn : Path.splitParent (Path.resolve "/" "n") = some ([], "n") := by decide
  have hb : Path.splitParent (Path.resolve "/" "b") = some ([], "b") := by decide
  have hfirst : touch session args = .ok (outcome, { session with fileSystem := some one }) := by
    simp only [session, args, touch, makeAll, forEach, makeEmptyFile, Session.resolve, makeFile,
      add, hmissing, hinner, hn, hb]
    rfl
  have hsecond :
      touch session others = .ok (outcome, { session with fileSystem := some two }) := by
    simp only [session, others, touch, makeAll, forEach, makeEmptyFile, Session.resolve, makeFile,
      add, hmissing, hinner, hn, hb]
    rfl
  obtain ⟨said, changed, hsaid, hagain, hperms⟩ :=
    touch_is_idempotent_and_ignores_order hfs hnamed hargs
  obtain ⟨other, reached, hother, hsame, -⟩ := hperms others hperm
  obtain ⟨rfl, rfl⟩ := Prod.mk.inj (Except.ok.inj (hfirst.symm.trans hsaid))
  obtain ⟨rfl, rfl⟩ := Prod.mk.inj (Except.ok.inj (hsecond.symm.trans hother))
  exact ⟨hfs, hnamed, hargs, hperm, hfirst, hagain, hsecond, by simp [one, two], hsame⟩

end TreeShell
