import TreeShell.Proofs.Diagnostics
import TreeShell.Proofs.Frame

/-!
# Operands one after the other

`mkdir`, `touch` and `cat` treat their operands one after the other. A call with two lists of
operands behind one another is therefore a call with the first list and then, in the session that it
leaves, a call with the second: what they write is joined, and the graver status counts. An operand
that fails leaves the session as it was, so that those behind it are treated as if it were not
there; and an operand is looked up in the tree that those before it have left.
-/

namespace TreeShell

open FileSystem

namespace Outcome

theorem andThen_assoc (first second third : Outcome) :
    (first.andThen second).andThen third = first.andThen (second.andThen third) := by
  simp only [andThen, String.append_assoc, Int.max_assoc]

theorem Consistent.empty_andThen {outcome : Outcome} (h : outcome.Consistent) :
    ({} : Outcome).andThen outcome = outcome := by
  have hstatus : max 0 outcome.status = outcome.status := Int.max_eq_right h.status_nonneg
  simp only [Outcome.andThen, String.empty_append, hstatus]

theorem sequence_append {outcomes others : List Outcome}
    (hothers : ∀ outcome ∈ others, outcome.Consistent) :
    sequence (outcomes ++ others) = (sequence outcomes).andThen (sequence others) := by
  induction outcomes with
  | nil => exact (consistent_sequence hothers).empty_andThen.symm
  | cons outcome outcomes ih =>
    show outcome.andThen (sequence (outcomes ++ others)) = _
    rw [ih, ← andThen_assoc]
    rfl

end Outcome

/-- What was done tells what was said and which session was left. -/
theorem Turn.done_inj {first second : Outcome} {session changed : Session}
    (h : (Except.ok { reply := .done first, session } : Except CommandFailure Turn) =
      .ok { reply := .done second, session := changed }) :
    first = second ∧ session = changed := by
  obtain ⟨hreply, hsession⟩ := Turn.mk.inj (Except.ok.inj h)
  exact ⟨Reply.done.inj hreply, hsession⟩

namespace Command

variable {session : Session} {fs middle last : FileSystem} {first second outcome : Outcome}
  {earlier later args : List String}
  {attempt : FileSystem → String → Except Outcome FileSystem}

/-- The operands behind are treated in the tree that the operands before have left. -/
theorem forEach_append
    (hattempt : ∀ fs operand complaint, attempt fs operand = .error complaint →
      complaint.Consistent)
    (hearlier : forEach attempt fs earlier = (middle, first))
    (hlater : forEach attempt middle later = (last, second)) :
    forEach attempt fs (earlier ++ later) = (last, first.andThen second) := by
  -- for every tree: an operand that succeeds hands another one on
  induction earlier generalizing fs first with
  | nil =>
    obtain ⟨rfl, rfl⟩ := Prod.mk.inj hearlier
    have hconsistent : second.Consistent := by
      have hall := consistent_forEach hattempt fs later
      rwa [hlater] at hall
    rw [List.nil_append, hlater, hconsistent.empty_andThen]
  | cons operand earlier ih =>
    rw [forEach] at hearlier
    rw [List.cons_append, forEach]
    cases hfirst : attempt fs operand with
    | ok changed =>
      rw [hfirst] at hearlier
      exact ih hearlier
    | error complaint =>
      rw [hfirst] at hearlier
      cases hrest : forEach attempt fs earlier with
      | mk after others =>
        rw [hrest] at hearlier
        obtain ⟨rfl, rfl⟩ := Prod.mk.inj hearlier
        simp only [ih hrest, Outcome.andThen_assoc]

/-- An operand alone succeeds without a word, or is complained of and changes nothing. -/
theorem forEach_singleton_cases (attempt : FileSystem → String → Except Outcome FileSystem)
    (fs : FileSystem) (operand : String) :
    (∃ after, attempt fs operand = .ok after ∧ forEach attempt fs [operand] = (after, {})) ∨
      ∃ complaint, attempt fs operand = .error complaint ∧
        forEach attempt fs [operand] = (fs, complaint.andThen {}) := by
  cases hattempt : attempt fs operand with
  | ok after => exact Or.inl ⟨after, rfl, by rw [forEach, hattempt]; rfl⟩
  | error complaint => exact Or.inr ⟨complaint, rfl, by rw [forEach, hattempt]; rfl⟩

theorem makeAll_eq_ok_iff {name missing would : String} {result : Outcome × Session}
    (hfs : session.fileSystem = some fs) :
    makeAll session name missing would attempt args = .ok result ↔
      args ≠ [] ∧ ∃ after outcome, forEach attempt fs args = (after, outcome) ∧
        result = (outcome, { session with fileSystem := some after }) := by
  rw [makeAll, hfs]
  cases args with
  | nil => simp
  | cons operand operands =>
    cases hforEach : forEach attempt fs (operand :: operands) with
    | mk after outcome => simp [hforEach, eq_comm]

theorem cat_eq_ok_iff (hfs : session.fileSystem = some fs) :
    cat session args = .ok outcome ↔
      args ≠ [] ∧ outcome = Outcome.sequence (args.map (catOperand session fs)) := by
  rw [cat, hfs]
  cases args with
  | nil => simp
  | cons operand operands => simp [eq_comm]

end Command

namespace Builtin

/-- A command that treats its operands one after the other, where there is a tree. -/
structure OneByOne (builtin : Builtin) : Prop where
  /-- With operands the command is carried out, and a tree is left. -/
  runs {session : Session} {fs : FileSystem} {args : List String}
    (hfs : session.fileSystem = some fs) (hargs : args ≠ []) :
    ∃ outcome changed after, changed.fileSystem = some after ∧
      builtin.perform session args = .ok { reply := .done outcome, session := changed }
  /-- More operands behind are treated in the session that the operands before have left. -/
  append {session middle last : Session} {fs : FileSystem} {first second : Outcome}
    {earlier later : List String} (hfs : session.fileSystem = some fs)
    (hearlier : builtin.perform session earlier = .ok { reply := .done first, session := middle })
    (hlater : builtin.perform middle later = .ok { reply := .done second, session := last }) :
    builtin.perform session (earlier ++ later) =
      .ok { reply := .done (first.andThen second), session := last }
  /-- An operand that fails changes nothing. -/
  unchanged {session changed : Session} {fs : FileSystem} {operand : String} {said : Outcome}
    (hfs : session.fileSystem = some fs)
    (hoperand : builtin.perform session [operand] = .ok { reply := .done said, session := changed })
    (hfailed : said.status ≠ 0) : changed = session

variable {builtin : Builtin} {session : Session} {fs : FileSystem}

section Making

variable {name missing would : String}
  {attempt : Session → FileSystem → String → Except Outcome FileSystem}
  (hperform : ∀ session args, builtin.perform session args =
    (Command.makeAll session name missing would (attempt session) args).map
      fun result => { reply := .done result.1, session := result.2 })

include hperform

theorem perform_eq_ok_iff_of_makeAll {args : List String} {outcome : Outcome} {changed : Session}
    (hfs : session.fileSystem = some fs) :
    builtin.perform session args = .ok { reply := .done outcome, session := changed } ↔
      args ≠ [] ∧ ∃ after, Command.forEach (attempt session) fs args = (after, outcome) ∧
        changed = { session with fileSystem := some after } := by
  rw [hperform, map_eq_ok_iff]
  simp only [Command.makeAll_eq_ok_iff hfs]
  constructor
  · rintro ⟨result, ⟨hargs, after, said, hforEach, rfl⟩, hturn⟩
    obtain ⟨rfl, rfl⟩ := Turn.done_inj (congrArg Except.ok hturn)
    exact ⟨hargs, after, hforEach, rfl⟩
  · rintro ⟨hargs, after, hforEach, rfl⟩
    exact ⟨_, ⟨hargs, after, outcome, hforEach, rfl⟩, rfl⟩

theorem oneByOne_of_makeAll
    (hattempt : ∀ session fs operand complaint, attempt session fs operand = .error complaint →
      complaint.Consistent)
    (hframe : ∀ session fs, attempt { session with fileSystem := fs } = attempt session) :
    builtin.OneByOne where
  runs {session fs args} hfs hargs := by
    cases hforEach : Command.forEach (attempt session) fs args with
    | mk after outcome =>
      exact ⟨outcome, { session with fileSystem := some after }, after, rfl,
        (perform_eq_ok_iff_of_makeAll hperform hfs).mpr ⟨hargs, after, hforEach, rfl⟩⟩
  append {session middle last fs first second earlier later} hfs hearlier hlater := by
    obtain ⟨hne, between, hfirst, rfl⟩ := (perform_eq_ok_iff_of_makeAll hperform hfs).mp hearlier
    obtain ⟨-, after, hsecond, rfl⟩ := (perform_eq_ok_iff_of_makeAll hperform rfl).mp hlater
    rw [hframe] at hsecond
    refine (perform_eq_ok_iff_of_makeAll hperform hfs).mpr ⟨?_, after, ?_, rfl⟩
    · exact List.append_ne_nil_of_left_ne_nil hne later
    · exact Command.forEach_append (hattempt session) hfirst hsecond
  unchanged {session changed fs operand said} hfs hoperand hfailed := by
    obtain ⟨-, after, hforEach, rfl⟩ := (perform_eq_ok_iff_of_makeAll hperform hfs).mp hoperand
    rcases Command.forEach_singleton_cases (attempt session) fs operand with
      ⟨other, -, hsucceeded⟩ | ⟨complaint, -, hcomplained⟩
    · rw [hsucceeded] at hforEach
      obtain ⟨-, rfl⟩ := Prod.mk.inj hforEach
      exact absurd rfl hfailed
    · rw [hcomplained] at hforEach
      obtain ⟨rfl, -⟩ := Prod.mk.inj hforEach
      rw [← hfs]

end Making

theorem perform_cat_eq_ok_iff {args : List String} {outcome : Outcome} {changed : Session}
    (hfs : session.fileSystem = some fs) :
    cat.perform session args = .ok { reply := .done outcome, session := changed } ↔
      args ≠ [] ∧ outcome = Outcome.sequence (args.map (Command.catOperand session fs)) ∧
        changed = session := by
  rw [perform, map_eq_ok_iff]
  simp only [Command.cat_eq_ok_iff hfs]
  constructor
  · rintro ⟨said, ⟨hargs, hsaid⟩, hturn⟩
    obtain ⟨rfl, rfl⟩ := Turn.done_inj (congrArg Except.ok hturn)
    exact ⟨hargs, hsaid, rfl⟩
  · rintro ⟨hargs, hsaid, rfl⟩
    exact ⟨outcome, ⟨hargs, hsaid⟩, rfl⟩

theorem oneByOne_cat : cat.OneByOne where
  runs {session fs args} hfs hargs :=
    ⟨_, session, fs, hfs, (perform_cat_eq_ok_iff hfs).mpr ⟨hargs, rfl, rfl⟩⟩
  append {session middle last fs first second earlier later} hfs hearlier hlater := by
    obtain ⟨hne, rfl, rfl⟩ := (perform_cat_eq_ok_iff hfs).mp hearlier
    obtain ⟨-, rfl, rfl⟩ := (perform_cat_eq_ok_iff hfs).mp hlater
    have hconsistent : ∀ outcome ∈ later.map (Command.catOperand last fs), outcome.Consistent := by
      intro outcome houtcome
      obtain ⟨operand, -, rfl⟩ := List.mem_map.mp houtcome
      exact Command.consistent_catOperand last fs operand
    refine (perform_cat_eq_ok_iff hfs).mpr ⟨List.append_ne_nil_of_left_ne_nil hne later, ?_, rfl⟩
    rw [List.map_append, Outcome.sequence_append hconsistent]
  unchanged {session changed fs operand said} hfs hoperand _ :=
    ((perform_cat_eq_ok_iff hfs).mp hoperand).2.2

theorem perform_mkdir (session : Session) (args : List String) :
    mkdir.perform session args =
      (Command.makeAll session "mkdir" "missing operand" "directory"
        (Command.makeDirectory session) args).map
          fun result => { reply := .done result.1, session := result.2 } := rfl

theorem perform_touch (session : Session) (args : List String) :
    touch.perform session args =
      (Command.makeAll session "touch" "missing file operand" "file"
        (Command.makeEmptyFile session) args).map
          fun result => { reply := .done result.1, session := result.2 } := rfl

theorem oneByOne_mkdir : mkdir.OneByOne :=
  oneByOne_of_makeAll perform_mkdir
    (fun session _ _ _ => Command.consistent_makeDirectory session) fun _ _ => rfl

theorem oneByOne_touch : touch.OneByOne :=
  oneByOne_of_makeAll perform_touch
    (fun session _ _ _ => Command.consistent_makeEmptyFile session) fun _ _ => rfl

theorem oneByOne_of_mem (h : builtin ∈ [mkdir, touch, cat]) : builtin.OneByOne := by
  simp only [List.mem_cons, List.not_mem_nil, or_false] at h
  rcases h with rfl | rfl | rfl
  · exact oneByOne_mkdir
  · exact oneByOne_touch
  · exact oneByOne_cat

/-- An operand that fails may stand anywhere: its complaint comes between what the others write, and
the session that is left is the same without it. -/
theorem OneByOne.append_of_failed (h : builtin.OneByOne) {middle after last : Session}
    {first said second : Outcome} {earlier later : List String} {operand : String}
    {between : FileSystem} (hfs : session.fileSystem = some fs)
    (hbetween : middle.fileSystem = some between)
    (hearlier : builtin.perform session earlier = .ok { reply := .done first, session := middle })
    (hoperand : builtin.perform middle [operand] = .ok { reply := .done said, session := after })
    (hlater : builtin.perform middle later = .ok { reply := .done second, session := last })
    (hfailed : said.status ≠ 0) :
    builtin.perform session (earlier ++ operand :: later) =
      .ok { reply := .done ((first.andThen said).andThen second), session := last } := by
  obtain rfl := h.unchanged hbetween hoperand hfailed
  have hbehind := h.append hbetween hoperand hlater
  rw [Outcome.andThen_assoc]
  exact h.append hfs hearlier hbehind

theorem perform_mkdir_singleton {operand : String} {after : FileSystem}
    (hfs : session.fileSystem = some fs)
    (h : fs.makeDirectory (session.resolve operand) = .ok after) :
    mkdir.perform session [operand] =
      .ok { reply := .done {}, session := { session with fileSystem := some after } } := by
  have hattempt : Command.makeDirectory session fs operand = .ok after := mapError_eq_ok_iff.mpr h
  refine (perform_eq_ok_iff_of_makeAll perform_mkdir hfs).mpr
    ⟨List.cons_ne_nil _ _, after, ?_, rfl⟩
  rw [Command.forEach, hattempt]
  rfl

/-- Directories can be made in a directory that an operand before them has made. -/
theorem perform_mkdir_inside {session made : Session} {dir inner name : String}
    (hfs : session.fileSystem = some fs)
    (hinner : Path.segments (session.resolve inner) = Path.segments (session.resolve dir) ++ [name])
    (hdir : mkdir.perform session [dir] = .ok { reply := .done {}, session := made }) :
    ∃ nested after, nested.fileSystem = some after ∧
      after.isDirectory (session.resolve inner) = true ∧
      mkdir.perform made [inner] = .ok { reply := .done {}, session := nested } := by
  obtain ⟨-, between, hforEach, rfl⟩ := (perform_eq_ok_iff_of_makeAll perform_mkdir hfs).mp hdir
  -- the first operand has not failed, so that it has made an empty directory
  have hmade : fs.makeDirectory (session.resolve dir) = .ok between := by
    rcases Command.forEach_singleton_cases (Command.makeDirectory session) fs dir with
      ⟨after, hattempt, hsucceeded⟩ | ⟨complaint, hattempt, hcomplained⟩
    · rw [hsucceeded] at hforEach
      obtain ⟨rfl, -⟩ := Prod.mk.inj hforEach
      exact mapError_eq_ok_iff.mp hattempt
    · obtain ⟨failure, -, rfl⟩ := mapError_eq_error_iff.mp hattempt
      rw [hcomplained] at hforEach
      have hstatus := congrArg (fun result => result.2.status) hforEach
      exact absurd hstatus (show (1 : Int) ≠ 0 by decide)
  obtain ⟨parent, leaf, hsegments, hupdate⟩ := pointUpdate_of_add hmade fun _ _ => rfl
  have hfree : between.IsFree (session.resolve inner) := by
    rw [isFree_iff_view, hinner, List.dropLast_concat, hsegments, view_eq_none_iff,
      Node.walk?_append, hupdate.walk?_eq, view, Node.view, hupdate.walk?_eq]
    exact ⟨rfl, rfl⟩
  obtain ⟨after, hafter⟩ :
      ∃ after, between.add (session.resolve inner) .empty "mkdir" = .ok after :=
    exists_add_eq_ok_iff.mpr hfree
  obtain ⟨front, last, hfront, hnested⟩ := pointUpdate_of_add hafter fun _ _ => rfl
  refine ⟨{ session with fileSystem := some after }, after, rfl, ?_, ?_⟩
  · rw [isDirectory_iff, hfront, hnested.view_eq, Function.update_self]
    rfl
  · exact perform_mkdir_singleton rfl hafter

end Builtin

/-- With a tree, `mkdir`, `touch` and `cat` do with two lists of operands what they do with the
first and then with the second: the session that is left is the same, the output is joined, and the
graver status counts. An operand that fails between the two changes nothing and keeps nothing else
from being done; and an operand may lie in a directory that one before it has made. -/
theorem Session.operands_are_treated_one_by_one {session : Session} {fs : FileSystem}
    (hfs : session.fileSystem = some fs) {builtin : Builtin}
    (hbuiltin : builtin ∈ [Builtin.mkdir, .touch, .cat]) {earlier later : List String}
    (hearlier : earlier ≠ []) (hlater : later ≠ []) :
    (∃ first second middle last,
      builtin.perform session earlier = .ok { reply := .done first, session := middle } ∧
      builtin.perform middle later = .ok { reply := .done second, session := last } ∧
      builtin.perform session (earlier ++ later) =
        .ok
          { reply := .done
              { stdout := first.stdout ++ second.stdout
                stderr := first.stderr ++ second.stderr
                status := max first.status second.status }
            session := last } ∧
      ∀ operand, ∃ said after,
        builtin.perform middle [operand] = .ok { reply := .done said, session := after } ∧
        (said.status ≠ 0 →
          after = middle ∧
          builtin.perform session (earlier ++ operand :: later) =
            .ok
              { reply := .done
                  { stdout := first.stdout ++ said.stdout ++ second.stdout
                    stderr := first.stderr ++ said.stderr ++ second.stderr
                    status := max (max first.status said.status) second.status }
                session := last })) ∧
    ∀ dir inner name made,
      Path.segments (session.resolve inner) = Path.segments (session.resolve dir) ++ [name] →
      Builtin.mkdir.perform session [dir] = .ok { reply := .done {}, session := made } →
      ∃ nested after, nested.fileSystem = some after ∧
        after.isDirectory (session.resolve inner) = true ∧
        Builtin.mkdir.perform session [dir, inner] =
          .ok { reply := .done {}, session := nested } := by
  have hinTurn : builtin.OneByOne := Builtin.oneByOne_of_mem hbuiltin
  constructor
  · obtain ⟨first, middle, between, hbetween, hfirst⟩ := hinTurn.runs hfs hearlier
    obtain ⟨second, last, -, -, hsecond⟩ := hinTurn.runs hbetween hlater
    refine ⟨first, second, middle, last, hfirst, hsecond, hinTurn.append hfs hfirst hsecond, ?_⟩
    intro operand
    obtain ⟨said, after, -, -, hsaid⟩ := hinTurn.runs hbetween (List.cons_ne_nil operand [])
    refine ⟨said, after, hsaid, ?_⟩
    intro hfailed
    exact ⟨hinTurn.unchanged hbetween hsaid hfailed,
      hinTurn.append_of_failed hfs hbetween hfirst hsaid hsecond hfailed⟩
  · intro dir inner name made hinner hdir
    obtain ⟨nested, after, hafter, hdirectory, hinside⟩ :=
      Builtin.perform_mkdir_inside hfs hinner hdir
    exact ⟨nested, after, hafter, hdirectory, Builtin.oneByOne_mkdir.append hfs hdir hinside⟩

/-- The second of three operands fails, and the third lies in the directory that the first has
made. -/
theorem Session.mkdir_goes_on_after_failed_operand :
    let session : Session :=
      { config := { username := "", hostname := "", cwd := "/", home := "/" }
        fileSystem := some .empty }
    let made : FileSystem := { root := .directory [("a", .directory [])] }
    let nested : FileSystem := { root := .directory [("a", .directory [("b", .directory [])])] }
    let said : Outcome :=
      { stderr := "mkdir: cannot create directory 'c/d': No such file or directory\n", status := 1 }
    session.fileSystem = some .empty ∧ Builtin.mkdir ∈ [Builtin.mkdir, .touch, .cat] ∧
      ["a"] ≠ [] ∧ ["a/b"] ≠ [] ∧
      Builtin.mkdir.perform session ["a"] =
        .ok { reply := .done {}, session := { session with fileSystem := some made } } ∧
      Builtin.mkdir.perform session ["a", "c/d", "a/b"] =
        .ok { reply := .done said, session := { session with fileSystem := some nested } } := by
  intro session made nested said
  have hfs : session.fileSystem = some .empty := rfl
  have hmkdir : Builtin.mkdir ∈ [Builtin.mkdir, .touch, .cat] := by decide
  have ha : Path.splitParent (Path.resolve "/" "a") = some ([], "a") := by decide
  have hab : Path.splitParent (Path.resolve "/" "a/b") = some (["a"], "b") := by decide
  have hcd : Path.splitParent (Path.resolve "/" "c/d") = some (["c"], "d") := by decide
  have hmade : Builtin.mkdir.perform session ["a"] =
      .ok { reply := .done {}, session := { session with fileSystem := some made } } := by
    refine Builtin.perform_mkdir_singleton hfs ?_
    simp only [session, Session.resolve, FileSystem.makeDirectory, add, ha]
    rfl
  have hnested : Builtin.mkdir.perform { session with fileSystem := some made } ["a/b"] =
      .ok { reply := .done {}, session := { session with fileSystem := some nested } } := by
    refine Builtin.perform_mkdir_singleton rfl ?_
    simp only [session, Session.resolve, FileSystem.makeDirectory, add, hab]
    rfl
  have hsaid : Builtin.mkdir.perform { session with fileSystem := some made } ["c/d"] =
      .ok { reply := .done said, session := { session with fileSystem := some made } } := by
    simp only [session, Builtin.perform_mkdir, Command.makeAll, Command.forEach,
      Command.makeDirectory, Session.resolve, FileSystem.makeDirectory, add, hcd]
    rfl
  obtain ⟨⟨first, second, middle, last, hfirst, hsecond, -, hbetween⟩, -⟩ :=
    operands_are_treated_one_by_one hfs hmkdir (List.cons_ne_nil "a" []) (List.cons_ne_nil "a/b" [])
  obtain ⟨complaint, after, hcomplaint, hgoesOn⟩ := hbetween "c/d"
  obtain ⟨rfl, rfl⟩ := Turn.done_inj (hmade.symm.trans hfirst)
  obtain ⟨rfl, rfl⟩ := Turn.done_inj (hnested.symm.trans hsecond)
  obtain ⟨rfl, rfl⟩ := Turn.done_inj (hsaid.symm.trans hcomplaint)
  obtain ⟨-, hall⟩ := hgoesOn (by decide)
  simp only [String.empty_append, String.append_empty] at hall
  exact ⟨hfs, hmkdir, List.cons_ne_nil _ _, List.cons_ne_nil _ _, hmade, hall⟩

end TreeShell
