import TreeShell.Proofs.Cursor
import TreeShell.Proofs.Words

/-!
# What a line leaves as it was

A command has one of a few effects: it changes nothing, `cd` moves the cursor, `mkdir` and `touch`
add a bare node for each operand whose path is free, and `cp` adds one file. This is shown once,
command by command, and the frame of a line follows by looking through the effects: settings and
document stay, tree and cursor never change together, and a command that fails as a whole changes
nothing.
-/

namespace TreeShell

open FileSystem

/-- The operands, one after the other, each add the node if their path is free and are passed over
if it is not. -/
inductive FileSystem.Additions (resolve : String → String) (new : Node) :
    FileSystem → List String → FileSystem → Prop where
  | nil (fs : FileSystem) : Additions resolve new fs [] fs
  | added {fs middle after : FileSystem} {operand leaf : String} {operands parent : List String}
      (hsegments : Path.segments (resolve operand) = parent ++ [leaf])
      (hupdate : PointUpdate fs parent leaf new middle)
      (hrest : Additions resolve new middle operands after) :
      Additions resolve new fs (operand :: operands) after
  | kept {fs after : FileSystem} {operand : String} {operands : List String}
      (htaken : ¬ fs.IsFree (resolve operand)) (hrest : Additions resolve new fs operands after) :
      Additions resolve new fs (operand :: operands) after

theorem FileSystem.Additions.source_eq {resolve : String → String} {new : Node}
    {fs after : FileSystem} {operands : List String} (h : Additions resolve new fs operands after) :
    after.source = fs.source := by
  induction h with
  | nil fs => rfl
  | added _ hupdate _ ih => rw [ih, hupdate.source_eq]
  | kept _ _ ih => exact ih

/-- The node that a command makes for each of its operands. -/
def Builtin.product? : Builtin → Option Node
  | mkdir => some .empty
  | touch => some (.file "")
  | _ => none

/-- What a command with the given operands can do to a session, and what it replies then. -/
inductive Builtin.Effect (session : Session) (args : List String) :
    Builtin → Reply → Session → Prop where
  /-- Nothing. Where there is a tree, `mkdir` and `touch` come to this only without operands. -/
  | unchanged {builtin : Builtin} {reply : Reply}
      (h : builtin.product?.isSome → session.fileSystem = none ∨ args = []) :
      Effect session args builtin reply session
  | moved {fs : FileSystem} (hfs : session.fileSystem = some fs) (path : String) :
      Effect session args .cd (.done {}) { session with cursor := path }
  | made {builtin : Builtin} {new : Node} {fs after : FileSystem} {outcome : Outcome}
      (hproduct : builtin.product? = some new) (hfs : session.fileSystem = some fs)
      (hadded : fs.Additions session.resolve new args after) :
      Effect session args builtin (.done outcome) { session with fileSystem := some after }
  | copied {fs after : FileSystem} {source target : String} (hfs : session.fileSystem = some fs)
      (hrun : fs.copyFile source target = .ok after) :
      Effect session args .cp (.done {}) { session with fileSystem := some after }

namespace Command

variable {session changed : Session} {outcome : Outcome} {args : List String}

/-! ## Operands -/

theorem not_isFree_of_add {fs : FileSystem} {path operation : String} {new : Node}
    {failure : Failure} (h : fs.add path new operation = .error failure) : ¬ fs.IsFree path := by
  intro hfree
  obtain ⟨after, hafter⟩ := exists_add_eq_ok_iff.mpr hfree
  rw [hafter] at h
  exact absurd h (by simp)

/-- An attempt for one operand adds the node if the path is free, and else leaves the tree alone. -/
structure Adds (session : Session) (new : Node)
    (attempt : FileSystem → String → Except Outcome FileSystem) : Prop where
  ok {fs after : FileSystem} {operand : String} : attempt fs operand = .ok after →
    (¬ fs.IsFree (session.resolve operand) ∧ after = fs) ∨
      ∃ parent leaf, Path.segments (session.resolve operand) = parent ++ [leaf] ∧
        PointUpdate fs parent leaf new after
  error {fs : FileSystem} {operand : String} {complaint : Outcome} :
    attempt fs operand = .error complaint → ¬ fs.IsFree (session.resolve operand)

theorem adds_makeDirectory (session : Session) : Adds session .empty (makeDirectory session) where
  ok := by
    intro fs after operand h
    rw [makeDirectory, mapError_eq_ok_iff] at h
    exact Or.inr (pointUpdate_of_add h fun _ _ => rfl)
  error := by
    intro fs operand complaint h hfree
    obtain ⟨after, hafter⟩ := exists_add_eq_ok_iff.mpr hfree
    rw [makeDirectory, FileSystem.makeDirectory, hafter] at h
    exact absurd h (by simp [Except.mapError])

theorem adds_makeEmptyFile (session : Session) :
    Adds session (.file "") (makeEmptyFile session) where
  ok := by
    intro fs after operand h
    unfold makeEmptyFile at h
    split at h
    · next other hadd =>
      obtain rfl := Except.ok.inj h
      exact Or.inr (pointUpdate_of_add hadd fun _ _ => rfl)
    · next failure hadd =>
      -- what exists is no failure here
      split_ifs at h
      obtain rfl := Except.ok.inj h
      exact Or.inl ⟨not_isFree_of_add hadd, rfl⟩
  error := by
    intro fs operand complaint h
    unfold makeEmptyFile at h
    split at h
    · exact absurd h (by simp)
    · next failure hadd => exact not_isFree_of_add hadd

theorem Adds.additions_forEach {new : Node}
    {attempt : FileSystem → String → Except Outcome FileSystem} (h : Adds session new attempt)
    (fs : FileSystem) (operands : List String) :
    fs.Additions session.resolve new operands (forEach attempt fs operands).1 := by
  induction operands generalizing fs with
  | nil => exact .nil fs
  | cons operand operands ih =>
    rw [forEach]
    split
    · next after hafter =>
      rcases h.ok hafter with ⟨htaken, rfl⟩ | ⟨parent, leaf, hsegments, hupdate⟩
      · exact .kept htaken (ih after)
      · exact .added hsegments hupdate (ih after)
    · next complaint hcomplaint => exact .kept (h.error hcomplaint) (ih fs)

/-! ## Commands one by one -/

theorem makeAll_cases {name missing would : String} {new : Node}
    {attempt : FileSystem → String → Except Outcome FileSystem} (h : Adds session new attempt)
    (hmake : makeAll session name missing would attempt args = .ok (outcome, changed)) :
    session.fileSystem = none ∧ changed = session ∨
      ∃ fs after, session.fileSystem = some fs ∧ fs.Additions session.resolve new args after ∧
        changed = { session with fileSystem := some after } := by
  unfold makeAll at hmake
  split_ifs at hmake
  split at hmake
  · next hfs =>
    obtain ⟨-, rfl⟩ := Prod.mk.inj (Except.ok.inj hmake)
    exact Or.inl ⟨hfs, rfl⟩
  · next fs hfs =>
    obtain ⟨-, rfl⟩ := Prod.mk.inj (Except.ok.inj hmake)
    exact Or.inr ⟨fs, _, hfs, h.additions_forEach fs args, rfl⟩

/-- Only a call without operands fails as a whole. -/
theorem args_eq_nil_of_makeAll {name missing would : String} {failure : CommandFailure}
    {attempt : FileSystem → String → Except Outcome FileSystem}
    (h : makeAll session name missing would attempt args = .error failure) : args = [] := by
  unfold makeAll at h
  split_ifs at h with hempty
  · exact List.isEmpty_iff.mp hempty
  · split at h
    · exact absurd h (by simp)
    · exact absurd h (by simp)

theorem changeDirectory_cases {target : Option String}
    (h : changeDirectory session target = .ok (outcome, changed)) :
    changed = session ∨ outcome = {} ∧ ∃ fs path, session.fileSystem = some fs ∧
      changed = { session with cursor := path } := by
  unfold changeDirectory at h
  split at h
  · obtain ⟨-, rfl⟩ := Prod.mk.inj (Except.ok.inj h)
    exact Or.inl rfl
  · next fs hfs =>
    simp only at h
    split_ifs at h
    obtain ⟨rfl, rfl⟩ := Prod.mk.inj (Except.ok.inj h)
    exact Or.inr ⟨rfl, fs, _, hfs, rfl⟩

theorem cd_cases (h : cd session args = .ok (outcome, changed)) :
    changed = session ∨ outcome = {} ∧ ∃ fs path, session.fileSystem = some fs ∧
      changed = { session with cursor := path } := by
  unfold cd at h
  split at h
  · exact changeDirectory_cases h
  · exact changeDirectory_cases h
  · exact absurd h (by simp)

theorem cp_cases (h : cp session args = .ok (outcome, changed)) :
    changed = session ∨ outcome = {} ∧ ∃ fs after source target, session.fileSystem = some fs ∧
      fs.copyFile source target = .ok after ∧
      changed = { session with fileSystem := some after } := by
  unfold cp at h
  split at h
  · exact absurd h (by simp)
  · exact absurd h (by simp)
  · unfold copy at h
    split at h
    · obtain ⟨-, rfl⟩ := Prod.mk.inj (Except.ok.inj h)
      exact Or.inl rfl
    · next fs hfs =>
      simp only at h
      split at h
      · next after hrun =>
        obtain ⟨rfl, rfl⟩ := Prod.mk.inj (Except.ok.inj h)
        exact Or.inr ⟨rfl, fs, after, _, _, hfs, hrun, rfl⟩
      · exact absurd h (by simp)
  · exact absurd h (by simp)

end Command

namespace Builtin

variable {session changed : Session} {builtin : Builtin} {args : List String} {reply : Reply}

theorem effect_of_makeAll {name missing would : String} {new : Node} {result : Outcome × Session}
    {attempt : FileSystem → String → Except Outcome FileSystem}
    (hproduct : builtin.product? = some new) (hattempt : Command.Adds session new attempt)
    (h : Command.makeAll session name missing would attempt args = .ok result) :
    builtin.Effect session args (.done result.1) result.2 := by
  rcases Command.makeAll_cases hattempt h with ⟨hnone, hsame⟩ | ⟨fs, after, hfs, hadded, hmade⟩
  · rw [hsame]
    exact .unchanged fun _ => Or.inl hnone
  · rw [hmade]
    exact .made hproduct hfs hadded

theorem effect_of_perform {turn : Turn} (h : builtin.perform session args = .ok turn) :
    builtin.Effect session args turn.reply turn.session := by
  have hunchanged {other : Builtin} (hproduct : other.product? = none) (reply : Reply) :
      other.Effect session args reply session :=
    .unchanged fun hsome => absurd hsome (by simp [hproduct])
  cases builtin with
  | ls | echo | pwd | confDump | exit =>
    rw [← Except.ok.inj h]
    exact hunchanged rfl _
  | cat =>
    obtain ⟨outcome, -, rfl⟩ := map_eq_ok_iff.mp h
    exact hunchanged rfl _
  | cd =>
    obtain ⟨⟨outcome, changed⟩, hcd, rfl⟩ := map_eq_ok_iff.mp h
    rcases Command.cd_cases hcd with rfl | ⟨rfl, fs, path, hfs, rfl⟩
    · exact hunchanged rfl _
    · exact .moved hfs path
  | mkdir =>
    obtain ⟨result, hmkdir, rfl⟩ := map_eq_ok_iff.mp h
    exact effect_of_makeAll rfl (Command.adds_makeDirectory session) hmkdir
  | touch =>
    obtain ⟨result, htouch, rfl⟩ := map_eq_ok_iff.mp h
    exact effect_of_makeAll rfl (Command.adds_makeEmptyFile session) htouch
  | cp =>
    obtain ⟨⟨outcome, changed⟩, hcp, rfl⟩ := map_eq_ok_iff.mp h
    rcases Command.cp_cases hcp with rfl | ⟨rfl, fs, after, source, target, hfs, hrun, rfl⟩
    · exact hunchanged rfl _
    · exact .copied hfs hrun

/-- A command that fails as a whole changes nothing, and `mkdir` and `touch` do not fail as a whole
when they have operands. -/
theorem effect_dispatch (builtin : Builtin) (session : Session) (args : List String) :
    builtin.Effect session args (builtin.dispatch session args).reply
      (builtin.dispatch session args).session := by
  unfold dispatch
  split
  · next turn hturn => exact effect_of_perform hturn
  · next failure hfailure =>
    refine .unchanged ?_
    intro hproduct
    cases builtin with
    | mkdir | touch =>
      have hmake := map_eq_error_iff.mp hfailure
      exact Or.inr (Command.args_eq_nil_of_makeAll hmake)
    | ls | cd | echo | cat | pwd | cp | confDump | exit => exact absurd hproduct (by decide)

/-! ## What the effects have in common -/

theorem eq_of_product? {new : Node} (h : builtin.product? = some new) :
    builtin = .mkdir ∧ new = .empty ∨ builtin = .touch ∧ new = .file "" := by
  cases builtin with
  | mkdir => exact Or.inl ⟨rfl, (Option.some.inj h).symm⟩
  | touch => exact Or.inr ⟨rfl, (Option.some.inj h).symm⟩
  | ls | cd | echo | cat | pwd | cp | confDump | exit => exact absurd h (by simp [product?])

namespace Effect

variable (h : builtin.Effect session args reply changed)
include h

theorem config_eq : changed.config = session.config := by
  cases h with
  | unchanged | moved | made | copied => rfl

theorem source_eq :
    changed.fileSystem.map FileSystem.source = session.fileSystem.map FileSystem.source := by
  cases h with
  | unchanged | moved => rfl
  | made _ hfs hadded => rw [hfs, Option.map_some, Option.map_some, hadded.source_eq]
  | @copied fs after source target hfs hrun =>
    have hcopy : (Creation.copy source target).run fs = .ok after := hrun
    obtain ⟨new, parent, leaf, -, -, hupdate⟩ := Creation.pointUpdate_of_run hcopy
    rw [hfs, Option.map_some, Option.map_some, hupdate.source_eq]

theorem fileSystem_eq_or_cursor_eq :
    changed.fileSystem = session.fileSystem ∨ changed.cursor = session.cursor := by
  cases h with
  | unchanged | moved => exact Or.inl rfl
  | made | copied => exact Or.inr rfl

theorem eq_of_fileSystem_eq_none (hnone : session.fileSystem = none) : changed = session := by
  cases h with
  | unchanged => rfl
  | moved hfs | made _ hfs | copied hfs => exact absurd (hnone.symm.trans hfs) (by simp)

/-- Most commands change nothing. -/
theorem eq_of_not_mem (hbuiltin : builtin ∉ [.cd, .mkdir, .touch, .cp]) : changed = session := by
  cases h with
  | unchanged => rfl
  | moved | copied => exact absurd hbuiltin (by decide)
  | made hproduct =>
    rcases eq_of_product? hproduct with ⟨rfl, -⟩ | ⟨rfl, -⟩
    · exact absurd hbuiltin (by decide)
    · exact absurd hbuiltin (by decide)

theorem fileSystem_eq (hbuiltin : builtin = .cd) : changed.fileSystem = session.fileSystem := by
  subst hbuiltin
  cases h with
  | unchanged | moved => rfl
  | made hproduct => exact absurd hproduct (by simp [product?])

theorem cursor_eq (hbuiltin : builtin ≠ .cd) : changed.cursor = session.cursor := by
  cases h with
  | unchanged | made | copied => rfl
  | moved => exact absurd rfl hbuiltin

/-- `cd` and `cp` change nothing if their status is not zero. -/
theorem eq_of_status_ne (hbuiltin : builtin ∈ [.cd, .cp]) {outcome : Outcome}
    (hreply : reply = .done outcome) (hstatus : outcome.status ≠ 0) : changed = session := by
  cases h with
  | unchanged => rfl
  | moved | copied =>
    rw [← Reply.done.inj hreply] at hstatus
    exact absurd rfl hstatus
  | made hproduct =>
    rcases eq_of_product? hproduct with ⟨rfl, -⟩ | ⟨rfl, -⟩
    · exact absurd hbuiltin (by decide)
    · exact absurd hbuiltin (by decide)

theorem additions {new : Node} {fs : FileSystem} (hproduct : builtin.product? = some new)
    (hfs : session.fileSystem = some fs) :
    ∃ after, changed.fileSystem = some after ∧ fs.Additions session.resolve new args after := by
  cases h with
  | unchanged hcalled =>
    rcases hcalled (by simp [hproduct]) with hnone | rfl
    · exact absurd (hnone.symm.trans hfs) (by simp)
    · exact ⟨fs, hfs, .nil fs⟩
  | moved | copied => exact absurd hproduct (by simp [product?])
  | made hother hbefore hadded =>
    obtain rfl := Option.some.inj (hother.symm.trans hproduct)
    obtain rfl := Option.some.inj (hbefore.symm.trans hfs)
    exact ⟨_, rfl, hadded⟩

end Effect

end Builtin

namespace Session

open Builtin

variable {session changed : Session} {line : String} {reply : Reply}

/-! ## Lines -/

/-- What a line can do to a session whose cursor names a directory, and what it replies then. -/
inductive LineEffect (session : Session) (line : String) : Reply → Session → Prop where
  | blank (hline : Text.trim line.toList = []) : LineEffect session line (.done {}) session
  | left {builtin : Builtin} {args : List String} {request : Exit}
      (hwords : Words.ofLine session.config.env line = builtin.name :: args)
      (heffect : builtin.Effect session args (.exit request) session) :
      LineEffect session line (.exit request) session
  | called {builtin : Builtin} {args : List String} {outcome : Outcome} {changed : Session}
      (hwords : Words.ofLine session.config.env line = builtin.name :: args)
      (heffect : builtin.Effect session args (.done outcome) changed) :
      LineEffect session line (.done outcome) { changed with lastStatus := outcome.status }
  | unknown {name : String} {args : List String}
      (hwords : Words.ofLine session.config.env line = name :: args)
      (hname : name ∉ Builtin.all.map Builtin.name) :
      LineEffect session line (.done (CommandFailure.notFound name).outcome)
        { session with lastStatus := 127 }

theorem Anchored.lineEffect_execute (h : session.Anchored) (line : String) :
    session.LineEffect line (session.execute line).reply (session.execute line).session := by
  by_cases hline : Text.trim line.toList = []
  · rw [session.execute_of_trim_eq_nil hline]
    exact .blank hline
  · obtain ⟨name, args, hwords⟩ :=
      List.exists_cons_of_ne_nil (mt Words.ofLine_eq_nil_iff.mp hline)
    rw [reply_execute hwords]
    rcases session.call_cases name args with ⟨builtin, rfl, hcall⟩ | ⟨hname, hcall⟩
    · have heffect := builtin.effect_dispatch session args
      rw [← hcall] at heffect
      cases hreply : (session.call builtin.name args).reply with
      | exit request =>
        rw [session_execute_of_exit hwords hreply]
        rw [hreply] at heffect
        generalize (session.call builtin.name args).session = changed at heffect
        -- the other effects do not come with a request to leave
        cases heffect with
        | unchanged hguard => exact .left hwords (.unchanged hguard)
      | done outcome =>
        rw [hreply] at heffect
        rw [h.session_execute_of_done hwords hreply]
        exact .called hwords heffect
    · have hreply : (session.call name args).reply =
          .done (CommandFailure.notFound name).outcome := by rw [hcall]
      rw [h.session_execute_of_done hwords hreply, hreply, hcall]
      exact .unknown hwords hname

namespace LineEffect

variable (h : session.LineEffect line reply changed)
include h

theorem config_eq : changed.config = session.config := by
  cases h with
  | blank | left | unknown => rfl
  | called hwords heffect => exact heffect.config_eq

theorem source_eq :
    changed.fileSystem.map FileSystem.source = session.fileSystem.map FileSystem.source := by
  cases h with
  | blank | left | unknown => rfl
  | called hwords heffect => exact heffect.source_eq

/-- A line that calls a command has one of the effects of the command, apart from the status. -/
theorem effect {builtin : Builtin} {args : List String}
    (hwords : Words.ofLine session.config.env line = builtin.name :: args) :
    ∃ effected, builtin.Effect session args reply effected ∧
      changed = { effected with lastStatus := changed.lastStatus } := by
  cases h with
  | blank hline =>
    rw [Words.ofLine_eq_nil_iff.mpr hline] at hwords
    exact absurd hwords (by simp)
  | left hother heffect =>
    obtain ⟨hname, rfl⟩ := List.cons.inj (hother.symm.trans hwords)
    obtain rfl := name_injective hname
    exact ⟨session, heffect, rfl⟩
  | called hother heffect =>
    obtain ⟨hname, rfl⟩ := List.cons.inj (hother.symm.trans hwords)
    obtain rfl := name_injective hname
    exact ⟨_, heffect, rfl⟩
  | unknown hother hname =>
    obtain ⟨rfl, rfl⟩ := List.cons.inj (hother.symm.trans hwords)
    exact absurd builtin.name_mem hname

theorem fileSystem_eq_or_cursor_eq :
    changed.fileSystem = session.fileSystem ∨ changed.cursor = session.cursor := by
  cases h with
  | blank | left | unknown => exact Or.inl rfl
  | called hwords heffect => exact heffect.fileSystem_eq_or_cursor_eq

theorem eq_of_fileSystem_eq_none (hnone : session.fileSystem = none) :
    changed = { session with lastStatus := changed.lastStatus } := by
  cases h with
  | blank | left | unknown => rfl
  | called hwords heffect => rw [heffect.eq_of_fileSystem_eq_none hnone]

theorem lastStatus_eq {outcome : Outcome} (hreply : reply = .done outcome)
    (hline : Text.trim line.toList ≠ []) : changed.lastStatus = outcome.status := by
  cases h with
  | blank hblank => exact absurd hblank hline
  | left => exact absurd hreply (by simp)
  | called => rw [← Reply.done.inj hreply]
  | unknown =>
    rw [← Reply.done.inj hreply]
    rfl

/-- Whatever is called by another name than these changes the status at most. -/
theorem eq_of_not_mem {name : String} {args : List String}
    (hwords : Words.ofLine session.config.env line = name :: args)
    (hname : name ∉ ["cd", "mkdir", "touch", "cp"]) :
    changed = { session with lastStatus := changed.lastStatus } := by
  cases h with
  | blank | left | unknown => rfl
  | @called builtin _ _ _ hother heffect =>
    obtain ⟨rfl, rfl⟩ := List.cons.inj (hother.symm.trans hwords)
    have hbuiltin : builtin ∉ [.cd, .mkdir, .touch, .cp] :=
      fun hmem => hname (List.mem_map_of_mem hmem)
    rw [heffect.eq_of_not_mem hbuiltin]

end LineEffect

/-- Settings and document never change. A blank line and a line that asks to leave change nothing
at all, and every other line notes its status. The tree or the cursor stays, and without a tree both
do. Only `cd` moves the cursor, and only `mkdir`, `touch` and `cp` change the tree; `cd` and `cp`
change neither if they fail; and `mkdir` and `touch` add an empty directory or file for each operand
whose path is free when its turn comes, and do nothing else. -/
theorem line_changes_its_share_only {session : Session} (hcursor : session.Anchored)
    (line : String) :
    let turn := session.execute line
    let keeps := turn.session = { session with lastStatus := turn.session.lastStatus }
    turn.session.config = session.config ∧
    turn.session.fileSystem.map FileSystem.source = session.fileSystem.map FileSystem.source ∧
    (Text.trim line.toList = [] → turn.session = session) ∧
    (∀ request, turn.reply = .exit request → turn.session = session) ∧
    (∀ outcome, turn.reply = .done outcome → Text.trim line.toList ≠ [] →
      turn.session.lastStatus = outcome.status) ∧
    (turn.session.fileSystem = session.fileSystem ∨ turn.session.cursor = session.cursor) ∧
    (session.fileSystem = none → keeps) ∧
    ∀ name args, Words.ofLine session.config.env line = name :: args →
      (name ∉ ["cd", "mkdir", "touch", "cp"] → keeps) ∧
      (name = "cd" → turn.session.fileSystem = session.fileSystem) ∧
      (name ∈ ["mkdir", "touch", "cp"] → turn.session.cursor = session.cursor) ∧
      (name ∈ ["cd", "cp"] → ∀ outcome, turn.reply = .done outcome → outcome.status ≠ 0 → keeps) ∧
      ∀ fs, session.fileSystem = some fs →
        (name = "mkdir" → ∃ after, turn.session.fileSystem = some after ∧
          fs.Additions session.resolve .empty args after) ∧
        (name = "touch" → ∃ after, turn.session.fileSystem = some after ∧
          fs.Additions session.resolve (.file "") args after) := by
  intro turn keeps
  have hline : session.LineEffect line turn.reply turn.session := hcursor.lineEffect_execute line
  refine ⟨hline.config_eq, hline.source_eq, ?_, ?_, ?_, hline.fileSystem_eq_or_cursor_eq,
    hline.eq_of_fileSystem_eq_none, ?_⟩
  · intro hblank
    show (session.execute line).session = session
    rw [session.execute_of_trim_eq_nil hblank]
  · intro request hreply
    exact session_eq_of_exit hreply
  · intro outcome hreply hwords
    exact hline.lastStatus_eq hreply hwords
  · intro name args hwords
    -- a name that is known calls the command, and the command has one of its effects
    have heffect (builtin : Builtin) (hname : builtin.name = name) :
        ∃ effected, builtin.Effect session args turn.reply effected ∧
          turn.session = { effected with lastStatus := turn.session.lastStatus } :=
      hline.effect (by rw [hwords, hname])
    refine ⟨hline.eq_of_not_mem hwords, ?_, ?_, ?_, ?_⟩
    · rintro rfl
      obtain ⟨effected, hcd, hsession⟩ := heffect .cd rfl
      rw [hsession]
      exact hcd.fileSystem_eq rfl
    · intro hname
      obtain ⟨builtin, hbuiltin, rfl⟩ :=
        List.mem_map.mp (show name ∈ [.mkdir, .touch, .cp].map Builtin.name from hname)
      obtain ⟨effected, hmakes, hsession⟩ := heffect builtin rfl
      rw [hsession]
      refine hmakes.cursor_eq ?_
      rintro rfl
      exact absurd hbuiltin (by decide)
    · intro hname outcome hreply hstatus
      obtain ⟨builtin, hbuiltin, rfl⟩ :=
        List.mem_map.mp (show name ∈ [.cd, .cp].map Builtin.name from hname)
      obtain ⟨effected, hfails, hsession⟩ := heffect builtin rfl
      rw [hfails.eq_of_status_ne hbuiltin hreply hstatus] at hsession
      exact hsession
    · intro fs hfs
      refine ⟨?_, ?_⟩
      · rintro rfl
        obtain ⟨effected, hmkdir, hsession⟩ := heffect .mkdir rfl
        rw [hsession]
        exact hmkdir.additions rfl hfs
      · rintro rfl
        obtain ⟨effected, htouch, hsession⟩ := heffect .touch rfl
        rw [hsession]
        exact htouch.additions rfl hfs

/-- Of three operands the first names a file and the third lies below the second. -/
theorem mkdir_line_adds_nested_directories :
    let fs : FileSystem := { root := .directory [("a", .file "x")] }
    let session : Session :=
      { config := { username := "", hostname := "", cwd := "/", home := "/" }
        fileSystem := some fs }
    let turn := session.execute "mkdir a d d/e"
    session.Anchored ∧ turn.session.cursor = "/" ∧
      ∃ after, turn.session.fileSystem = some after ∧
        fs.Additions session.resolve .empty ["a", "d", "d/e"] after := by
  intro fs session turn
  have hcursor : session.Anchored := by
    intro other hother
    obtain rfl := Option.some.inj hother
    exact isDirectory_root _
  have hwords : Words.ofLine session.config.env "mkdir a d d/e" = ["mkdir", "a", "d", "d/e"] := by
    cbv
  obtain ⟨-, -, -, -, -, -, -, hcalled⟩ := line_changes_its_share_only hcursor "mkdir a d d/e"
  obtain ⟨-, -, hstays, -, hmakes⟩ := hcalled _ _ hwords
  exact ⟨hcursor, hstays (by decide), (hmakes fs rfl).1 rfl⟩

end Session

end TreeShell
