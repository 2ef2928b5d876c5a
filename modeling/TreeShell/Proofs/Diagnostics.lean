import TreeShell.Proofs.Lines
import TreeShell.Proofs.Runs

/-!
# Statuses and diagnostics

The status of a command is zero just when it writes nothing to the standard error, and what it
writes there is whole lines. Each complaint is made together with its status, and putting outcomes
one after the other keeps the two in agreement, so that it holds of commands with any number of
operands. A status tells what kind of failure there was: the commands use 1 and 2, and 127 is left
for words that call none of them.
-/

namespace TreeShell

/-! ## Outcomes -/

/-- The status of an outcome agrees with what was written to the standard error. -/
structure Outcome.Consistent (outcome : Outcome) : Prop where
  status_mem : outcome.status ∈ [0, 1, 2]
  status_eq_zero_iff : outcome.status = 0 ↔ outcome.stderr = ""
  isEnded_stderr : Text.IsEnded outcome.stderr

namespace Outcome

theorem consistent_of_stdout (stdout : String) : Consistent { stdout } where
  status_mem := List.mem_cons_self
  status_eq_zero_iff := iff_of_true rfl rfl
  isEnded_stderr := Or.inl rfl

theorem consistent_of_complaint {complaint : String} {status : Int}
    (hended : complaint.toList.getLast? = some '\n') (hstatus : status = 1 ∨ status = 2) :
    Consistent { stderr := complaint, status } where
  status_mem := by
    show status ∈ [0, 1, 2]
    rcases hstatus with rfl | rfl
    · decide
    · decide
  status_eq_zero_iff := by
    refine iff_of_false ?_ (Text.ne_empty_of_getLast? hended)
    show status ≠ 0
    omega
  isEnded_stderr := Or.inr hended

theorem Consistent.status_nonneg {outcome : Outcome} (h : outcome.Consistent) :
    0 ≤ outcome.status := by
  have hle : ∀ status ∈ [0, 1, 2], (0 : Int) ≤ status := by decide
  exact hle outcome.status h.status_mem

/-- The graver of two statuses is zero just when both are, and then neither outcome complains. -/
theorem Consistent.andThen {first second : Outcome} (hfirst : first.Consistent)
    (hsecond : second.Consistent) : (first.andThen second).Consistent where
  status_mem := by
    show max first.status second.status ∈ _
    by_cases hle : first.status ≤ second.status
    · rw [Int.max_eq_right hle]
      exact hsecond.status_mem
    · rw [Int.max_eq_left (by omega)]
      exact hfirst.status_mem
  status_eq_zero_iff := by
    show max first.status second.status = 0 ↔ first.stderr ++ second.stderr = ""
    have hnonneg := hfirst.status_nonneg
    have hnonneg' := hsecond.status_nonneg
    have hmax : max first.status second.status = 0 ↔ first.status = 0 ∧ second.status = 0 := by
      omega
    rw [hmax, hfirst.status_eq_zero_iff, hsecond.status_eq_zero_iff, String.append_eq_empty_iff]
  isEnded_stderr := hfirst.isEnded_stderr.append hsecond.isEnded_stderr

theorem consistent_sequence {outcomes : List Outcome}
    (h : ∀ outcome ∈ outcomes, outcome.Consistent) : (sequence outcomes).Consistent := by
  induction outcomes with
  | nil => exact consistent_of_stdout ""
  | cons outcome outcomes ih =>
    obtain ⟨houtcome, houtcomes⟩ := List.forall_mem_cons.mp h
    exact houtcome.andThen (ih houtcomes)

/-- One outcome alone is a sequence of itself. -/
theorem Consistent.sequence_singleton {outcome : Outcome} (h : outcome.Consistent) :
    sequence [outcome] = outcome := by
  have hstdout : outcome.stdout ++ "" = outcome.stdout := String.append_empty
  have hstderr : outcome.stderr ++ "" = outcome.stderr := String.append_empty
  have hstatus : max outcome.status 0 = outcome.status := Int.max_eq_left h.status_nonneg
  show (⟨outcome.stdout ++ "", outcome.stderr ++ "", max outcome.status 0⟩ : Outcome) = outcome
  rw [hstdout, hstderr, hstatus]

end Outcome

/-- The request to leave has the status of a process, and one of its texts and not the other is
written. -/
structure Exit.Consistent (request : Exit) : Prop where
  status_nonneg : 0 ≤ request.status
  status_le : request.status ≤ 255
  stdout_eq_empty_iff : request.stdout = "" ↔ request.stderr ≠ ""
  isEnded_stdout : Text.IsEnded request.stdout
  isEnded_stderr : Text.IsEnded request.stderr
  status_of_stderr : request.stderr ≠ "" → request.status = 1

namespace Exit

theorem consistent_of_stdout {stdout : String} {status : Nat}
    (hended : stdout.toList.getLast? = some '\n') (hstatus : status < 256) :
    Consistent { status, stdout } where
  status_nonneg := Int.natCast_nonneg status
  status_le := by
    show (status : Int) ≤ 255
    omega
  stdout_eq_empty_iff := iff_of_false (Text.ne_empty_of_getLast? hended) (absurd rfl)
  isEnded_stdout := Or.inr hended
  isEnded_stderr := Or.inl rfl
  status_of_stderr := absurd rfl

theorem consistent_of_complaint {complaint : String}
    (hended : complaint.toList.getLast? = some '\n') :
    Consistent { status := 1, stderr := complaint } where
  status_nonneg := Int.one_nonneg
  status_le := by
    show (1 : Int) ≤ 255
    decide
  stdout_eq_empty_iff := iff_of_true rfl (Text.ne_empty_of_getLast? hended)
  isEnded_stdout := Or.inl rfl
  isEnded_stderr := Or.inr hended
  status_of_stderr _ := rfl

end Exit

/-! ## Commands one by one -/

theorem CommandFailure.status_ne_zero (failure : CommandFailure) : failure.status ≠ 0 := by
  cases failure with
  | notFound | usage | execution | fileSystem => simp [status]

/-- A failure of a command that was found. -/
theorem CommandFailure.consistent_outcome {failure : CommandFailure}
    (h : ∀ name, failure ≠ .notFound name) : failure.outcome.Consistent := by
  refine Outcome.consistent_of_complaint (Text.getLast?_append rfl _) ?_
  cases failure with
  | notFound name => exact absurd rfl (h name)
  | usage => exact Or.inr rfl
  | execution | fileSystem => exact Or.inl rfl

/-- What a command says when it succeeds is consistent, and when it fails as a whole it does not
say that there is no such command. -/
structure Command.Speaks {α : Type} (said : α → Outcome) (result : Except CommandFailure α) :
    Prop where
  ok {value : α} : result = .ok value → (said value).Consistent
  error {failure : CommandFailure} : result = .error failure → ∀ name, failure ≠ .notFound name

namespace Command

section

variable {α : Type} {said : α → Outcome}

theorem speaks_ok {value : α} (h : (said value).Consistent) : Speaks said (.ok value) where
  ok := by
    rintro other ⟨⟩
    exact h
  error := by
    intro failure hfailure
    exact absurd hfailure (by simp)

theorem speaks_error {failure : CommandFailure} (h : ∀ name, failure ≠ .notFound name) :
    Speaks said (.error failure) where
  ok := by
    intro value hvalue
    exact absurd hvalue (by simp)
  error := by
    rintro other ⟨⟩
    exact h

theorem speaks_usage (command message : String) : Speaks said (.error (.usage command message)) :=
  speaks_error fun _ => CommandFailure.noConfusion

theorem speaks_execution (command message : String) :
    Speaks said (.error (.execution command message)) :=
  speaks_error fun _ => CommandFailure.noConfusion

theorem Speaks.consistent_of_map {result : Except CommandFailure α} (h : Speaks said result)
    {turn : Turn} {outcome : Outcome} {f : α → Turn}
    (hf : ∀ value, (f value).reply = .done (said value)) (hok : result.map f = .ok turn)
    (hdone : turn.reply = .done outcome) : outcome.Consistent := by
  obtain ⟨value, hvalue, rfl⟩ := map_eq_ok_iff.mp hok
  rw [← Reply.done.inj ((hf value).symm.trans hdone)]
  exact h.ok hvalue

end

variable (session : Session) (args : List String)

theorem consistent_listOperand (fs : FileSystem) (heading operand : String) :
    (listOperand session fs heading operand).Consistent := by
  unfold listOperand
  simp only
  split
  · exact Outcome.consistent_of_stdout _
  · split
    · exact Outcome.consistent_of_stdout _
    · exact Outcome.consistent_of_complaint (Text.getLast?_append rfl _) (Or.inr rfl)

theorem consistent_ls : (ls session args).Consistent := by
  unfold ls
  split
  · exact Outcome.consistent_of_stdout _
  · next fs _ =>
    split
    · exact consistent_listOperand session fs _ _
    · exact consistent_listOperand session fs _ _
    · refine Outcome.consistent_sequence ?_
      intro outcome houtcome
      -- only the heading of the first operand is another one
      cases args with
      | nil => exact absurd houtcome List.not_mem_nil
      | cons first others =>
        rcases List.mem_cons.mp houtcome with rfl | hother
        · exact consistent_listOperand session fs _ _
        · obtain ⟨operand, -, rfl⟩ := List.mem_map.mp hother
          exact consistent_listOperand session fs _ _

theorem speaks_changeDirectory (target : Option String) :
    Speaks Prod.fst (changeDirectory session target) := by
  unfold changeDirectory
  split
  · exact speaks_ok (Outcome.consistent_of_stdout _)
  · simp only
    split_ifs
    · exact speaks_ok (Outcome.consistent_of_stdout "")
    · exact speaks_execution _ _
    · exact speaks_execution _ _

theorem speaks_cd : Speaks Prod.fst (cd session args) := by
  unfold cd
  split
  · exact speaks_changeDirectory session none
  · exact speaks_changeDirectory session _
  · exact speaks_usage _ _

theorem consistent_catOperand (fs : FileSystem) (operand : String) :
    (catOperand session fs operand).Consistent := by
  unfold catOperand
  split
  · exact Outcome.consistent_of_stdout _
  · exact Outcome.consistent_of_complaint (Text.getLast?_append rfl _) (Or.inl rfl)

theorem cat_singleton {session : Session} {fs : FileSystem} (hfs : session.fileSystem = some fs)
    (operand : String) : cat session [operand] = .ok (catOperand session fs operand) := by
  have hconsistent := consistent_catOperand session fs operand
  rw [cat, hfs]
  simp only
  rw [if_neg (by simp), List.map_singleton, hconsistent.sequence_singleton]

theorem speaks_cat : Speaks id (cat session args) := by
  unfold cat
  split
  · exact speaks_execution _ _
  · next fs _ =>
    split
    · exact speaks_usage _ _
    · refine speaks_ok (Outcome.consistent_sequence ?_)
      intro outcome houtcome
      obtain ⟨operand, -, rfl⟩ := List.mem_map.mp houtcome
      exact consistent_catOperand session fs operand

theorem consistent_forEach {attempt : FileSystem → String → Except Outcome FileSystem}
    (hattempt : ∀ fs operand complaint, attempt fs operand = .error complaint →
      complaint.Consistent)
    (fs : FileSystem) (operands : List String) : (forEach attempt fs operands).2.Consistent := by
  -- for every tree: an operand that succeeds hands another one on
  induction operands generalizing fs with
  | nil => exact Outcome.consistent_of_stdout ""
  | cons operand operands ih =>
    rw [forEach]
    split
    · next after _ => exact ih after
    · next complaint hcomplaint => exact (hattempt fs operand complaint hcomplaint).andThen (ih fs)

theorem consistent_makeDirectory {fs : FileSystem} {operand : String} {complaint : Outcome}
    (h : makeDirectory session fs operand = .error complaint) : complaint.Consistent := by
  unfold makeDirectory at h
  obtain ⟨failure, -, rfl⟩ := mapError_eq_error_iff.mp h
  exact Outcome.consistent_of_complaint (Text.getLast?_append rfl _) (Or.inl rfl)

theorem consistent_makeEmptyFile {fs : FileSystem} {operand : String} {complaint : Outcome}
    (h : makeEmptyFile session fs operand = .error complaint) : complaint.Consistent := by
  unfold makeEmptyFile at h
  split at h
  · exact absurd h (by simp)
  · split_ifs at h
    rw [← Except.error.inj h]
    exact Outcome.consistent_of_complaint (Text.getLast?_append rfl _) (Or.inl rfl)

theorem speaks_makeAll {name missing would : String}
    {attempt : FileSystem → String → Except Outcome FileSystem}
    (hattempt : ∀ fs operand complaint, attempt fs operand = .error complaint →
      complaint.Consistent) :
    Speaks Prod.fst (makeAll session name missing would attempt args) := by
  unfold makeAll
  split_ifs
  · exact speaks_usage _ _
  · split
    · exact speaks_ok (Outcome.consistent_of_stdout _)
    · next fs _ => exact speaks_ok (consistent_forEach hattempt fs args)

theorem speaks_mkdir : Speaks Prod.fst (mkdir session args) :=
  speaks_makeAll session args fun _ _ _ => consistent_makeDirectory session

theorem speaks_touch : Speaks Prod.fst (touch session args) :=
  speaks_makeAll session args fun _ _ _ => consistent_makeEmptyFile session

theorem speaks_cp : Speaks Prod.fst (cp session args) := by
  unfold cp
  split
  · exact speaks_usage _ _
  · exact speaks_usage _ _
  · unfold copy
    split
    · exact speaks_ok (Outcome.consistent_of_stdout _)
    · simp only
      split
      · exact speaks_ok (Outcome.consistent_of_stdout "")
      · exact speaks_execution _ _
  · exact speaks_usage _ _

theorem remainder256_lt {acc : Nat} (hacc : acc < 256) (digits : List Char) :
    remainder256 acc digits < 256 := by
  induction digits generalizing acc with
  | nil => exact hacc
  | cons c digits ih => exact ih (Nat.mod_lt _ (by decide))

theorem exitStatus?_lt {text : List Char} {status : Nat} (h : exitStatus? text = some status) :
    status < 256 := by
  unfold exitStatus? at h
  simp only at h
  split_ifs at h
  · -- a negative number counts back from 256
    have hmod := Option.some.inj h
    omega
  · rw [← Option.some.inj h]
    exact remainder256_lt (by decide) _

theorem consistent_exit : (exit args).Consistent := by
  unfold exit
  split
  · exact Exit.consistent_of_stdout rfl (by decide)
  · simp only
    split
    · next status hstatus =>
      exact Exit.consistent_of_stdout (Text.getLast?_append rfl _) (exitStatus?_lt hstatus)
    · exact Exit.consistent_of_complaint (Text.getLast?_append rfl _)

end Command

/-! ## Lines -/

namespace Builtin

variable {builtin : Builtin} {session : Session} {args : List String}

theorem consistent_of_perform {turn : Turn} {outcome : Outcome}
    (h : builtin.perform session args = .ok turn) (hdone : turn.reply = .done outcome) :
    outcome.Consistent := by
  cases builtin with
  | ls =>
    obtain rfl := Except.ok.inj h
    rw [← Reply.done.inj hdone]
    exact Command.consistent_ls session args
  | echo | pwd | confDump =>
    obtain rfl := Except.ok.inj h
    rw [← Reply.done.inj hdone]
    exact Outcome.consistent_of_stdout _
  | cat => exact (Command.speaks_cat session args).consistent_of_map (fun _ => rfl) h hdone
  | cd => exact (Command.speaks_cd session args).consistent_of_map (fun _ => rfl) h hdone
  | mkdir => exact (Command.speaks_mkdir session args).consistent_of_map (fun _ => rfl) h hdone
  | touch => exact (Command.speaks_touch session args).consistent_of_map (fun _ => rfl) h hdone
  | cp => exact (Command.speaks_cp session args).consistent_of_map (fun _ => rfl) h hdone
  | exit =>
    obtain rfl := Except.ok.inj h
    exact absurd hdone (by simp)

theorem ne_notFound_of_perform {failure : CommandFailure}
    (h : builtin.perform session args = .error failure) : ∀ name, failure ≠ .notFound name := by
  cases builtin with
  | ls | echo | pwd | confDump | exit => exact absurd h (by simp [perform])
  | cat => exact (Command.speaks_cat session args).error (map_eq_error_iff.mp h)
  | cd => exact (Command.speaks_cd session args).error (map_eq_error_iff.mp h)
  | mkdir => exact (Command.speaks_mkdir session args).error (map_eq_error_iff.mp h)
  | touch => exact (Command.speaks_touch session args).error (map_eq_error_iff.mp h)
  | cp => exact (Command.speaks_cp session args).error (map_eq_error_iff.mp h)

/-- Every command says something consistent, whether it succeeds or fails. -/
theorem consistent_of_dispatch {outcome : Outcome}
    (h : (builtin.dispatch session args).reply = .done outcome) : outcome.Consistent := by
  unfold dispatch at h
  split at h
  · next turn hturn => exact consistent_of_perform hturn h
  · next failure hfailure =>
    rw [← Reply.done.inj h]
    exact CommandFailure.consistent_outcome (ne_notFound_of_perform hfailure)

/-- Only `exit` asks to leave. -/
theorem eq_exit_of_dispatch {request : Exit}
    (h : (builtin.dispatch session args).reply = .exit request) :
    builtin = .exit ∧ request = Command.exit args := by
  unfold dispatch at h
  split at h
  · next turn hturn =>
    cases builtin with
    | exit =>
      obtain rfl := Except.ok.inj hturn
      exact ⟨rfl, (Reply.exit.inj h).symm⟩
    | ls | echo | pwd | confDump =>
      obtain rfl := Except.ok.inj hturn
      exact absurd h (by simp)
    | cat | cd | mkdir | touch | cp =>
      obtain ⟨result, -, rfl⟩ := map_eq_ok_iff.mp hturn
      exact absurd h (by simp)
  · exact absurd h (by simp)

end Builtin

namespace Session

/-- What a line with the given words can reply. -/
inductive Answer (words : List String) : Reply → Prop where
  | blank (hwords : words = []) : Answer words (.done {})
  | said {builtin : Builtin} {args : List String} {outcome : Outcome}
      (hwords : words = builtin.name :: args) (houtcome : outcome.Consistent) :
      Answer words (.done outcome)
  | unknown {name : String} {args : List String} (hwords : words = name :: args)
      (hname : name ∉ Builtin.all.map Builtin.name) :
      Answer words (.done (CommandFailure.notFound name).outcome)
  | left {args : List String} (hwords : words = "exit" :: args) :
      Answer words (.exit (Command.exit args))

theorem answer_execute (session : Session) (line : String) :
    Answer (Words.ofLine session.config.env line) (session.execute line).reply := by
  cases hwords : Words.ofLine session.config.env line with
  | nil =>
    rw [execute, hwords]
    exact .blank rfl
  | cons name args =>
    rw [reply_execute hwords]
    rcases session.call_cases name args with ⟨builtin, rfl, hcall⟩ | ⟨hname, hcall⟩
    · rw [hcall]
      cases hdispatch : (builtin.dispatch session args).reply with
      | done outcome => exact .said rfl (Builtin.consistent_of_dispatch hdispatch)
      | exit request =>
        obtain ⟨rfl, rfl⟩ := Builtin.eq_exit_of_dispatch hdispatch
        exact .left rfl
    · rw [hcall]
      exact .unknown rfl hname

namespace Answer

variable {words : List String} {outcome : Outcome}

theorem notFound_complains (name : String) :
    (CommandFailure.notFound name).outcome.stderr.toList.getLast? = some '\n' :=
  Text.getLast?_append rfl _

theorem status_eq_zero_iff (h : Answer words (.done outcome)) :
    outcome.status = 0 ↔ outcome.stderr = "" := by
  cases h with
  | blank => exact iff_of_true rfl rfl
  | said hwords houtcome => exact houtcome.status_eq_zero_iff
  | @unknown name =>
    have hstatus := (CommandFailure.notFound name).status_ne_zero
    exact iff_of_false hstatus (Text.ne_empty_of_getLast? (notFound_complains name))

theorem status_mem (h : Answer words (.done outcome)) : outcome.status ∈ [0, 1, 2, 127] := by
  cases h with
  | blank => exact List.mem_cons_self
  | said hwords houtcome => exact List.mem_append_left [127] houtcome.status_mem
  | @unknown name =>
    have hstatus : (CommandFailure.notFound name).outcome.status = 127 := rfl
    rw [hstatus]
    decide

theorem status_eq_notFound_iff (h : Answer words (.done outcome)) {name : String}
    {args : List String} (hwords : words = name :: args) :
    outcome.status = 127 ↔ name ∉ Builtin.all.map Builtin.name := by
  cases h with
  | blank hnil => exact absurd (hnil.symm.trans hwords) (by simp)
  | @said builtin _ _ hother houtcome =>
    obtain ⟨rfl, -⟩ := List.cons.inj (hother.symm.trans hwords)
    refine iff_of_false ?_ (not_not_intro builtin.name_mem)
    -- 127 is not among the statuses of commands
    intro hunknown
    have hstatus := houtcome.status_mem
    rw [hunknown] at hstatus
    exact absurd hstatus (by decide)
  | unknown hother hname =>
    obtain ⟨rfl, -⟩ := List.cons.inj (hother.symm.trans hwords)
    exact iff_of_true rfl hname

theorem isEnded_stderr (h : Answer words (.done outcome)) : Text.IsEnded outcome.stderr := by
  cases h with
  | blank => exact Or.inl rfl
  | said hwords houtcome => exact houtcome.isEnded_stderr
  | @unknown name => exact Or.inr (notFound_complains name)

end Answer

end Session

/-- A line ends with status zero just when it writes nothing to the standard error, and what it
writes there is whole lines. The status is one of four, and 127 is the status of a line whose first
word names no command. Only `exit` asks to leave; the status that it asks for is that of a process,
and it writes to one of the two outputs, to the standard error only if that status is 1. -/
theorem Session.status_agrees_with_diagnostics (session : Session) (line : String) :
    let words := Words.ofLine session.config.env line
    let reply := (session.execute line).reply
    (∀ outcome, reply = .done outcome →
      (outcome.status = 0 ↔ outcome.stderr = "") ∧
      outcome.status ∈ [0, 1, 2, 127] ∧
      (∀ name args, words = name :: args →
        (outcome.status = 127 ↔ name ∉ Builtin.all.map Builtin.name)) ∧
      Text.IsEnded outcome.stderr) ∧
    ∀ request, reply = .exit request →
      (∃ args, words = "exit" :: args) ∧
      0 ≤ request.status ∧ request.status ≤ 255 ∧
      (request.stdout = "" ↔ request.stderr ≠ "") ∧
      Text.IsEnded request.stdout ∧ Text.IsEnded request.stderr ∧
      (request.stderr ≠ "" → request.status = 1) := by
  intro words reply
  have hanswer : Session.Answer words reply := session.answer_execute line
  constructor
  · intro outcome hdone
    rw [hdone] at hanswer
    exact ⟨hanswer.status_eq_zero_iff, hanswer.status_mem,
      fun _ _ => hanswer.status_eq_notFound_iff, hanswer.isEnded_stderr⟩
  · intro request hexit
    rw [hexit] at hanswer
    cases hanswer with
    | @left args hwords =>
      have h := Command.consistent_exit args
      exact ⟨⟨args, hwords⟩, h.status_nonneg, h.status_le, h.stdout_eq_empty_iff,
        h.isEnded_stdout, h.isEnded_stderr, h.status_of_stderr⟩

end TreeShell
