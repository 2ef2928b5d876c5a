import TreeShell.Proofs.LineGrammar
import TreeShell.Proofs.Runs

/-!
# Words that are joined again

The words of a line, joined with single spaces, are the words of the line they make: each but the
last closes its quotes, so that the space behind it cuts it off, and the last one may keep a quote
open to the end. Without a dollar sign nothing is expanded, and then the words that are read are the
words that are written. What `echo` prints for such a line is therefore printed once more when it is
given to `echo` again.
-/

namespace TreeShell

namespace Words

open Text

/-! ## Joining -/

/-- Words are the words of a cut of the line that joins them. -/
theorem exists_cut_intercalate {words : List (List Char)} (hwords : ∀ word ∈ words, IsWord word)
    (hclosed : ∀ word ∈ words.dropLast, Closed word) :
    ∃ cut : Cut ([' '].intercalate words), cut.words.map Prod.fst = words := by
  have hspace : isBlank ' ' = true := by decide
  have hnil : ∀ c ∈ ([] : List Char), isBlank c = true := fun c hc => absurd hc List.not_mem_nil
  induction words with
  | nil => exact ⟨Cut.blank hnil, rfl⟩
  | cons word words ih =>
    obtain ⟨hword, hothers⟩ := List.forall_mem_cons.mp hwords
    obtain ⟨cut, hcut⟩ := ih hothers fun other hother => hclosed other (mem_dropLast_cons hother)
    cases words with
    | nil =>
      have hline : [' '].intercalate [word] = word ++ [] := by simp
      rw [hline]
      exact ⟨(Cut.blank hnil).prepend hword fun hne => absurd rfl hne, rfl⟩
    | cons next words =>
      have hline : [' '].intercalate (word :: next :: words) =
          word ++ ' ' :: [' '].intercalate (next :: words) := by simp
      have hword' : Closed word := hclosed word List.mem_cons_self
      rw [hline]
      refine ⟨(cut.indent hspace).prepend hword fun _ => ⟨hword', List.mem_cons_self⟩, ?_⟩
      exact congrArg (word :: ·) hcut

theorem written_intercalate {words : List (List Char)} (hwords : ∀ word ∈ words, IsWord word)
    (hclosed : ∀ word ∈ words.dropLast, Closed word) :
    written ([' '].intercalate words) = words := by
  obtain ⟨cut, hcut⟩ := exists_cut_intercalate hwords hclosed
  rw [cut.written_eq, hcut]

section Line

variable {line : List Char}

theorem isWord_of_mem_written {word : List Char} (hword : word ∈ written line) : IsWord word := by
  obtain ⟨cut⟩ := exists_cut line
  rw [cut.written_eq] at hword
  obtain ⟨entry, hentry, rfl⟩ := List.mem_map.mp hword
  exact cut.isWord entry hentry

theorem closed_of_mem_dropLast_written {word : List Char} (hword : word ∈ (written line).dropLast) :
    Closed word := by
  obtain ⟨cut⟩ := exists_cut line
  rw [cut.written_eq, ← List.map_dropLast] at hword
  obtain ⟨entry, hentry, rfl⟩ := List.mem_map.mp hword
  exact (cut.inner entry hentry).1

/-- Words are made of characters of their line. -/
theorem mem_of_mem_written {word : List Char} {c : Char} (hword : word ∈ written line)
    (hc : c ∈ word) : c ∈ line := by
  obtain ⟨cut⟩ := exists_cut line
  rw [cut.written_eq] at hword
  obtain ⟨entry, hentry, rfl⟩ := List.mem_map.mp hword
  rw [← cut.line_eq]
  refine List.mem_append_right _ ?_
  exact List.mem_flatMap.mpr ⟨entry, hentry, List.mem_append_left _ hc⟩

end Line

/-! ## Lines without a dollar sign -/

theorem map_expand_of_not_mem {env : Environment} {words : List (List Char)}
    (hdollar : ∀ word ∈ words, '$' ∉ word) :
    words.map (fun word => String.ofList (Expansion.expand env word)) =
      words.map String.ofList := by
  refine List.map_congr_left ?_
  intro word hword
  rw [Expansion.expand_of_not_mem (hdollar word hword)]

theorem dollar_not_mem_written {line : List Char} (hline : '$' ∉ line) :
    ∀ word ∈ written line, '$' ∉ word := by
  intro word hword hmem
  exact hline (mem_of_mem_written hword hmem)

/-- Without a dollar sign the words of a line are those that are written in it. -/
theorem ofLine_eq_written {env : Environment} {line : String} (hline : '$' ∉ line.toList) :
    ofLine env line = (written line.toList).map String.ofList :=
  map_expand_of_not_mem (dollar_not_mem_written hline)

theorem toList_intercalate_map_ofList (words : List (List Char)) :
    (" ".intercalate (words.map String.ofList)).toList = [' '].intercalate words := by
  have hwords : (words.map String.ofList).map String.toList = words := by
    have hid : String.toList ∘ String.ofList = id := funext fun cs => String.toList_ofList
    rw [List.map_map, hid, List.map_id]
  rw [String.toList_intercalate, hwords]
  rfl

/-- The words of a line without a dollar sign come back when they are joined and read again. -/
theorem ofLine_intercalate_ofLine {line : String} (hline : '$' ∉ line.toList)
    (env other : Environment) :
    ofLine other (" ".intercalate (ofLine env line)) = ofLine env line := by
  have hjoined : written ([' '].intercalate (written line.toList)) = written line.toList :=
    written_intercalate (fun _ => isWord_of_mem_written) fun _ => closed_of_mem_dropLast_written
  rw [ofLine_eq_written hline, ofLine, toList_intercalate_map_ofList, hjoined,
    map_expand_of_not_mem (dollar_not_mem_written hline)]

end Words

/-! ## Echoes -/

namespace Session

open Words

theorem reply_execute_echo {session : Session} {line : String} {args : List String}
    (hwords : ofLine session.config.env line = "echo" :: args) :
    (session.execute line).reply = .done { stdout := " ".intercalate args ++ "\n" } := by
  have hperform : Builtin.perform .echo session args =
      .ok { reply := .done (Command.echo args), session } := rfl
  have hreply : (session.execute line).reply = (Builtin.dispatch .echo session args).reply :=
    reply_execute_builtin hwords
  rwa [Builtin.dispatch_of_ok hperform] at hreply

/-- A line that calls `echo` with words of a line without a dollar sign has these words again. -/
theorem ofLine_echo {env : Environment} {line : String} {args : List String}
    (hline : '$' ∉ line.toList) (hwords : ofLine env line = "echo" :: args) (other : Environment) :
    ofLine other ("echo " ++ (" ".intercalate args ++ "\n")) = "echo" :: args := by
  obtain ⟨_, words, hwritten, hecho, rfl⟩ :=
    List.map_eq_cons_iff.mp ((ofLine_eq_written hline).symm.trans hwords)
  have hmem : ∀ word ∈ words, word ∈ written line.toList := by
    intro word hword
    rw [hwritten]
    exact List.mem_cons_of_mem _ hword
  have hjoined : written ([' '].intercalate words) = words := by
    refine written_intercalate (fun word hword => isWord_of_mem_written (hmem word hword)) ?_
    intro word hword
    have hinner : word ∈ (written line.toList).dropLast := by
      rw [hwritten]
      exact mem_dropLast_cons hword
    exact closed_of_mem_dropLast_written hinner
  have hplain : IsPlain "echo" := by decide
  have hlist : ("echo " ++ (" ".intercalate (words.map String.ofList) ++ "\n")).toList =
      "echo".toList ++ ' ' :: ([' '].intercalate words ++ ['\n']) := by
    rw [String.toList_append, String.toList_append, toList_intercalate_map_ofList]
    rfl
  have hnewline : Text.isBlank '\n' = true := by decide
  have hdollar : ∀ word ∈ words, '$' ∉ word := by
    intro word hword
    exact dollar_not_mem_written hline word (hmem word hword)
  rw [ofLine, hlist, hplain.written_append, written_concat_of_isBlank hnewline, hjoined,
    List.map_cons, hplain.expand_eq, map_expand_of_not_mem hdollar]

/-- For a line without a dollar sign, reading its words, joining them with single spaces and reading
again gives the same words, whatever the environments are. If the line calls `echo`, then `echo `
and what it prints is a line that prints the same once more, in any session. -/
theorem rejoined_words_are_read_back {line : String} (hline : '$' ∉ line.toList) :
    (∀ env other, ofLine other (" ".intercalate (ofLine env line)) = ofLine env line) ∧
    ∀ session : Session, (ofLine session.config.env line).head? = some "echo" →
      ∃ printed, (session.execute line).reply = .done { stdout := printed } ∧
        ∀ later : Session,
          (later.execute ("echo " ++ printed)).reply = .done { stdout := printed } := by
  refine ⟨ofLine_intercalate_ofLine hline, ?_⟩
  intro session hecho
  obtain ⟨args, hwords⟩ := List.head?_eq_some_iff.mp hecho
  refine ⟨_, reply_execute_echo hwords, ?_⟩
  intro later
  exact reply_execute_echo (ofLine_echo hline hwords later.config.env)

/-- A tab before a word is lost in the first reading, and an open quote keeps its spaces in both. -/
theorem unclosed_echo_is_read_back :
    let config : Config := { username := "", hostname := "", cwd := "/", home := "/" }
    let session : Session := { config := config }
    let line := " echo \t'a' b\t  \"c  d "
    '$' ∉ line.toList ∧
      (session.execute line).reply = .done { stdout := "'a' b \"c  d\n" } ∧
      (session.execute "echo 'a' b \"c  d\n").reply = .done { stdout := "'a' b \"c  d\n" } := by
  intro config session line
  have hline : '$' ∉ line.toList := by decide
  have hwords : ofLine session.config.env line = ["echo", "'a'", "b", "\"c  d"] := by
    rw [ofLine_eq_written hline]
    decide
  obtain ⟨-, hecho⟩ := rejoined_words_are_read_back hline
  obtain ⟨printed, hprinted, hagain⟩ := hecho session (by rw [hwords]; rfl)
  have hfirst : (session.execute line).reply = .done { stdout := "'a' b \"c  d\n" } :=
    reply_execute_echo hwords
  obtain rfl : printed = "'a' b \"c  d\n" := by
    rw [hfirst] at hprinted
    injection hprinted with houtcome
    injection houtcome with hstdout
    exact hstdout.symm
  exact ⟨hline, hfirst, hagain session⟩

end Session

end TreeShell
