import TreeShell.Proofs.Words

/-!
# The grammar of a line

A line is a row of words with gaps of white space before, between and behind them. A word starts and
ends with a character that is not white space, and holds a space only inside quotes; every word but
the last closes its quotes, and every gap between two words holds a space. This grammar says nothing
of scanning. Each line can be cut up in this way, and in one way only, and the words of the cut are
the words that scanning the line finds.
-/

namespace TreeShell.Words

open Text

/-! ## Quotes -/

/-- Either of the two characters that open a span. -/
def IsQuote (c : Char) : Prop := c = '"' ∨ c = '\''

/-- A text without a space outside of quotes, whose spans are all closed. A span reaches from a
quote to the next character of that kind; the other kind means nothing in it. -/
inductive Closed : List Char → Prop
  | nil : Closed []
  | plain {c : Char} {cs : List Char} (hquote : ¬IsQuote c) (hspace : c ≠ ' ') (h : Closed cs) :
      Closed (c :: cs)
  | span {quote : Char} {inner cs : List Char} (hquote : IsQuote quote) (hinner : quote ∉ inner)
      (h : Closed cs) : Closed (quote :: (inner ++ quote :: cs))

/-- A text without a space outside of quotes, whose last span may reach to its end unclosed. -/
inductive Solid : List Char → Prop
  | closed {cs : List Char} (h : Closed cs) : Solid cs
  | unclosed {cs inner : List Char} {quote : Char} (h : Closed cs) (hquote : IsQuote quote)
      (hinner : quote ∉ inner) : Solid (cs ++ quote :: inner)

theorem isBlank_of_isQuote {c : Char} (h : IsQuote c) : isBlank c = false := by
  rcases h with rfl | rfl <;> decide

theorem quoteAfter_of_isQuote {c : Char} (h : IsQuote c) : quoteAfter none c = some c := by
  rcases h with rfl | rfl <;> rfl

theorem quoteAfter_of_not_isQuote {c : Char} (h : ¬IsQuote c) : quoteAfter none c = none := by
  rw [IsQuote, not_or] at h
  exact quoteAfter_of_ne h.1 h.2

theorem not_cut_of_quote (quote c : Char) : ¬((some quote : Option Char) = none ∧ c = ' ') := by
  rintro ⟨h, -⟩
  exact absurd h (by simp)

theorem pieces_cons_of_quote {quote c : Char} (hc : c ≠ quote) (cs : List Char) :
    pieces (some quote) (c :: cs) =
      (c :: (pieces (some quote) cs).1, (pieces (some quote) cs).2) := by
  rw [pieces, if_neg (not_cut_of_quote quote c), quoteAfter, if_neg hc]

/-- A span that is closed goes into the piece it starts in. -/
theorem pieces_span {quote : Char} {inner : List Char} (hinner : quote ∉ inner) (rest : List Char) :
    pieces (some quote) (inner ++ quote :: rest) =
      (inner ++ quote :: (pieces none rest).1, (pieces none rest).2) := by
  induction inner with
  | nil =>
    rw [List.nil_append, pieces, if_neg (not_cut_of_quote quote quote), quoteAfter, if_pos rfl]
    rfl
  | cons c inner ih =>
    rw [List.mem_cons, not_or] at hinner
    rw [List.cons_append, pieces_cons_of_quote (Ne.symm hinner.1), ih hinner.2]
    rfl

/-- A span that is never closed takes all that follows. -/
theorem pieces_unclosed {quote : Char} {rest : List Char} (hrest : quote ∉ rest) :
    pieces (some quote) rest = (rest, []) := by
  induction rest with
  | nil => rfl
  | cons c rest ih =>
    rw [List.mem_cons, not_or] at hrest
    rw [pieces_cons_of_quote (Ne.symm hrest.1), ih hrest.2]

theorem pieces_cons_of_isQuote {quote : Char} (h : IsQuote quote) (rest : List Char) :
    pieces none (quote :: rest) =
      (quote :: (pieces (some quote) rest).1, (pieces (some quote) rest).2) := by
  have hcut := not_cut_of_not_isBlank (isBlank_of_isQuote h) none
  rw [pieces, if_neg hcut, quoteAfter_of_isQuote h]

/-- A closed text goes into the piece it starts in, and leaves no quote open behind it. -/
theorem Closed.pieces_append {cs : List Char} (h : Closed cs) (rest : List Char) :
    pieces none (cs ++ rest) = (cs ++ (pieces none rest).1, (pieces none rest).2) := by
  induction h with
  | nil => rfl
  | @plain c cs hquote hspace _ ih =>
    have hcut : ¬((none : Option Char) = none ∧ c = ' ') := fun hcut => hspace hcut.2
    rw [List.cons_append, pieces, if_neg hcut, quoteAfter_of_not_isQuote hquote, ih]
    rfl
  | @span quote inner cs hquote hinner _ ih =>
    have hassoc : quote :: (inner ++ quote :: cs) ++ rest =
        quote :: (inner ++ quote :: (cs ++ rest)) := by simp
    rw [hassoc, pieces_cons_of_isQuote hquote, pieces_span hinner, ih]
    simp

theorem Closed.append {front back : List Char} (hfront : Closed front) (hback : Closed back) :
    Closed (front ++ back) := by
  induction hfront with
  | nil => exact hback
  | plain hquote hspace _ ih => exact .plain hquote hspace ih
  | @span quote inner cs hquote hinner _ ih =>
    have hspan := Closed.span hquote hinner ih
    simpa using hspan

theorem closed_of_isBlank {cs : List Char} (hblank : ∀ c ∈ cs, isBlank c = true)
    (hspace : ' ' ∉ cs) : Closed cs := by
  induction cs with
  | nil => exact .nil
  | cons c cs ih =>
    obtain ⟨hc, hblank⟩ := List.forall_mem_cons.mp hblank
    rw [List.mem_cons, not_or] at hspace
    refine .plain ?_ (Ne.symm hspace.1) (ih hblank hspace.2)
    intro hquote
    rw [isBlank_of_isQuote hquote] at hc
    exact Bool.false_ne_true hc

theorem Closed.solid_append {front back : List Char} (hfront : Closed front) (hback : Solid back) :
    Solid (front ++ back) := by
  cases hback with
  | closed h => exact .closed (hfront.append h)
  | @unclosed cs inner quote h hquote hinner =>
    rw [← List.append_assoc]
    exact .unclosed (hfront.append h) hquote hinner

theorem Solid.pieces_eq {cs : List Char} (h : Solid cs) : pieces none cs = (cs, []) := by
  cases h with
  | closed h =>
    have hpieces := h.pieces_append []
    rwa [List.append_nil, pieces, List.append_nil] at hpieces
  | @unclosed cs inner quote h hquote hinner =>
    rw [h.pieces_append, pieces_cons_of_isQuote hquote, pieces_unclosed hinner]

/-! ## Words -/

/-- A text that can be a word of a line. -/
structure IsWord (cs : List Char) : Prop where
  ne_nil : cs ≠ []
  head_not_isBlank : ∀ c ∈ cs.head?, isBlank c = false
  last_not_isBlank : ∀ c ∈ cs.getLast?, isBlank c = false
  solid : Solid cs

theorem trimEnd_append_of_isBlank {gap : List Char} (hgap : ∀ c ∈ gap, isBlank c = true)
    (cs : List Char) : trimEnd (cs ++ gap) = trimEnd cs := by
  induction gap using List.reverseRecOn with
  | nil => rw [List.append_nil]
  | append_singleton gap c ih =>
    rw [← List.append_assoc, trimEnd_concat_of_isBlank (hgap c (by simp))]
    exact ih fun other hother => hgap other (List.mem_append_left _ hother)

theorem IsWord.trimEnd_eq {cs : List Char} (h : IsWord cs) : trimEnd cs = cs := by
  rw [trimEnd_eq_rdropWhile, List.rdropWhile_eq_self_iff]
  intro hne hlast
  have hnot := h.last_not_isBlank _ (List.getLast?_eq_getLast_of_ne_nil hne)
  rw [hlast] at hnot
  exact absurd hnot (by decide)

theorem IsWord.dropWhile_eq {cs : List Char} (h : IsWord cs) (rest : List Char) :
    (cs ++ rest).dropWhile isBlank = cs ++ rest := by
  obtain ⟨c, tail, rfl⟩ := List.exists_cons_of_ne_nil h.ne_nil
  have hc := h.head_not_isBlank c rfl
  rw [List.cons_append, List.dropWhile_cons_of_neg (by rw [hc]; exact Bool.false_ne_true)]

theorem IsWord.trim_append {cs gap : List Char} (h : IsWord cs)
    (hgap : ∀ c ∈ gap, isBlank c = true) : trim (cs ++ gap) = cs := by
  rw [trim, h.dropWhile_eq, trimEnd_append_of_isBlank hgap, h.trimEnd_eq]

theorem written_append_of_isBlank {gap : List Char} (hgap : ∀ c ∈ gap, isBlank c = true)
    (line : List Char) : written (gap ++ line) = written line := by
  induction gap with
  | nil => rfl
  | cons c gap ih =>
    obtain ⟨hc, hgap⟩ := List.forall_mem_cons.mp hgap
    rw [List.cons_append, written_cons_of_isBlank hc, ih hgap]

theorem IsWord.trim_eq {cs : List Char} (h : IsWord cs) : trim cs = cs := by
  have htrim : trim (cs ++ []) = cs := h.trim_append fun _ hc => absurd hc List.not_mem_nil
  rwa [List.append_nil] at htrim

/-- A word with a gap behind it is read as that word. -/
theorem IsWord.written_append {cs gap : List Char} (h : IsWord cs)
    (hgap : ∀ c ∈ gap, isBlank c = true) : written (cs ++ gap) = [cs] := by
  rw [← written_trim, h.trim_append hgap, Words.written_eq, h.solid.pieces_eq, kept_cons, h.trim_eq,
    if_neg h.ne_nil]
  rfl

/-- A closed word is cut off where the gap behind it holds a space, whatever follows. -/
theorem IsWord.written_append_of_mem {cs gap : List Char} (h : IsWord cs) (hclosed : Closed cs)
    (hgap : ∀ c ∈ gap, isBlank c = true) (hspace : ' ' ∈ gap) (line : List Char) :
    written (cs ++ (gap ++ line)) = cs :: written line := by
  -- the piece goes on to the first space of the gap
  obtain ⟨front, back, rfl, hfront⟩ := List.eq_append_cons_of_mem hspace
  rw [List.forall_mem_append, List.forall_mem_cons] at hgap
  obtain ⟨hblank, -, hback⟩ := hgap
  have hpiece : Closed (cs ++ front) := hclosed.append (closed_of_isBlank hblank hfront)
  have hline : cs ++ (front ++ ' ' :: back ++ line) = (cs ++ front) ++ ' ' :: (back ++ line) := by
    simp
  have hcut : pieces none (' ' :: (back ++ line)) =
      ([], (pieces none (back ++ line)).1 :: (pieces none (back ++ line)).2) := rfl
  rw [hline, Words.written_eq, hpiece.pieces_append, hcut, List.append_nil, kept_cons,
    h.trim_append hblank, if_neg h.ne_nil, ← Words.written_eq, written_append_of_isBlank hback]

/-! ## Cuts -/

/-- The text of words, each with the gap behind it. -/
def textOf (words : List (List Char × List Char)) : List Char :=
  words.flatMap fun (word, gap) => word ++ gap

theorem textOf_cons (word gap : List Char) (words : List (List Char × List Char)) :
    textOf ((word, gap) :: words) = word ++ (gap ++ textOf words) := by
  rw [textOf, List.flatMap_cons, List.append_assoc]
  rfl

/-- A way to cut a line up: the gap at its start, and the words, each with the gap behind it. -/
structure Cut (line : List Char) where
  gap : List Char
  words : List (List Char × List Char)
  line_eq : gap ++ textOf words = line
  gap_isBlank : ∀ c ∈ gap, isBlank c = true
  isWord : ∀ entry ∈ words, IsWord entry.1
  isBlank : ∀ entry ∈ words, ∀ c ∈ entry.2, Text.isBlank c = true
  inner : ∀ entry ∈ words.dropLast, Closed entry.1 ∧ ' ' ∈ entry.2

theorem mem_dropLast_cons {α : Type} {first x : α} {others : List α} (hx : x ∈ others.dropLast) :
    x ∈ (first :: others).dropLast := by
  cases others with
  | nil => exact absurd hx List.not_mem_nil
  | cons second others => exact List.mem_cons_of_mem first hx

/-- What is left of a cut behind its first word. -/
def Cut.tail {line word gap : List Char} {words : List (List Char × List Char)} (cut : Cut line)
    (h : cut.words = (word, gap) :: words) : Cut (gap ++ textOf words) where
  gap := gap
  words := words
  line_eq := rfl
  gap_isBlank := cut.isBlank (word, gap) (by rw [h]; exact List.mem_cons_self)
  isWord entry hentry := cut.isWord entry (by rw [h]; exact List.mem_cons_of_mem _ hentry)
  isBlank entry hentry := cut.isBlank entry (by rw [h]; exact List.mem_cons_of_mem _ hentry)
  inner entry hentry := cut.inner entry (by rw [h]; exact mem_dropLast_cons hentry)

/-- The words that are read from a line are the words of every cut of it. -/
theorem Cut.written_eq {line : List Char} (cut : Cut line) :
    written line = cut.words.map Prod.fst := by
  generalize hwords : cut.words = words
  induction words generalizing line with
  | nil =>
    have hline := cut.line_eq
    rw [hwords] at hline
    rw [← hline, written_append_of_isBlank cut.gap_isBlank]
    rfl
  | cons entry words ih =>
    obtain ⟨word, gap⟩ := entry
    have hmem : (word, gap) ∈ cut.words := by rw [hwords]; exact List.mem_cons_self
    have hword : IsWord word := cut.isWord _ hmem
    have hgap : ∀ c ∈ gap, Text.isBlank c = true := cut.isBlank _ hmem
    rw [← cut.line_eq, written_append_of_isBlank cut.gap_isBlank, hwords, textOf_cons,
      List.map_cons]
    by_cases hlast : words = []
    · subst hlast
      have htext : textOf [] = [] := rfl
      rw [htext, List.append_nil, hword.written_append hgap, List.map_nil]
    · have hinner : (word, gap) ∈ cut.words.dropLast := by
        rw [hwords, List.dropLast_cons_of_ne_nil hlast]
        exact List.mem_cons_self
      obtain ⟨hclosed, hspace⟩ := cut.inner _ hinner
      rw [hword.written_append_of_mem hclosed hgap hspace, ← written_append_of_isBlank hgap,
        ih (cut.tail hwords) rfl]

/-! ## There is one cut -/

theorem takeWhile_isBlank_append {gap rest : List Char} (hgap : ∀ c ∈ gap, isBlank c = true)
    (hrest : ∀ c ∈ rest.head?, isBlank c = false) :
    (gap ++ rest).takeWhile isBlank = gap := by
  rw [List.takeWhile_append_of_pos hgap]
  cases rest with
  | nil => rw [List.takeWhile_nil, List.append_nil]
  | cons c rest =>
    have hc : ¬isBlank c = true := by rw [hrest c rfl]; exact Bool.false_ne_true
    rw [List.takeWhile_cons_of_neg hc, List.append_nil]

theorem Cut.head?_textOf {line : List Char} (cut : Cut line) :
    ∀ c ∈ (textOf cut.words).head?, Text.isBlank c = false := by
  intro c hc
  cases hwords : cut.words with
  | nil =>
    rw [hwords] at hc
    exact absurd hc (by simp [textOf])
  | cons entry words =>
    obtain ⟨word, gap⟩ := entry
    have hword : IsWord word := cut.isWord (word, gap) (by rw [hwords]; exact List.mem_cons_self)
    rw [hwords, textOf_cons, List.head?_append_of_ne_nil _ hword.ne_nil] at hc
    exact hword.head_not_isBlank c hc

theorem Cut.gap_eq {line : List Char} (cut : Cut line) : cut.gap = line.takeWhile Text.isBlank := by
  have hgap := takeWhile_isBlank_append cut.gap_isBlank cut.head?_textOf
  rwa [cut.line_eq, eq_comm] at hgap

/-- The words of a line leave no choice for the gaps between them. -/
theorem Cut.words_eq {line other : List Char} (hline : line = other) (cut : Cut line)
    (twin : Cut other) (hmap : cut.words.map Prod.fst = twin.words.map Prod.fst) :
    cut.words = twin.words := by
  generalize hwords : cut.words = words at hmap
  generalize hothers : twin.words = others at hmap
  induction words generalizing line other others with
  | nil => exact (List.map_eq_nil_iff.mp hmap.symm).symm
  | cons entry words ih =>
    obtain ⟨⟨word, after⟩, others, rfl, hword, hback⟩ := List.map_eq_cons_iff.mp hmap.symm
    obtain ⟨_, gap⟩ := entry
    obtain rfl : word = _ := hword
    -- the first gaps are one, and so are the words behind them: the same text is left
    have hfirst : cut.gap = twin.gap := by rw [cut.gap_eq, twin.gap_eq, ← hline]
    have htext : textOf cut.words = textOf twin.words := by
      have hboth : cut.gap ++ textOf cut.words = twin.gap ++ textOf twin.words := by
        rw [cut.line_eq, twin.line_eq, ← hline]
      rw [hfirst] at hboth
      exact List.append_cancel_left hboth
    rw [hwords, hothers, textOf_cons, textOf_cons] at htext
    have hrest : gap ++ textOf words = after ++ textOf others := List.append_cancel_left htext
    have hgap : gap = after := by
      have hleft : gap = _ := (cut.tail hwords).gap_eq
      have hright : after = _ := (twin.tail hothers).gap_eq
      rw [hleft, hright, hrest]
    rw [hgap, ih hrest (cut.tail hwords) (twin.tail hothers) rfl others rfl hback.symm]

theorem Cut.eq {line : List Char} (cut other : Cut line) : cut = other := by
  have hgap : cut.gap = other.gap := by rw [cut.gap_eq, other.gap_eq]
  have hwords : cut.words = other.words := by
    refine Cut.words_eq rfl cut other ?_
    rw [← cut.written_eq, ← other.written_eq]
  obtain ⟨gap, words⟩ := cut
  cases hgap
  cases hwords
  rfl

/-! ## Every line has a cut -/

/-- The cut of a line of white space. -/
def Cut.blank {line : List Char} (hline : ∀ c ∈ line, Text.isBlank c = true) : Cut line where
  gap := line
  words := []
  line_eq := List.append_nil line
  gap_isBlank := hline
  isWord _ hentry := absurd hentry List.not_mem_nil
  isBlank _ hentry := absurd hentry List.not_mem_nil
  inner _ hentry := absurd hentry List.not_mem_nil

/-- A cut with more white space at its start. -/
def Cut.indent {line : List Char} {c : Char} (cut : Cut line) (hc : Text.isBlank c = true) :
    Cut (c :: line) where
  gap := c :: cut.gap
  words := cut.words
  line_eq := by rw [List.cons_append, cut.line_eq]
  gap_isBlank := List.forall_mem_cons.mpr ⟨hc, cut.gap_isBlank⟩
  isWord := cut.isWord
  isBlank := cut.isBlank
  inner := cut.inner

/-- A cut with one more word at its start, kept apart from the words of the cut. -/
def Cut.prepend {line word : List Char} (cut : Cut line) (hword : IsWord word)
    (hapart : cut.words ≠ [] → Closed word ∧ ' ' ∈ cut.gap) : Cut (word ++ line) where
  gap := []
  words := (word, cut.gap) :: cut.words
  line_eq := by rw [List.nil_append, textOf_cons, cut.line_eq]
  gap_isBlank _ hc := absurd hc List.not_mem_nil
  isWord := List.forall_mem_cons.mpr ⟨hword, cut.isWord⟩
  isBlank := List.forall_mem_cons.mpr ⟨cut.gap_isBlank, cut.isBlank⟩
  inner := by
    by_cases hwords : cut.words = []
    · intro entry hentry
      rw [hwords] at hentry
      exact absurd hentry List.not_mem_nil
    · rw [List.dropLast_cons_of_ne_nil hwords]
      exact List.forall_mem_cons.mpr ⟨hapart hwords, cut.inner⟩

/-- Words that a gap without a space stands between are one word. -/
theorem IsWord.append {front gap back : List Char} (hfront : IsWord front) (hclosed : Closed front)
    (hgap : ∀ c ∈ gap, isBlank c = true) (hspace : ' ' ∉ gap) (hback : IsWord back) :
    IsWord (front ++ gap ++ back) where
  ne_nil := by simp [hback.ne_nil]
  head_not_isBlank := by
    rw [List.append_assoc, List.head?_append_of_ne_nil _ hfront.ne_nil]
    exact hfront.head_not_isBlank
  last_not_isBlank := by
    rw [List.getLast?_append_of_ne_nil _ hback.ne_nil]
    exact hback.last_not_isBlank
  solid := (hclosed.append (closed_of_isBlank hgap hspace)).solid_append hback.solid

/-- A closed word before a line becomes a word of its own, or a part of the first word. -/
theorem exists_cut_append {line word : List Char} (cut : Cut line) (hword : IsWord word)
    (hclosed : Closed word) : Nonempty (Cut (word ++ line)) := by
  by_cases hspace : ' ' ∈ cut.gap
  · exact ⟨cut.prepend hword fun _ => ⟨hclosed, hspace⟩⟩
  · cases hwords : cut.words with
    | nil => exact ⟨cut.prepend hword fun hne => absurd hwords hne⟩
    | cons entry words =>
      obtain ⟨first, gap⟩ := entry
      have hmem : (first, gap) ∈ cut.words := by rw [hwords]; exact List.mem_cons_self
      have hjoined : IsWord (word ++ cut.gap ++ first) :=
        hword.append hclosed cut.gap_isBlank hspace (cut.isWord _ hmem)
      have hapart : words ≠ [] → Closed (word ++ cut.gap ++ first) ∧ ' ' ∈ gap := by
        intro hne
        have hinner : (first, gap) ∈ cut.words.dropLast := by
          rw [hwords, List.dropLast_cons_of_ne_nil hne]
          exact List.mem_cons_self
        obtain ⟨hfirst, hgap⟩ := cut.inner _ hinner
        have hgapClosed : Closed cut.gap := closed_of_isBlank cut.gap_isBlank hspace
        exact ⟨(hclosed.append hgapClosed).append hfirst, hgap⟩
      have hline : cut.gap ++ textOf cut.words = line := cut.line_eq
      rw [hwords, textOf_cons] at hline
      have hcut : Cut (word ++ cut.gap ++ first ++ (gap ++ textOf words)) :=
        (cut.tail hwords).prepend hjoined hapart
      rw [List.append_assoc, List.append_assoc, hline] at hcut
      exact ⟨hcut⟩

theorem exists_trimEnd_append (cs : List Char) :
    ∃ gap, cs = trimEnd cs ++ gap ∧ ∀ c ∈ gap, isBlank c = true := by
  refine ⟨cs.rtakeWhile isBlank, ?_, ?_⟩
  · rw [trimEnd_eq_rdropWhile, List.rdropWhile_append_rtakeWhile]
  · intro c hc
    exact List.mem_rtakeWhile_imp hc

theorem not_isBlank_of_mem_getLast?_trimEnd {cs : List Char} :
    ∀ c ∈ (trimEnd cs).getLast?, isBlank c = false := by
  intro c hc
  obtain ⟨hne, rfl⟩ := List.mem_getLast?_eq_getLast hc
  have hlast : ¬isBlank ((trimEnd cs).getLast hne) = true := List.rdropWhile_last_not isBlank cs hne
  rwa [Bool.not_eq_true] at hlast

/-- A line that starts with a quote which nothing closes is one word. -/
theorem exists_cut_of_unclosed {quote : Char} {rest : List Char} (hquote : IsQuote quote)
    (hrest : quote ∉ rest) : Nonempty (Cut (quote :: rest)) := by
  obtain ⟨gap, hline, hgap⟩ := exists_trimEnd_append rest
  have hword : IsWord (quote :: trimEnd rest) :=
    { ne_nil := List.cons_ne_nil _ _
      head_not_isBlank := by
        intro c hc
        rw [← Option.some.inj hc]
        exact isBlank_of_isQuote hquote
      last_not_isBlank := by
        intro c hc
        rw [List.getLast?_cons] at hc
        cases hlast : (trimEnd rest).getLast? with
        | none =>
          rw [hlast] at hc
          rw [← Option.some.inj hc]
          exact isBlank_of_isQuote hquote
        | some last =>
          rw [hlast] at hc
          rw [← Option.some.inj hc]
          exact not_isBlank_of_mem_getLast?_trimEnd last hlast
      solid := by
        refine Solid.unclosed .nil hquote ?_
        intro hmem
        refine hrest ?_
        rw [hline]
        exact List.mem_append_left gap hmem }
  have hcut : Cut (quote :: trimEnd rest ++ gap) :=
    (Cut.blank hgap).prepend hword fun hne => absurd rfl hne
  rw [List.cons_append, ← hline] at hcut
  exact ⟨hcut⟩

theorem isWord_singleton {c : Char} (hblank : isBlank c = false) (hquote : ¬IsQuote c) :
    Closed [c] ∧ IsWord [c] := by
  have hspace : c ≠ ' ' := by
    rintro rfl
    exact absurd hblank (by decide)
  have hclosed : Closed [c] := .plain hquote hspace .nil
  refine ⟨hclosed, List.cons_ne_nil _ _, ?_, ?_, .closed hclosed⟩
  · intro other hother
    rwa [← Option.some.inj hother]
  · intro other hother
    rwa [← Option.some.inj hother]

theorem isWord_span {quote : Char} {inner : List Char} (hquote : IsQuote quote)
    (hinner : quote ∉ inner) :
    Closed (quote :: (inner ++ [quote])) ∧ IsWord (quote :: (inner ++ [quote])) := by
  have hclosed : Closed (quote :: (inner ++ [quote])) := .span hquote hinner .nil
  refine ⟨hclosed, List.cons_ne_nil _ _, ?_, ?_, .closed hclosed⟩
  · intro other hother
    rw [← Option.some.inj hother]
    exact isBlank_of_isQuote hquote
  · intro other hother
    rw [← List.cons_append, List.getLast?_concat] at hother
    rw [← Option.some.inj hother]
    exact isBlank_of_isQuote hquote

theorem exists_cut (line : List Char) : Nonempty (Cut line) := by
  -- what follows the first character, or the span that it opens, is shorter
  induction hlength : line.length using Nat.strong_induction_on generalizing line with
  | _ n ih =>
    cases line with
    | nil => exact ⟨Cut.blank fun _ hc => absurd hc List.not_mem_nil⟩
    | cons c rest =>
      have hrest : rest.length < n := by rw [← hlength]; exact Nat.lt_succ_self _
      obtain ⟨cut⟩ := ih _ hrest rest rfl
      by_cases hblank : isBlank c = true
      · exact ⟨cut.indent hblank⟩
      · rw [Bool.not_eq_true] at hblank
        by_cases hquote : IsQuote c
        · by_cases hclosing : c ∈ rest
          · obtain ⟨inner, back, rfl, hinner⟩ := List.eq_append_cons_of_mem hclosing
            have hback : back.length < n := by
              rw [List.length_append, List.length_cons] at hrest
              omega
            obtain ⟨cut⟩ := ih _ hback back rfl
            obtain ⟨hclosed, hword⟩ := isWord_span hquote hinner
            have hcut := exists_cut_append cut hword hclosed
            rwa [List.cons_append, List.append_assoc, List.singleton_append] at hcut
          · exact exists_cut_of_unclosed hquote hclosing
        · obtain ⟨hclosed, hword⟩ := isWord_singleton hblank hquote
          exact exists_cut_append cut hword hclosed

/-! ## The words of a line -/

theorem filter_append_of_isBlank {gap : List Char} (hgap : ∀ c ∈ gap, isBlank c = true)
    (cs : List Char) :
    (gap ++ cs).filter (fun c => !isBlank c) = cs.filter fun c => !isBlank c := by
  have hnil : gap.filter (fun c => !isBlank c) = [] := by
    rw [List.filter_eq_nil_iff]
    intro c hc
    simp [hgap c hc]
  rw [List.filter_append, hnil, List.nil_append]

/-- Outside of its words a line holds white space only. -/
theorem Cut.filter_eq {line : List Char} (cut : Cut line) :
    line.filter (fun c => !Text.isBlank c) =
      (cut.words.map Prod.fst).flatten.filter fun c => !Text.isBlank c := by
  generalize hwords : cut.words = words
  have hline := cut.line_eq
  induction words generalizing line with
  | nil =>
    rw [hwords] at hline
    rw [← hline, filter_append_of_isBlank cut.gap_isBlank]
    rfl
  | cons entry words ih =>
    obtain ⟨word, gap⟩ := entry
    have htail := ih (cut.tail hwords) rfl rfl
    rw [hwords, textOf_cons] at hline
    rw [← hline, filter_append_of_isBlank cut.gap_isBlank, List.filter_append, htail,
      List.map_cons, List.flatten_cons, List.filter_append]

/-- A line is written in exactly one way as words with gaps around them, and its words are those of
this one cut, each expanded on its own. A line of white space has none, so that nothing is lost if
such a line is not scanned at all; and what is not white space comes back in the words, each
character once and in its order. -/
theorem ofLine_eq_words_of_cut (env : Environment) (line : String) :
    ∃ cut : Cut line.toList, (∀ other : Cut line.toList, other = cut) ∧
      ofLine env line =
        cut.words.map (fun entry => String.ofList (Expansion.expand env entry.1)) ∧
      (ofLine env line = [] ↔ trim line.toList = []) ∧
      line.toList.filter (fun c => !isBlank c) =
        (cut.words.map Prod.fst).flatten.filter fun c => !isBlank c := by
  obtain ⟨cut⟩ := exists_cut line.toList
  refine ⟨cut, fun other => other.eq cut, ?_, ofLine_eq_nil_iff, cut.filter_eq⟩
  rw [ofLine, cut.written_eq, List.map_map]
  rfl

end TreeShell.Words
