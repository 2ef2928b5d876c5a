import Mathlib.Data.List.DropRight
import Mathlib.Tactic.SplitIfs
import TreeShell.Execution
import TreeShell.Proofs.Expansion

/-!
# White space around a line

A line has the words of the line without the white space around it, wherever its quotes open and
close: a character that is added at one end of the line goes into the piece at that end, or makes an
empty piece there, and pieces lose the white space around them. Hence the line is executed as it is
when it is trimmed, and it has no words just when nothing is left of it then. Words that hold no
white space, no quote and no dollar sign are read as they are written.
-/

namespace TreeShell

namespace Text

/-! ## Trimming character by character -/

theorem trimEnd_eq_rdropWhile (cs : List Char) : trimEnd cs = cs.rdropWhile isBlank := rfl

theorem trim_nil : trim [] = [] := rfl

theorem trimEnd_concat_of_isBlank {c : Char} (hc : isBlank c = true) (cs : List Char) :
    trimEnd (cs ++ [c]) = trimEnd cs :=
  List.rdropWhile_concat_pos isBlank cs c hc

theorem trimEnd_cons (c : Char) (cs : List Char) :
    trimEnd (c :: cs) = if trimEnd cs = [] then trimEnd [c] else c :: trimEnd cs := by
  induction cs using List.reverseRecOn with
  | nil => rfl
  | append_singleton cs last ih =>
    by_cases hlast : isBlank last = true
    · rw [← List.cons_append, trimEnd_concat_of_isBlank hlast, trimEnd_concat_of_isBlank hlast, ih]
    · have hkept (front : List Char) : trimEnd (front ++ [last]) = front ++ [last] :=
        List.rdropWhile_concat_neg isBlank front last hlast
      rw [← List.cons_append, hkept, hkept, if_neg (by simp), List.cons_append]

theorem trim_cons_of_isBlank {c : Char} (hc : isBlank c = true) (cs : List Char) :
    trim (c :: cs) = trim cs := by
  rw [trim, trim, List.dropWhile_cons_of_pos hc]

theorem trim_cons_of_not_isBlank {c : Char} (hc : ¬isBlank c = true) (cs : List Char) :
    trim (c :: cs) = trimEnd (c :: cs) := by
  rw [trim, List.dropWhile_cons_of_neg hc]

/-- The two ends may be trimmed in either order. -/
theorem trim_eq_dropWhile_trimEnd (cs : List Char) : trim cs = (trimEnd cs).dropWhile isBlank := by
  induction cs with
  | nil => rfl
  | cons c cs ih =>
    rw [trimEnd_cons]
    by_cases hc : isBlank c = true
    · have hsingle : trimEnd [c] = [] := trimEnd_concat_of_isBlank hc []
      rw [trim_cons_of_isBlank hc, ih, hsingle]
      split_ifs with hnil
      · rw [hnil]
      · rw [List.dropWhile_cons_of_pos hc]
    · have hsingle : trimEnd [c] = [c] := List.rdropWhile_concat_neg isBlank [] c hc
      rw [trim_cons_of_not_isBlank hc, trimEnd_cons, hsingle]
      split_ifs with hnil
      · rw [List.dropWhile_cons_of_neg hc]
      · rw [List.dropWhile_cons_of_neg hc]

/-- A trimmed text starts with the first character that is not white space. -/
theorem head?_trim (cs : List Char) : (trim cs).head? = cs.find? fun c => !isBlank c := by
  induction cs with
  | nil => rfl
  | cons c cs ih =>
    by_cases hc : isBlank c = true
    · rw [trim_cons_of_isBlank hc, ih, List.find?_cons_of_neg (by simp [hc])]
    · have hsingle : trimEnd [c] = [c] := List.rdropWhile_concat_neg isBlank [] c hc
      rw [trim_cons_of_not_isBlank hc, trimEnd_cons, hsingle, List.find?_cons_of_pos (by simp [hc])]
      split_ifs <;> rfl

/-- A text without white space has none to lose. -/
theorem trim_of_forall_not_isBlank {cs : List Char} (h : ∀ c ∈ cs, isBlank c = false) :
    trim cs = cs := by
  have hend : trimEnd cs = cs := by
    rw [trimEnd_eq_rdropWhile, List.rdropWhile_eq_self_iff]
    intro hne
    rw [h _ (List.getLast_mem hne)]
    exact Bool.false_ne_true
  rw [trim_eq_dropWhile_trimEnd, hend]
  cases cs with
  | nil => rfl
  | cons c cs =>
    rw [List.dropWhile_cons_of_neg]
    rw [h c List.mem_cons_self]
    exact Bool.false_ne_true

end Text

namespace Words

open Text

/-! ## Pieces of a line -/

/-- The pieces without the white space around them, as far as anything is left of them. -/
def kept (pieces : List (List Char)) : List (List Char) :=
  (pieces.map trim).filter fun word => !word.isEmpty

theorem written_eq (line : List Char) :
    written line = kept ((pieces none line).1 :: (pieces none line).2) := rfl

theorem kept_cons (piece : List Char) (others : List (List Char)) :
    kept (piece :: others) =
      if trim piece = [] then kept others else trim piece :: kept others := by
  rw [kept, kept, List.map_cons]
  by_cases hpiece : trim piece = []
  · rw [hpiece, if_pos rfl, List.filter_cons_of_neg (by simp)]
  · rw [if_neg hpiece, List.filter_cons_of_pos (by simpa using hpiece)]

theorem quoteAfter_of_ne {c : Char} (hdouble : c ≠ '"') (hsingle : c ≠ '\'') :
    quoteAfter none c = none := by
  have hquote : ¬(c = '"' || c = '\'') = true := by simp [hdouble, hsingle]
  rw [quoteAfter, if_neg hquote]

theorem quoteAfter_of_isBlank {c : Char} (hc : isBlank c = true) : quoteAfter none c = none := by
  refine quoteAfter_of_ne ?_ ?_
  · rintro rfl
    exact absurd hc (by decide)
  · rintro rfl
    exact absurd hc (by decide)

/-- White space before a line adds no word. -/
theorem written_cons_of_isBlank {c : Char} (hc : isBlank c = true) (line : List Char) :
    written (c :: line) = written line := by
  rw [written_eq, written_eq, pieces]
  split_ifs with hspace
  · rw [kept_cons, trim_nil, if_pos rfl]
  · rw [quoteAfter_of_isBlank hc, kept_cons, kept_cons, trim_cons_of_isBlank hc]

/-- White space after a text goes to the end of its last piece, inside quotes or not, or makes an
empty piece. -/
theorem pieces_concat_of_isBlank {c : Char} (hc : isBlank c = true) (quote : Option Char)
    (cs : List Char) :
    trimEnd (pieces quote (cs ++ [c])).1 = trimEnd (pieces quote cs).1 ∧
      kept (pieces quote (cs ++ [c])).2 = kept (pieces quote cs).2 := by
  have hsingle : trimEnd [c] = [] := trimEnd_concat_of_isBlank hc []
  -- for every quote that may be open: only its state passes from a character to the next
  induction cs generalizing quote with
  | nil =>
    rw [List.nil_append, pieces, pieces]
    split_ifs with hspace
    · exact ⟨rfl, rfl⟩
    · exact ⟨hsingle, rfl⟩
  | cons next cs ih =>
    rw [List.cons_append, pieces, pieces]
    split_ifs with hspace
    · -- the first piece behind the space is one of the others now
      obtain ⟨hpiece, hothers⟩ := ih none
      refine ⟨rfl, ?_⟩
      rw [kept_cons, kept_cons, trim_eq_dropWhile_trimEnd, hpiece, hothers,
        ← trim_eq_dropWhile_trimEnd]
    · obtain ⟨hpiece, hothers⟩ := ih (quoteAfter quote next)
      refine ⟨?_, hothers⟩
      rw [trimEnd_cons, hpiece, ← trimEnd_cons]

/-- White space after a line adds no word. -/
theorem written_concat_of_isBlank {c : Char} (hc : isBlank c = true) (line : List Char) :
    written (line ++ [c]) = written line := by
  obtain ⟨hpiece, hothers⟩ := pieces_concat_of_isBlank hc none line
  rw [written_eq, written_eq, kept_cons, kept_cons, trim_eq_dropWhile_trimEnd, hpiece, hothers,
    ← trim_eq_dropWhile_trimEnd]

/-! ## Words of a line -/

theorem written_dropWhile (line : List Char) : written (line.dropWhile isBlank) = written line := by
  induction line with
  | nil => rfl
  | cons c line ih =>
    by_cases hc : isBlank c = true
    · rw [List.dropWhile_cons_of_pos hc, ih, written_cons_of_isBlank hc]
    · rw [List.dropWhile_cons_of_neg hc]

theorem written_trimEnd (line : List Char) : written (trimEnd line) = written line := by
  induction line using List.reverseRecOn with
  | nil => rfl
  | append_singleton line c ih =>
    by_cases hc : isBlank c = true
    · rw [trimEnd_concat_of_isBlank hc, ih, written_concat_of_isBlank hc]
    · rw [trimEnd_eq_rdropWhile, List.rdropWhile_concat_neg isBlank line c hc]

/-- A line has the words that it has when it is trimmed. -/
theorem written_trim (line : List Char) : written (trim line) = written line := by
  rw [trim, written_trimEnd, written_dropWhile]

example : written "\tcd  \"a \r".toList = ["cd".toList, "\"a".toList] := by decide

/-! ## Blank lines -/

theorem not_cut_of_not_isBlank {c : Char} (hc : isBlank c = false) (quote : Option Char) :
    ¬(quote = none ∧ c = ' ') := by
  rintro ⟨-, rfl⟩
  exact absurd hc (by decide)

theorem written_cons_ne_nil {c : Char} (hc : isBlank c = false) (line : List Char) :
    written (c :: line) ≠ [] := by
  -- the first piece starts with the character, which trimming leaves there
  have hhead : (trim (c :: (pieces (quoteAfter none c) line).1)).head? = some c := by
    rw [head?_trim, List.find?_cons_of_pos (by simp [hc])]
  have hpiece : trim (c :: (pieces (quoteAfter none c) line).1) ≠ [] := by
    intro hnil
    rw [hnil] at hhead
    exact absurd hhead (by simp)
  rw [written_eq, pieces, if_neg (not_cut_of_not_isBlank hc none), kept_cons, if_neg hpiece]
  exact List.cons_ne_nil _ _

/-- A line has no words just when it is blank. -/
theorem written_eq_nil_iff {line : List Char} : written line = [] ↔ trim line = [] := by
  rw [← written_trim]
  constructor
  · intro hwritten
    cases htrim : trim line with
    | nil => rfl
    | cons c rest =>
      have hfind : line.find? (fun c => !isBlank c) = some c := by
        rw [← head?_trim, htrim, List.head?_cons]
      have hc : isBlank c = false := by simpa using List.find?_some hfind
      rw [htrim] at hwritten
      exact absurd hwritten (written_cons_ne_nil hc rest)
  · intro htrim
    rw [htrim]
    rfl

theorem ofLine_eq_nil_iff {env : Environment} {line : String} :
    ofLine env line = [] ↔ trim line.toList = [] := by
  rw [ofLine, List.map_eq_nil_iff, written_eq_nil_iff]

/-! ## Plain words -/

/-- A word that is read as it is written. -/
structure IsPlain (word : String) : Prop where
  ne_empty : word ≠ ""
  not_isBlank : ∀ c ∈ word.toList, isBlank c = false
  not_quote : ∀ c ∈ word.toList, c ≠ '"' ∧ c ≠ '\''
  dollar_not_mem : '$' ∉ word.toList

theorem isPlain_iff {word : String} :
    IsPlain word ↔ word ≠ "" ∧
      (word.toList.all fun c => !isBlank c && c != '"' && c != '\'' && c != '$') = true := by
  rw [List.all_eq_true]
  constructor
  · intro h
    refine ⟨h.ne_empty, ?_⟩
    intro c hc
    obtain ⟨hdouble, hsingle⟩ := h.not_quote c hc
    have hdollar : c ≠ '$' := ne_of_mem_of_not_mem hc h.dollar_not_mem
    simp [h.not_isBlank c hc, hdouble, hsingle, hdollar]
  · rintro ⟨hne, hall⟩
    simp only [Bool.and_eq_true, Bool.not_eq_true', bne_iff_ne] at hall
    refine ⟨hne, ?_, ?_, ?_⟩
    · intro c hc
      exact (hall c hc).1.1.1
    · intro c hc
      exact ⟨(hall c hc).1.1.2, (hall c hc).1.2⟩
    · intro hdollar
      exact (hall '$' hdollar).2 rfl

instance : DecidablePred IsPlain := fun _ => decidable_of_iff _ isPlain_iff.symm

/-- What holds no white space and no quote is no end of a piece. -/
theorem pieces_append {front : List Char} (hblank : ∀ c ∈ front, isBlank c = false)
    (hquote : ∀ c ∈ front, c ≠ '"' ∧ c ≠ '\'') (back : List Char) :
    pieces none (front ++ back) = (front ++ (pieces none back).1, (pieces none back).2) := by
  induction front with
  | nil => rfl
  | cons c front ih =>
    obtain ⟨hc, hblank⟩ := List.forall_mem_cons.mp hblank
    obtain ⟨⟨hdouble, hsingle⟩, hquote⟩ := List.forall_mem_cons.mp hquote
    rw [List.cons_append, pieces, if_neg (not_cut_of_not_isBlank hc none),
      quoteAfter_of_ne hdouble hsingle, ih hblank hquote]
    rfl

section Plain

variable {env : Environment} {word : String}

theorem IsPlain.trim_eq (h : IsPlain word) : trim word.toList = word.toList :=
  trim_of_forall_not_isBlank h.not_isBlank

theorem IsPlain.toList_ne_nil (h : IsPlain word) : word.toList ≠ [] := by
  rw [ne_eq, String.toList_eq_nil_iff]
  exact h.ne_empty

theorem IsPlain.written_eq (h : IsPlain word) : written word.toList = [word.toList] := by
  have hpieces := pieces_append h.not_isBlank h.not_quote []
  rw [List.append_nil] at hpieces
  rw [Words.written_eq, hpieces, pieces, List.append_nil, kept_cons, h.trim_eq,
    if_neg h.toList_ne_nil]
  rfl

theorem IsPlain.written_append (h : IsPlain word) (line : List Char) :
    written (word.toList ++ ' ' :: line) = word.toList :: written line := by
  have hcut : pieces none (' ' :: line) = ([], (pieces none line).1 :: (pieces none line).2) := rfl
  rw [Words.written_eq, pieces_append h.not_isBlank h.not_quote, hcut, List.append_nil, kept_cons,
    h.trim_eq, if_neg h.toList_ne_nil, ← Words.written_eq]

theorem IsPlain.expand_eq (h : IsPlain word) :
    String.ofList (Expansion.expand env word.toList) = word := by
  rw [Expansion.expand_of_not_mem h.dollar_not_mem, String.ofList_toList]

/-- A plain word and another one behind a space are the words of a line. -/
theorem IsPlain.ofLine_pair {other : String} (h : IsPlain word) (hother : IsPlain other) :
    ofLine env (word ++ " " ++ other) = [word, other] := by
  have hline : (word ++ " " ++ other).toList = word.toList ++ ' ' :: other.toList := by simp
  rw [ofLine, hline, h.written_append, hother.written_eq, List.map_cons, List.map_singleton,
    h.expand_eq, hother.expand_eq]

end Plain

end Words

/-- A line is executed as it is when it is trimmed. -/
theorem Session.execute_trim (session : Session) (line : List Char) :
    session.execute (String.ofList (Text.trim line)) = session.execute (String.ofList line) := by
  have hwords : Words.ofLine session.config.env (String.ofList (Text.trim line)) =
      Words.ofLine session.config.env (String.ofList line) := by
    rw [Words.ofLine, Words.ofLine, String.toList_ofList, String.toList_ofList, Words.written_trim]
  rw [Session.execute, Session.execute, hwords]

/-- A line of white space does nothing. -/
theorem Session.execute_blank (session : Session) {line : List Char} (hline : Text.trim line = []) :
    session.execute (String.ofList line) = { reply := .done {}, session } := by
  rw [← session.execute_trim, hline]
  rfl

theorem Session.execute_of_trim_eq_nil (session : Session) {line : String}
    (hline : Text.trim line.toList = []) :
    session.execute line = { reply := .done {}, session } := by
  have hblank := session.execute_blank hline
  rwa [String.ofList_toList] at hblank

end TreeShell
