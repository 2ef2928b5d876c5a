import Mathlib.Data.List.Basic
import Mathlib.Tactic.SplitIfs
import TreeShell.Command.Listing

/-!
# Reading a quoted list

Without a file system `ls` shows its operands as a quoted list. Whichever quotes an item stands in,
backslashes and these quotes have a backslash before them inside the item, so that it ends at the
first quote without one. The list is therefore read back from its text, whatever characters the
items hold, and `ls` shows two lists of operands in the same way only if they are equal.
-/

namespace TreeShell.Command

/-! ## The reader -/

/-- Reads an item behind its opening quote: the characters of the item, and the text behind its
closing quote. A character behind a backslash is taken as it is. -/
def unquote? (quote : Char) : List Char → Option (List Char × List Char)
  | [] => none
  | '\\' :: c :: rest => (unquote? quote rest).map fun (item, rest) => (c :: item, rest)
  | c :: rest =>
    if c = quote then some ([], rest)
    else (unquote? quote rest).map fun (item, rest) => (c :: item, rest)

/-- Reads an item in quotes of either kind. -/
def quotedItem? : List Char → Option (String × List Char)
  | [] => none
  | quote :: rest =>
    if quote = '\'' ∨ quote = '"' then
      (unquote? quote rest).map fun (item, rest) => (String.ofList item, rest)
    else none

theorem length_of_unquote {quote : Char} {cs item rest : List Char}
    (h : unquote? quote cs = some (item, rest)) : rest.length < cs.length := by
  fun_induction unquote? quote cs generalizing item rest with
  | case1 => cases h
  | case2 c cs ih =>
    obtain ⟨⟨tail, rest'⟩, htail, hpair⟩ := Option.map_eq_some_iff.mp h
    obtain ⟨-, rfl⟩ := Prod.mk.inj hpair
    have hlt := ih htail
    simp only [List.length_cons]
    omega
  | case3 c cs =>
    obtain ⟨-, rfl⟩ := Prod.mk.inj (Option.some.inj h)
    simp
  | case4 c cs _ _ ih =>
    obtain ⟨⟨tail, rest'⟩, htail, hpair⟩ := Option.map_eq_some_iff.mp h
    obtain ⟨-, rfl⟩ := Prod.mk.inj hpair
    have hlt := ih htail
    simp only [List.length_cons]
    omega

theorem length_of_quotedItem {cs rest : List Char} {item : String}
    (h : quotedItem? cs = some (item, rest)) : rest.length < cs.length := by
  cases cs with
  | nil => cases h
  | cons quote cs =>
    rw [quotedItem?] at h
    split_ifs at h
    obtain ⟨⟨text, rest'⟩, htext, hpair⟩ := Option.map_eq_some_iff.mp h
    obtain ⟨-, rfl⟩ := Prod.mk.inj hpair
    have hlt := length_of_unquote htext
    simp only [List.length_cons]
    omega

/-- Reads one or more items up to the bracket behind them, and gives the text behind the bracket
too. -/
def quotedItems? (cs : List Char) : Option (List String × List Char) :=
  match _h : quotedItem? cs with
  | some (item, ']' :: rest) => some ([item], rest)
  | some (item, ',' :: ' ' :: rest) =>
    (quotedItems? rest).map fun (items, rest) => (item :: items, rest)
  | _ => none
termination_by cs.length
decreasing_by
  have hlt := length_of_quotedItem _h
  simp only [List.length_cons] at hlt
  omega

/-- Reads a quoted list, and gives the text behind it too. -/
def quotedList? : List Char → Option (List String × List Char)
  | '[' :: ']' :: rest => some ([], rest)
  | '[' :: rest => quotedItems? rest
  | _ => none

/-! ## What is written is read back -/

/-- A character as it is written between two quotes. -/
def hide (quote c : Char) : List Char := if c = '\\' ∨ c = quote then ['\\', c] else [c]

variable {quote : Char}

theorem unquote?_hide (hquote : quote ≠ '\\') (item rest : List Char) :
    unquote? quote (item.flatMap (hide quote) ++ quote :: rest) = some (item, rest) := by
  induction item with
  | nil =>
    rw [List.flatMap_nil, List.nil_append, unquote?, if_pos rfl]
    exact fun c tail hslash => absurd hslash hquote
  | cons c item ih =>
    rw [List.flatMap_cons, List.append_assoc, hide]
    by_cases hc : c = '\\' ∨ c = quote
    · rw [if_pos hc, List.cons_append, List.singleton_append, unquote?, ih, Option.map_some]
    · rw [not_or] at hc
      rw [if_neg (not_or.mpr hc), List.singleton_append, unquote?, if_neg hc.2, ih, Option.map_some]
      exact fun _ _ hslash => absurd hslash hc.1

/-- The kind of quotes decides which characters have a backslash before them. -/
theorem exists_quoted (item : String) :
    ∃ quote, (quote = '\'' ∨ quote = '"') ∧
      (quoted item).toList = quote :: (item.toList.flatMap (hide quote) ++ [quote]) := by
  rw [quoted]
  split_ifs with hdouble
  · refine ⟨'"', Or.inr rfl, ?_⟩
    have hitem : '"' ∉ item.toList := by
      intro hmem
      exact hdouble.2 (List.mem_flatMap.mpr ⟨'"', hmem, by decide⟩)
    have hhide : item.toList.flatMap (fun c => if c = '\\' then ['\\', '\\'] else [c]) =
        item.toList.flatMap (hide '"') := by
      refine List.flatMap_congr fun c hc => ?_
      have hne : c ≠ '"' := fun heq => hitem (heq ▸ hc)
      by_cases hslash : c = '\\'
      · subst hslash
        rfl
      · rw [hide, if_neg hslash, if_neg (not_or.mpr ⟨hslash, hne⟩)]
    rw [hhide]
    simp
  · refine ⟨'\'', Or.inl rfl, ?_⟩
    have hhide : (item.toList.flatMap (fun c => if c = '\\' then ['\\', '\\'] else [c])).flatMap
          (fun c => if c = '\'' then ['\\', '\''] else [c]) =
        item.toList.flatMap (hide '\'') := by
      rw [List.flatMap_assoc]
      refine List.flatMap_congr fun c _ => ?_
      by_cases hslash : c = '\\'
      · subst hslash
        rfl
      by_cases hquote : c = '\''
      · subst hquote
        rfl
      · rw [hide, if_neg hslash, if_neg (not_or.mpr ⟨hslash, hquote⟩), List.flatMap_singleton,
          if_neg hquote]
    rw [hhide]
    simp

theorem quotedItem?_quoted (item : String) (rest : List Char) :
    quotedItem? ((quoted item).toList ++ rest) = some (item, rest) := by
  obtain ⟨quote, hquote, htext⟩ := exists_quoted item
  have hslash : quote ≠ '\\' := by
    rcases hquote with rfl | rfl
    · decide
    · decide
  rw [htext, List.cons_append, List.append_assoc, List.singleton_append, quotedItem?, if_pos hquote,
    unquote?_hide hslash]
  simp

theorem quotedItems?_intercalate {items : List String} (h : items ≠ []) (rest : List Char) :
    quotedItems? ((", ".intercalate (items.map quoted)).toList ++ ']' :: rest) =
      some (items, rest) := by
  induction items with
  | nil => exact absurd rfl h
  | cons item items ih =>
    cases items with
    | nil =>
      have htext : (", ".intercalate ([item].map quoted)).toList ++ ']' :: rest =
          (quoted item).toList ++ ']' :: rest := by
        simp
      rw [htext, quotedItems?, quotedItem?_quoted]
      rfl
    | cons next items =>
      have htext : (", ".intercalate ((item :: next :: items).map quoted)).toList ++ ']' :: rest =
          (quoted item).toList ++ ',' :: ' ' ::
            ((", ".intercalate ((next :: items).map quoted)).toList ++ ']' :: rest) := by
        simp
      rw [htext, quotedItems?, quotedItem?_quoted]
      simp only [ih (List.cons_ne_nil next items), Option.map_some]

theorem quotedList?_quotedList (items : List String) (rest : List Char) :
    quotedList? ((quotedList items).toList ++ rest) = some (items, rest) := by
  cases items with
  | nil => rfl
  | cons item items =>
    have htext : (quotedList (item :: items)).toList ++ rest =
        '[' :: ((", ".intercalate ((item :: items).map quoted)).toList ++ ']' :: rest) := by
      simp [quotedList]
    rw [htext, quotedList?, quotedItems?_intercalate (List.cons_ne_nil item items)]
    -- the text of the items opens with a quote, not with the bracket of the empty list
    intro tail hbracket
    obtain ⟨quote, hquote, hitem⟩ := exists_quoted item
    have hopen : (", ".intercalate ((item :: items).map quoted)).toList.head? = some quote := by
      cases items with
      | nil => simp [hitem]
      | cons next items => simp [hitem]
    have hhead := congrArg List.head? hbracket
    rw [List.head?_append, hopen, Option.some_or, List.head?_cons, Option.some.injEq] at hhead
    subst hhead
    exact absurd hquote (by decide)

/-- A quoted list ends where it ends, so that nothing behind it can make two lists look alike. -/
theorem eq_of_quotedList_append_eq {items others : List String} {rest rest' : List Char}
    (h : (quotedList items).toList ++ rest = (quotedList others).toList ++ rest') :
    items = others := by
  have hread := quotedList?_quotedList items rest
  rw [h, quotedList?_quotedList others rest'] at hread
  exact (Prod.mk.inj (Option.some.inj hread)).1.symm

theorem quotedList_injective : Function.Injective quotedList := by
  intro items others h
  have htexts : (quotedList items).toList ++ [] = (quotedList others).toList ++ [] := by rw [h]
  exact eq_of_quotedList_append_eq htexts

/-! ## The operands that are shown -/

/-- What `ls` says without a file system opens with its operands. -/
theorem exists_stdout_listStub (args : List String) :
    ∃ rest, (listStub args).stdout =
      "ls: command called with arguments: " ++ quotedList args ++ rest :=
  ⟨_, String.append_assoc⟩

theorem stdout_listStub_injective {args others : List String}
    (h : (listStub args).stdout = (listStub others).stdout) : args = others := by
  obtain ⟨rest, hrest⟩ := exists_stdout_listStub args
  obtain ⟨rest', hrest'⟩ := exists_stdout_listStub others
  have htexts := congrArg String.toList h
  rw [hrest, hrest'] at htexts
  simp only [String.toList_append, List.append_assoc] at htexts
  exact eq_of_quotedList_append_eq (List.append_cancel_left htexts)

/-- A quoted list is read back whatever its items hold and whatever stands behind it. So different
lists have different texts, and without a file system `ls` prints the same for two lists of operands
just when they are the same list. -/
theorem ls_shows_operands_unambiguously :
    (∀ items rest, quotedList? ((quotedList items).toList ++ rest) = some (items, rest)) ∧
    Function.Injective quotedList ∧
    ∀ session other : Session, session.fileSystem = none → other.fileSystem = none →
      ∀ args others, (ls session args).stdout = (ls other others).stdout ↔ args = others := by
  refine ⟨quotedList?_quotedList, quotedList_injective, ?_⟩
  intro session other hsession hother args others
  have hargs : ls session args = listStub args := by rw [ls, hsession]
  have hothers : ls other others = listStub others := by rw [ls, hother]
  rw [hargs, hothers]
  constructor
  · exact stdout_listStub_injective
  · rintro rfl
    rfl

/-- One operand that reads like two between quotes, and two operands. -/
theorem ls_shows_separator_inside_operand :
    let session : Session :=
      { config := { username := "", hostname := "", cwd := "/", home := "/" } }
    session.fileSystem = none ∧
      quotedList ["a', \"b", "\\", ""] = "['a\\', \"b', '\\\\', '']" ∧
      quotedList? "['a\\', \"b', '\\\\', '']\n".toList = some (["a', \"b", "\\", ""], ['\n']) ∧
      (ls session ["a', 'b"]).stdout ≠ (ls session ["a", "b"]).stdout := by
  intro session
  have hsession : session.fileSystem = none := rfl
  obtain ⟨hread, -, hls⟩ := ls_shows_operands_unambiguously
  have htext : quotedList ["a', \"b", "\\", ""] = "['a\\', \"b', '\\\\', '']" := by decide +kernel
  refine ⟨hsession, htext, ?_, ?_⟩
  · have hall := hread ["a', \"b", "\\", ""] ['\n']
    rw [htext] at hall
    exact hall
  · intro hstdout
    exact absurd ((hls session session hsession hsession _ _).mp hstdout) (by decide)

end TreeShell.Command
