import TreeShell.Document.Json.Reading
import TreeShell.Document.Value
import TreeShell.Proofs.SpelledText

/-!
# Spellings of a value

JSON writes a value as a row of tokens: marks, and texts in quotes. White space may stand before and
behind each of them. A value that is put together from texts is read back from every spelling of its
tokens, up to the nesting that the reader allows: first as its events, and from these as the value
itself, wherever it stands among other values.
-/

namespace TreeShell.Document

/-! ## Events of a value -/

/-- The event that a scalar is read as. A text is a label as well. -/
def Scalar.event : Scalar → Event
  | .string text => .scalar (some (.string text)) (some text)
  | value => .scalar (some value) none

mutual

/-- The events that a value is read as. -/
def Value.events : Value → List Event
  | .scalar value => [value.event]
  | .sequence items => .openSequence :: eventsOfItems items
  | .mapping entries => .openMapping :: eventsOfEntries entries

/-- The events of the items of a sequence and of its end. -/
def eventsOfItems : List Value → List Event
  | [] => [.closeSequence]
  | item :: items => item.events ++ eventsOfItems items

/-- The events of the entries of a mapping and of its end. -/
def eventsOfEntries : List (Value × Value) → List Event
  | [] => [.closeMapping]
  | (key, value) :: entries => key.events ++ (value.events ++ eventsOfEntries entries)

end

/-- What becomes of a value that has been read inside the containers that are open. -/
def Value.settle (value : Value) (stack : List OpenContainer) (rest : List Event) :
    Option (Value × List Event) :=
  match stack with
  | [] => some (value, rest)
  | container :: stack => Value.take (container.add value :: stack) rest

mutual

/-- A value is put together again from its events, and settled where it stands. -/
theorem take_events (value : Value) (stack : List OpenContainer) (rest : List Event) :
    Value.take stack (value.events ++ rest) = value.settle stack rest := by
  cases value with
  | scalar value =>
    rw [Value.events, List.singleton_append]
    cases stack with
    | nil => cases value <;> rfl
    | cons container stack => cases value <;> rfl
  | sequence items =>
    rw [Value.events, List.cons_append, Value.take]
    exact take_eventsOfItems items [] stack rest
  | mapping entries =>
    rw [Value.events, List.cons_append, Value.take]
    exact take_eventsOfEntries entries [] stack rest

theorem take_eventsOfItems (items read : List Value) (stack : List OpenContainer)
    (rest : List Event) :
    Value.take (.sequence read :: stack) (eventsOfItems items ++ rest) =
      (Value.sequence (read.reverse ++ items)).settle stack rest := by
  cases items with
  | nil =>
    rw [eventsOfItems, List.singleton_append, List.append_nil]
    cases stack <;> rfl
  | cons item items =>
    rw [eventsOfItems, List.append_assoc, take_events item]
    show Value.take (.sequence (item :: read) :: stack) (eventsOfItems items ++ rest) = _
    rw [take_eventsOfItems items, List.reverse_cons, List.append_assoc, List.singleton_append]

theorem take_eventsOfEntries (entries read : List (Value × Value)) (stack : List OpenContainer)
    (rest : List Event) :
    Value.take (.mapping read none :: stack) (eventsOfEntries entries ++ rest) =
      (Value.mapping (read.reverse ++ entries)).settle stack rest := by
  cases entries with
  | nil =>
    rw [eventsOfEntries, List.singleton_append, List.append_nil]
    cases stack <;> rfl
  | cons entry entries =>
    obtain ⟨key, value⟩ := entry
    rw [eventsOfEntries, List.append_assoc, List.append_assoc, take_events key]
    show Value.take (.mapping read (some key) :: stack) _ = _
    rw [take_events value]
    show Value.take (.mapping ((key, value) :: read) none :: stack) _ = _
    rw [take_eventsOfEntries entries, List.reverse_cons, List.append_assoc, List.singleton_append]

end

/-- A reading with more events at its start. -/
def Reading.afterAll (events : List Event) (reading : Reading) : Reading :=
  { reading with events := events ++ reading.events }

theorem Reading.afterAll_afterAll (front back : List Event) (reading : Reading) :
    (reading.afterAll back).afterAll front = reading.afterAll (front ++ back) := by
  rw [afterAll, afterAll, afterAll, List.append_assoc]

theorem Reading.after_afterAll (event : Event) (events : List Event) (reading : Reading) :
    (reading.afterAll events).after event = reading.afterAll (event :: events) := rfl

namespace Json

/-! ## Spellings -/

/-- A part of a text that white space may stand around. -/
inductive Token where
  /-- A bracket, a brace, a comma or a colon. -/
  | mark (c : Char)
  /-- A scalar. -/
  | scalar (value : Scalar)

mutual

/-- The tokens that write a value. -/
def tokensOf : Value → List Token
  | .scalar value => [.scalar value]
  | .sequence [] => [.mark '[', .mark ']']
  | .sequence (item :: items) => .mark '[' :: (tokensOf item ++ tokensOfItems items)
  | .mapping [] => [.mark '{', .mark '}']
  | .mapping ((key, value) :: entries) =>
    .mark '{' :: (tokensOf key ++ .mark ':' :: (tokensOf value ++ tokensOfEntries entries))

/-- The tokens behind an item of a sequence: those of the other items, and the end. -/
def tokensOfItems : List Value → List Token
  | [] => [.mark ']']
  | item :: items => .mark ',' :: (tokensOf item ++ tokensOfItems items)

/-- The tokens behind an entry of a mapping: those of the other entries, and the end. -/
def tokensOfEntries : List (Value × Value) → List Token
  | [] => [.mark '}']
  | (key, value) :: entries =>
    .mark ',' :: (tokensOf key ++ .mark ':' :: (tokensOf value ++ tokensOfEntries entries))

end

/-- White space that means nothing. -/
def IsGap (cs : List Char) : Prop := ∀ c ∈ cs, c ∈ [' ', '\t', '\n', '\r']

/-- The ways to write a token. Of the scalars, texts are written. -/
inductive SpellsToken : Token → List Char → Prop
  | mark (c : Char) : SpellsToken (.mark c) [c]
  | text {text : String} {written : List Char} (h : SpellsText text.toList written) :
      SpellsToken (.scalar (.string text)) ('"' :: (written ++ ['"']))

/-- The ways to write tokens one after the other, with white space before and behind each. -/
inductive SpellsTokens : List Token → List Char → Prop
  | nil {gap : List Char} (hgap : IsGap gap) : SpellsTokens [] gap
  | cons {token : Token} {tokens : List Token} {gap written rest : List Char} (hgap : IsGap gap)
      (htoken : SpellsToken token written) (h : SpellsTokens tokens rest) :
      SpellsTokens (token :: tokens) (gap ++ (written ++ rest))

/-- The ways to write a value. -/
def Spells (value : Value) (text : List Char) : Prop := SpellsTokens (tokensOf value) text

section Spelling

variable {tokens : List Token} {rest : List Char}

theorem isGap_nil : IsGap [] := fun _ hc => absurd hc List.not_mem_nil

theorem SpellsTokens.mark (h : SpellsTokens tokens rest) (c : Char) :
    SpellsTokens (.mark c :: tokens) (c :: rest) :=
  .cons isGap_nil (.mark c) h

theorem SpellsTokens.text (h : SpellsTokens tokens rest) {text : String} {written : List Char}
    (htext : SpellsText text.toList written) :
    SpellsTokens (.scalar (.string text) :: tokens) ('"' :: (written ++ '"' :: rest)) := by
  have hspells := SpellsTokens.cons isGap_nil (.text htext) h
  simpa using hspells

theorem SpellsTokens.space (h : SpellsTokens tokens rest) : SpellsTokens tokens (' ' :: rest) := by
  have hspace : ' ' ∈ [' ', '\t', '\n', '\r'] := List.mem_cons_self
  cases h with
  | nil hgap => exact .nil (List.forall_mem_cons.mpr ⟨hspace, hgap⟩)
  | cons hgap htoken h => exact .cons (List.forall_mem_cons.mpr ⟨hspace, hgap⟩) htoken h

end Spelling

/-- A value whose keys are texts and whose containers are nested no deeper than a limit. -/
inductive Within : Nat → Value → Prop
  | scalar {limit : Nat} (value : Scalar) : Within limit (.scalar value)
  | sequence {limit : Nat} {items : List Value} (h : ∀ item ∈ items, Within limit item) :
      Within (limit + 1) (.sequence items)
  | mapping {limit : Nat} {entries : List (Value × Value)}
      (hkeys : ∀ entry ∈ entries, ∃ key, entry.1 = .scalar (.string key))
      (h : ∀ entry ∈ entries, Within limit entry.2) : Within (limit + 1) (.mapping entries)

/-! ## Reading one token -/

section Tokens

variable {stack : List Container} {expected : Expected} {cs rest : List Char}
  {tokens : List Token}

theorem readFrom_gap {gap : List Char} (hgap : IsGap gap) :
    readFrom stack expected (gap ++ cs) = readFrom stack expected cs := by
  induction gap with
  | nil => rfl
  | cons c gap ih =>
    obtain ⟨hc, hgap⟩ := List.forall_mem_cons.mp hgap
    have hspace : isSpace c = true := by
      have hall : [' ', '\t', '\n', '\r'].all isSpace = true := by decide
      exact List.all_eq_true.mp hall c hc
    rw [List.cons_append, readFrom.eq_def]
    exact (if_pos hspace).trans (ih hgap)

/-- Before a mark the reader comes to the mark. -/
theorem exists_mark {c : Char} (h : SpellsTokens (.mark c :: tokens) cs) :
    ∃ rest, SpellsTokens tokens rest ∧
      ∀ stack expected, readFrom stack expected cs = readFrom stack expected (c :: rest) := by
  cases h with
  | cons hgap htoken h =>
    cases htoken with
    | mark => exact ⟨_, h, fun stack expected => readFrom_gap hgap⟩

/-- Before a text the reader comes to its quote. -/
theorem exists_text {text : String} (h : SpellsTokens (.scalar (.string text) :: tokens) cs) :
    ∃ quoted rest, SpellsTokens tokens rest ∧ quoted? quoted = some (text.toList, rest) ∧
      ∀ stack expected, readFrom stack expected cs = readFrom stack expected ('"' :: quoted) := by
  cases h with
  | @cons _ _ gap _ rest hgap htoken h =>
    cases htoken with
    | @text _ written htext =>
      refine ⟨written ++ '"' :: rest, rest, h, quoted?_of_spellsText htext rest, ?_⟩
      intro stack expected
      have hlist : gap ++ ('"' :: (written ++ ['"']) ++ rest) =
          gap ++ '"' :: (written ++ '"' :: rest) := by simp
      rw [hlist, readFrom_gap hgap]

/-- What may come behind a text: a colon behind a key, and what ends a value behind any other. -/
def behindText : Expected → Expected
  | .firstKey | .key => .colon
  | _ => .separator

theorem readFrom_text {text : String} {quoted : List Char}
    (h : quoted? quoted = some (text.toList, rest)) (hseparator : expected ≠ .separator)
    (hcolon : expected ≠ .colon) :
    readFrom stack expected ('"' :: quoted) =
      (readFrom stack (behindText expected) rest).after (Scalar.string text).event := by
  have hspace : ¬isSpace '"' = true := by decide
  rw [readFrom.eq_def]
  cases expected with
  | separator => exact absurd rfl hseparator
  | colon => exact absurd rfl hcolon
  | value | firstItem | firstKey | key =>
    simp only [if_neg hspace]
    split
    · next h' =>
      rw [h] at h'
      exact absurd h' (by simp)
    · next h' =>
      rw [h] at h'
      obtain ⟨rfl, rfl⟩ := Prod.mk.inj (Option.some.inj h')
      rw [String.ofList_toList]
      rfl

theorem readFrom_openSequence (hexpected : expected = .value ∨ expected = .firstItem)
    (hdepth : stack.length < depthLimit) :
    readFrom stack expected ('[' :: rest) =
      (readFrom (.sequence :: stack) .firstItem rest).after .openSequence := by
  have hspace : ¬isSpace '[' = true := by decide
  rw [readFrom.eq_def]
  rcases hexpected with rfl | rfl
  · simp only [if_neg hspace, if_pos hdepth]
  · simp only [if_neg hspace, if_pos hdepth]

theorem readFrom_openMapping (hexpected : expected = .value ∨ expected = .firstItem)
    (hdepth : stack.length < depthLimit) :
    readFrom stack expected ('{' :: rest) =
      (readFrom (.mapping :: stack) .firstKey rest).after .openMapping := by
  have hspace : ¬isSpace '{' = true := by decide
  rw [readFrom.eq_def]
  rcases hexpected with rfl | rfl
  · simp only [if_neg hspace, if_pos hdepth]
  · simp only [if_neg hspace, if_pos hdepth]

theorem readFrom_closeSequence (hexpected : expected = .firstItem ∨ expected = .separator) :
    readFrom (.sequence :: stack) expected (']' :: rest) =
      (readFrom stack .separator rest).after .closeSequence := by
  have hspace : ¬isSpace ']' = true := by decide
  rw [readFrom.eq_def]
  rcases hexpected with rfl | rfl
  · simp only [if_neg hspace, if_true]
  · simp only [if_neg hspace, if_true]

theorem readFrom_closeMapping (hexpected : expected = .firstKey ∨ expected = .separator) :
    readFrom (.mapping :: stack) expected ('}' :: rest) =
      (readFrom stack .separator rest).after .closeMapping := by
  have hspace : ¬isSpace '}' = true := by decide
  rw [readFrom.eq_def]
  rcases hexpected with rfl | rfl
  · simp only [if_neg hspace, if_true]
  · simp only [if_neg hspace, if_true]

theorem readFrom_comma (container : Container) :
    readFrom (container :: stack) .separator (',' :: rest) =
      readFrom (container :: stack)
        (match container with | .sequence => .value | .mapping => .key) rest := by
  have hspace : ¬isSpace ',' = true := by decide
  rw [readFrom.eq_def]
  cases container with
  | sequence | mapping => simp only [if_neg hspace]

theorem readFrom_colon : readFrom stack .colon (':' :: rest) = readFrom stack .value rest := by
  have hspace : ¬isSpace ':' = true := by decide
  rw [readFrom.eq_def]
  simp only [if_neg hspace]

/-- Before an entry of a mapping the reader comes to the value of the entry. -/
theorem exists_value_of_entry {key : String}
    (h : SpellsTokens (.scalar (.string key) :: .mark ':' :: tokens) cs)
    (hexpected : expected = .firstKey ∨ expected = .key) :
    ∃ rest, SpellsTokens tokens rest ∧
      readFrom stack expected cs =
        (readFrom stack .value rest).after (Scalar.string key).event := by
  obtain ⟨quoted, behind, h, hquoted, hread⟩ := exists_text h
  obtain ⟨rest, h, hcolon⟩ := exists_mark h
  refine ⟨rest, h, ?_⟩
  rw [hread]
  rcases hexpected with rfl | rfl
  · rw [readFrom_text hquoted (by decide) (by decide), behindText, hcolon, readFrom_colon]
  · rw [readFrom_text hquoted (by decide) (by decide), behindText, hcolon, readFrom_colon]

end Tokens

/-! ## Reading a value -/

mutual

/-- Wherever a value may stand, the reader takes its events and comes to what is behind it. -/
theorem exists_behind_value (value : Value) {limit : Nat} (hvalue : Within limit value)
    {stack : List Container} {expected : Expected} {tokens : List Token} {cs : List Char}
    (hdepth : stack.length + limit ≤ depthLimit)
    (hexpected : expected = .value ∨ expected = .firstItem)
    (h : SpellsTokens (tokensOf value ++ tokens) cs) :
    ∃ rest, SpellsTokens tokens rest ∧
      readFrom stack expected cs = (readFrom stack .separator rest).afterAll value.events := by
  cases value with
  | scalar value =>
    cases value with
    | string text =>
      obtain ⟨quoted, rest, h, hquoted, hread⟩ := exists_text h
      refine ⟨rest, h, ?_⟩
      rw [hread]
      rcases hexpected with rfl | rfl
      · exact readFrom_text hquoted (by decide) (by decide)
      · exact readFrom_text hquoted (by decide) (by decide)
    | null | bool | natural | minus | float =>
      -- such a scalar has no spelling
      cases h with
      | cons _ htoken _ => exact nomatch htoken
  | sequence items =>
    cases hvalue with
    | @sequence limit _ hitems =>
      have hlength : stack.length < depthLimit := by omega
      have hinner : (Container.sequence :: stack).length + limit ≤ depthLimit := by
        rw [List.length_cons]
        omega
      cases items with
      | nil =>
        obtain ⟨inside, h, hopen⟩ := exists_mark h
        obtain ⟨rest, h, hclose⟩ := exists_mark h
        refine ⟨rest, h, ?_⟩
        rw [hopen, readFrom_openSequence hexpected hlength, hclose,
          readFrom_closeSequence (Or.inl rfl)]
        rfl
      | cons item items =>
        obtain ⟨hitem, hothers⟩ := List.forall_mem_cons.mp hitems
        rw [tokensOf, List.cons_append, List.append_assoc] at h
        obtain ⟨inside, h, hopen⟩ := exists_mark h
        obtain ⟨behind, h, hread⟩ := exists_behind_value item hitem hinner (Or.inr rfl) h
        obtain ⟨rest, h, hitemsRead⟩ := exists_behind_items items hothers hinner h
        refine ⟨rest, h, ?_⟩
        rw [hopen, readFrom_openSequence hexpected hlength, hread, hitemsRead,
          Reading.afterAll_afterAll, Reading.after_afterAll]
        rfl
  | mapping entries =>
    cases hvalue with
    | @mapping limit _ hkeys hentries =>
      have hlength : stack.length < depthLimit := by omega
      have hinner : (Container.mapping :: stack).length + limit ≤ depthLimit := by
        rw [List.length_cons]
        omega
      cases entries with
      | nil =>
        obtain ⟨inside, h, hopen⟩ := exists_mark h
        obtain ⟨rest, h, hclose⟩ := exists_mark h
        refine ⟨rest, h, ?_⟩
        rw [hopen, readFrom_openMapping hexpected hlength, hclose,
          readFrom_closeMapping (Or.inl rfl)]
        rfl
      | cons entry entries =>
        obtain ⟨⟨key, hkey⟩, hotherKeys⟩ := List.forall_mem_cons.mp hkeys
        obtain ⟨hentry, hothers⟩ := List.forall_mem_cons.mp hentries
        obtain ⟨_, value⟩ := entry
        obtain rfl : _ = Value.scalar (.string key) := hkey
        simp only [tokensOf, List.cons_append, List.nil_append, List.append_assoc] at h
        obtain ⟨inside, h, hopen⟩ := exists_mark h
        obtain ⟨front, h, hkeyRead⟩ := exists_value_of_entry h (Or.inl rfl)
        obtain ⟨behind, h, hread⟩ := exists_behind_value value hentry hinner (Or.inl rfl) h
        obtain ⟨rest, h, hentriesRead⟩ := exists_behind_entries entries hotherKeys hothers hinner h
        refine ⟨rest, h, ?_⟩
        rw [hopen, readFrom_openMapping hexpected hlength, hkeyRead, hread, hentriesRead,
          Reading.afterAll_afterAll, Reading.after_afterAll, Reading.after_afterAll]
        rfl

theorem exists_behind_items (items : List Value) {limit : Nat}
    (hitems : ∀ item ∈ items, Within limit item) {stack : List Container} {tokens : List Token}
    {cs : List Char} (hdepth : (Container.sequence :: stack).length + limit ≤ depthLimit)
    (h : SpellsTokens (tokensOfItems items ++ tokens) cs) :
    ∃ rest, SpellsTokens tokens rest ∧
      readFrom (.sequence :: stack) .separator cs =
        (readFrom stack .separator rest).afterAll (eventsOfItems items) := by
  cases items with
  | nil =>
    obtain ⟨rest, h, hclose⟩ := exists_mark h
    refine ⟨rest, h, ?_⟩
    rw [hclose, readFrom_closeSequence (Or.inr rfl)]
    rfl
  | cons item items =>
    obtain ⟨hitem, hothers⟩ := List.forall_mem_cons.mp hitems
    rw [tokensOfItems, List.cons_append, List.append_assoc] at h
    obtain ⟨front, h, hcomma⟩ := exists_mark h
    obtain ⟨behind, h, hread⟩ := exists_behind_value item hitem hdepth (Or.inl rfl) h
    obtain ⟨rest, h, hitemsRead⟩ := exists_behind_items items hothers hdepth h
    refine ⟨rest, h, ?_⟩
    rw [hcomma, readFrom_comma, hread, hitemsRead, Reading.afterAll_afterAll]
    rfl

theorem exists_behind_entries (entries : List (Value × Value)) {limit : Nat}
    (hkeys : ∀ entry ∈ entries, ∃ key, entry.1 = .scalar (.string key))
    (hentries : ∀ entry ∈ entries, Within limit entry.2) {stack : List Container}
    {tokens : List Token} {cs : List Char}
    (hdepth : (Container.mapping :: stack).length + limit ≤ depthLimit)
    (h : SpellsTokens (tokensOfEntries entries ++ tokens) cs) :
    ∃ rest, SpellsTokens tokens rest ∧
      readFrom (.mapping :: stack) .separator cs =
        (readFrom stack .separator rest).afterAll (eventsOfEntries entries) := by
  cases entries with
  | nil =>
    obtain ⟨rest, h, hclose⟩ := exists_mark h
    refine ⟨rest, h, ?_⟩
    rw [hclose, readFrom_closeMapping (Or.inr rfl)]
    rfl
  | cons entry entries =>
    obtain ⟨⟨key, hkey⟩, hotherKeys⟩ := List.forall_mem_cons.mp hkeys
    obtain ⟨hentry, hothers⟩ := List.forall_mem_cons.mp hentries
    obtain ⟨_, value⟩ := entry
    obtain rfl : _ = Value.scalar (.string key) := hkey
    simp only [tokensOfEntries, tokensOf, List.cons_append, List.nil_append, List.append_assoc] at h
    obtain ⟨front, h, hcomma⟩ := exists_mark h
    obtain ⟨inside, h, hkeyRead⟩ := exists_value_of_entry h (Or.inr rfl)
    obtain ⟨behind, h, hread⟩ := exists_behind_value value hentry hdepth (Or.inl rfl) h
    obtain ⟨rest, h, hentriesRead⟩ := exists_behind_entries entries hotherKeys hothers hdepth h
    refine ⟨rest, h, ?_⟩
    rw [hcomma, readFrom_comma, hkeyRead, hread, hentriesRead, Reading.afterAll_afterAll,
      Reading.after_afterAll]
    rfl

end

/-- A text that spells a value is read as the events of the value and nothing else. -/
theorem read_eq_events {value : Value} {text : List Char} (hvalue : Within depthLimit value)
    (h : Spells value text) :
    read (String.ofList text) = { events := value.events, complete := true } := by
  rw [Spells, ← List.append_nil (tokensOf value)] at h
  have hdepth : ([] : List Container).length + depthLimit ≤ depthLimit := by simp
  obtain ⟨gap, hgap, hread⟩ := exists_behind_value value hvalue hdepth (Or.inl rfl) h
  have hend : readFrom [] .separator gap = { events := [], complete := true } := by
    cases hgap with
    | nil hgap =>
      have hnil : readFrom [] .separator (gap ++ []) = readFrom [] .separator [] :=
        readFrom_gap hgap
      rw [List.append_nil] at hnil
      rw [hnil, readFrom.eq_def]
      rfl
  rw [read, String.toList_ofList, hread, hend, Reading.afterAll, List.append_nil]

end Json

end TreeShell.Document
