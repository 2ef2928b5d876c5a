import TreeShell.Document.Yaml.Folding

/-!
# Scalars in quotes

In single quotes, a quote is written twice and every other character stands for itself. In double
quotes a backslash starts an escape, which may also take away a line break. Lines are folded in
both.
-/

namespace TreeShell.Document.Yaml

/-- The character that a letter behind a backslash stands for. -/
def escapedLetter? (c : Char) : Option Char :=
  match c with
  | '0' => some '\x00'
  | 'a' => some '\x07'
  | 'b' => some '\x08'
  | 't' | '\t' => some '\t'
  | 'n' => some '\n'
  | 'v' => some '\x0B'
  | 'f' => some '\x0C'
  | 'r' => some '\r'
  | 'e' => some '\x1B'
  | ' ' => some ' '
  | '"' => some '"'
  | '/' => some '/'
  | '\\' => some '\\'
  | 'N' => some '\u0085'
  | '_' => some '\u00A0'
  | 'L' => some '\u2028'
  | 'P' => some '\u2029'
  | _ => none

/-- How many hexadecimal digits follow a letter behind a backslash. -/
def escapeDigits? (c : Char) : Option Nat :=
  match c with
  | 'x' => some 2
  | 'u' => some 4
  | 'U' => some 8
  | _ => none

/-- The character that an escape stands for, given the text behind its backslash, and how many
characters the escape has there. -/
def escaped? : List Char → Option (Char × Nat)
  | [] => none
  | c :: cs =>
    match escapeDigits? c with
    | some count => do
      let digits := cs.take count
      let n ← if digits.length = count then hexNumber? digits else none
      if n.isValidChar then some (Char.ofNat n, count + 1) else none
    | none => (escapedLetter? c).map fun c => (c, 1)

/-- What ends a word in quotes. -/
inductive WordEnd where
  /-- The closing quote. -/
  | quote
  /-- A blank, a line break or the end of the text. -/
  | gap
  /-- A backslash before a line break. -/
  | escapedBreak
  deriving DecidableEq

/-- A word in quotes: its text, how many characters it takes, and what ends it. -/
structure QuotedWord where
  /-- Its text. -/
  text : List Char
  /-- How many characters it is written with. -/
  count : Nat
  /-- What comes behind it. -/
  ending : WordEnd

/-- A word with one more character in front, which is written with `count` characters. -/
def QuotedWord.cons (c : Char) (count : Nat) (word : QuotedWord) : QuotedWord :=
  { word with text := c :: word.text, count := word.count + count }

/-- Reads a word in single quotes. -/
def singleQuotedWord : List Char → QuotedWord
  | '\'' :: '\'' :: cs => (singleQuotedWord cs).cons '\'' 2
  | '\'' :: _ => ⟨[], 0, .quote⟩
  | c :: cs => if endsWord (some c) then ⟨[], 0, .gap⟩ else (singleQuotedWord cs).cons c 1
  | [] => ⟨[], 0, .gap⟩

/-- Reads a word in double quotes. -/
def doubleQuotedWord? : List Char → Option QuotedWord
  | '"' :: _ => some ⟨[], 0, .quote⟩
  | '\\' :: cs =>
    if cs.head?.any isBreak then some ⟨[], 0, .escapedBreak⟩
    else
      match escaped? cs with
      | none => none
      | some (c, count) => (doubleQuotedWord? (cs.drop count)).map (·.cons c (count + 1))
  | c :: cs =>
    if endsWord (some c) then some ⟨[], 0, .gap⟩ else (doubleQuotedWord? cs).map (·.cons c 1)
  | [] => some ⟨[], 0, .gap⟩
termination_by cs => cs.length
decreasing_by
  · simp only [List.length_drop, List.length_cons]
    omega
  · simp

/-- Reads a word in quotes of either kind. -/
def quotedWord? (single : Bool) (cs : List Char) : Option QuotedWord :=
  if single then some (singleQuotedWord cs) else doubleQuotedWord? cs

/-- Reads the words of a scalar in quotes, and the closing quote. Every round but the last takes a
character, so `rounds` need not be more than the length of the text. -/
def quotedWords? (single : Bool) : Nat → Cursor → Option (List Char × Cursor)
  | 0, _ => none
  | rounds + 1, c =>
    if c.atDocumentMark || c.rest.isEmpty then none
    else do
      let word ← quotedWord? single c.rest
      let c := c.advance word.count
      match word.ending with
      | .quote => return (word.text, c.advance 1)
      | .gap =>
        let (gap, c) ← readGap? 0 c
        let (others, c) ← quotedWords? single rounds c
        return (word.text ++ gap.text ++ others, c)
      | .escapedBreak =>
        let c := (c.advance 1).skipBreak.skip isBlank
        let (breaks, c) ← readBreaks? 0 c.rest.length c
        let (others, c) ← quotedWords? single rounds c
        return (word.text ++ breaks ++ others, c)

/-- Reads a scalar in quotes, from its opening quote on. -/
def quotedScalar? (single : Bool) (c : Cursor) : Option (List Char × Cursor) :=
  quotedWords? single (c.rest.length + 1) (c.advance 1)

end TreeShell.Document.Yaml
