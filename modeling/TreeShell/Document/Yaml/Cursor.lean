/-!
# Places in a YAML text

YAML tells structure by columns, so reading keeps count of lines and columns. This module holds the
classes of characters that YAML distinguishes and the cursor that moves through a text.
-/

namespace TreeShell.Document.Yaml

/-! ## Characters -/

/-- Whether a character may stand in a YAML text at all. -/
def isPrintable (c : Char) : Bool :=
  let n := c.toNat
  n == 0x9 || n == 0xA || n == 0xD || (0x20 ≤ n && n ≤ 0x7E) || n == 0x85 ||
    (0xA0 ≤ n && n ≤ 0xD7FF) || (0xE000 ≤ n && n ≤ 0xFFFD) || 0x10000 ≤ n

/-- Whether a character ends a line. -/
def isBreak (c : Char) : Bool :=
  c = '\n' || c = '\r' || c = '\u0085' || c = '\u2028' || c = '\u2029'

/-- Whether a character separates words within a line. -/
def isBlank (c : Char) : Bool := c = ' ' || c = '\t'

/-- Whether a word ends before what follows: a blank, the end of a line or the end of the text. -/
def endsWord : Option Char → Bool
  | none => true
  | some c => isBlank c || isBreak c

/-- Whether a character may stand in the name of an anchor, a directive or a tag handle. -/
def isNameChar (c : Char) : Bool := c.isAlphanum || c = '_' || c = '-'

/-- The value of a hexadecimal digit. -/
def hexValue? (c : Char) : Option Nat :=
  if '0' ≤ c ∧ c ≤ '9' then some (c.toNat - 48)
  else if 'a' ≤ c ∧ c ≤ 'f' then some (c.toNat - 87)
  else if 'A' ≤ c ∧ c ≤ 'F' then some (c.toNat - 55)
  else none

/-- The number that hexadecimal digits denote. -/
def hexNumber? (digits : List Char) : Option Nat :=
  digits.foldlM (fun n c => (hexValue? c).map (n * 16 + ·)) 0

/-! ## Cursors -/

/-- A place in a text. -/
structure Cursor where
  /-- The text from this place on. -/
  rest : List Char
  /-- How many characters come before. -/
  index : Nat := 0
  /-- How many lines come before. -/
  line : Nat := 0
  /-- How many characters of the line come before. -/
  column : Nat := 0

namespace Cursor

/-- The character at some distance. -/
def peek (c : Cursor) (distance : Nat) : Option Char := c.rest[distance]?

/-- The next character. -/
def next (c : Cursor) : Option Char := c.rest.head?

/-- Whether the text goes on with a character. -/
def isAt (c : Cursor) (char : Char) : Bool := c.next == some char

/-- Whether the text goes on with a line break. -/
def atBreak (c : Cursor) : Bool := c.next.any isBreak

/-- Whether the line ends here. -/
def atLineEnd (c : Cursor) : Bool := c.next.all isBreak

/-- The place behind some characters of the line. -/
def advance (c : Cursor) (count : Nat) : Cursor :=
  { c with rest := c.rest.drop count, index := c.index + count, column := c.column + count }

/-- The place behind the characters of a kind that come next, which does not include line breaks,
and these characters. -/
def span (c : Cursor) (kind : Char → Bool) : List Char × Cursor :=
  let word := c.rest.takeWhile kind
  (word, c.advance word.length)

/-- The place behind the characters of a kind that come next. -/
def skip (c : Cursor) (kind : Char → Bool) : Cursor := (c.span kind).2

/-- The start of the next line, behind a line break, and the break as it counts in a text. A
carriage return and a line feed are one break; all breaks count as line feeds except the separators
of lines and paragraphs, which stand for themselves. At any other place there is no break. -/
def readBreak (c : Cursor) : List Char × Cursor :=
  let nextLine (rest : List Char) (count : Nat) : Cursor :=
    { rest, index := c.index + count, line := c.line + 1, column := 0 }
  match c.rest with
  | '\r' :: '\n' :: rest => (['\n'], nextLine rest 2)
  | char :: rest =>
    if char = '\u2028' ∨ char = '\u2029' then ([char], nextLine rest 1)
    else if isBreak char then (['\n'], nextLine rest 1)
    else ([], c)
  | [] => ([], c)

/-- The start of the next line, behind a line break. -/
def skipBreak (c : Cursor) : Cursor := c.readBreak.2

/-- The end of the line, behind blanks and a comment; `none` if something else stands there. -/
def skipLineEnd? (c : Cursor) : Option Cursor :=
  let c := c.skip isBlank
  let c := if c.isAt '#' then c.skip fun char => !isBreak char else c
  if c.atLineEnd then some c.skipBreak else none

/-- Whether one of the words `---` and `...` starts the line here. -/
def atMark (c : Cursor) (mark : List Char) : Bool :=
  c.column == 0 && mark.isPrefixOf c.rest && endsWord (c.peek mark.length)

/-- Whether the start or the end of a document is marked here. -/
def atDocumentMark (c : Cursor) : Bool := c.atMark ['-', '-', '-'] || c.atMark ['.', '.', '.']

end Cursor

end TreeShell.Document.Yaml
