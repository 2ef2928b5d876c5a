import TreeShell.Document.Yaml.Cursor

/-!
# Line folding

A scalar may go on over several lines. The blanks around a line break are dropped. A single line
feed becomes a space; of several breaks in a row, the first one is dropped if it is a line feed.
-/

namespace TreeShell.Document.Yaml

/-- What line breaks in a row become. -/
def foldBreaks : List Char → List Char
  | ['\n'] => [' ']
  | '\n' :: others => others
  | breaks => breaks

/-- What stands between two words of a scalar. -/
structure Gap where
  /-- The blanks before the first line break. -/
  blanks : List Char := []
  /-- The line breaks. -/
  breaks : List Char := []

/-- The text that a gap between two words becomes. -/
def Gap.text (gap : Gap) : List Char :=
  if gap.breaks.isEmpty then gap.blanks else foldBreaks gap.breaks

/-- Skips the blanks that start a line. Tabs must not stand before the column `indent`. -/
def skipIndent? (indent : Nat) (c : Cursor) : Option Cursor :=
  let (blanks, after) := c.span isBlank
  if (blanks.take (indent - c.column)).contains '\t' then none else some after

/-- Reads line breaks and the blanks behind each of them. Every round but the last takes a break, so
`rounds` need not be more than the length of the text. -/
def readBreaks? (indent : Nat) : Nat → Cursor → Option (List Char × Cursor)
  | 0, c => some ([], c)
  | rounds + 1, c =>
    if c.atBreak then do
      let (lineBreak, c) := c.readBreak
      let c ← skipIndent? indent c
      let (others, c) ← readBreaks? indent rounds c
      return (lineBreak ++ others, c)
    else some ([], c)

/-- Reads the gap that comes next. Tabs must not stand before the column `indent` of a line. -/
def readGap? (indent : Nat) (c : Cursor) : Option (Gap × Cursor) := do
  let (blanks, c) := c.span isBlank
  let (breaks, c) ← readBreaks? indent c.rest.length c
  return ({ blanks, breaks }, c)

end TreeShell.Document.Yaml
