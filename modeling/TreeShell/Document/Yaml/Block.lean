import TreeShell.Decimal.Digits
import TreeShell.Document.Yaml.Cursor

/-!
# Scalars in block style

A block scalar is written on the lines below its header, which are indented further than what holds
it. The header tells whether line breaks are kept or folded, may give the indentation, and says what
becomes of the line breaks at the end. Without a given indentation, the first line that is not empty
gives it.
-/

namespace TreeShell.Document.Yaml

/-- What becomes of the line breaks at the end of a block scalar. -/
inductive Chomping where
  /-- All are dropped. -/
  | strip
  /-- One is kept. -/
  | clip
  /-- All are kept. -/
  | keep
  deriving DecidableEq

/-- The header of a block scalar. -/
structure BlockHeader where
  /-- What becomes of the line breaks at the end. -/
  chomping : Chomping := .clip
  /-- How much further than its surroundings the scalar is indented, if that is given. -/
  increment : Option Nat := none

/-- The chomping that a character of a header asks for. -/
def chomping? (c : Char) : Option Chomping :=
  match c with
  | '-' => some .strip
  | '+' => some .keep
  | _ => none

/-- Reads the chomping of a header, if it is given. -/
def readChomping (c : Cursor) : Chomping × Cursor :=
  match c.next.bind chomping? with
  | some chomping => (chomping, c.advance 1)
  | none => (.clip, c)

/-- Reads the indentation of a header, if it is given. It cannot be zero. -/
def readIncrement? (c : Cursor) : Option (Option Nat × Cursor) :=
  match c.next with
  | some '0' => none
  | some char =>
    if char.isDigit then some (some (Decimal.digitValue char), c.advance 1) else some (none, c)
  | none => some (none, c)

/-- Reads a header, whose two parts may stand in either order. -/
def blockHeader? (c : Cursor) : Option (BlockHeader × Cursor) := do
  if (c.next.bind chomping?).isSome then
    let (chomping, c) := readChomping c
    let (increment, c) ← readIncrement? c
    return ({ chomping, increment }, ← c.skipLineEnd?)
  else
    let (increment, c) ← readIncrement? c
    let (chomping, c) := if increment.isSome then readChomping c else (.clip, c)
    return ({ chomping, increment }, ← c.skipLineEnd?)

/-- The empty lines before a line of a block scalar. -/
structure EmptyLines where
  /-- Their line breaks. -/
  breaks : List Char
  /-- The furthest column that the spaces on them and on the line behind them reach. -/
  widest : Nat
  /-- The place behind them, at the indentation of the next line. -/
  after : Cursor

/-- Skips empty lines, and the spaces of the next line up to the indentation if it is known. A tab
must not stand within the indentation. Every round but the last takes a line break, so `rounds` need
not be more than the length of the text. -/
def emptyLines? (indent : Option Nat) : Nat → Nat → Cursor → Option EmptyLines
  | 0, widest, c => some ⟨[], widest, c⟩
  | rounds + 1, widest, c =>
    let spaces := (c.rest.takeWhile (· = ' ')).length
    let c := c.advance (match indent with
      | some indent => min spaces (indent - c.column)
      | none => spaces)
    let widest := max widest c.column
    if (indent.all fun indent => c.column < indent) && c.isAt '\t' then none
    else if c.atBreak then do
      let (lineBreak, c) := c.readBreak
      let lines ← emptyLines? indent rounds widest c
      return { lines with breaks := lineBreak ++ lines.breaks }
    else some ⟨[], widest, c⟩

/-- A block scalar in the course of being read. -/
structure BlockState where
  /-- The text so far. -/
  text : List Char := []
  /-- The break of the line before. -/
  lineBreak : List Char := []
  /-- The breaks of the empty lines behind it. -/
  emptyBreaks : List Char
  /-- Whether the line before starts with a blank. -/
  blankBefore : Bool := false

/-- The text with the breaks before a line put in. In folded style a line feed between two lines
becomes a space, or nothing if empty lines follow it. It stays if one of the lines starts with a
blank. -/
def BlockState.joined (state : BlockState) (folded blank : Bool) : List Char :=
  if folded && state.lineBreak == ['\n'] && !state.blankBefore && !blank then
    state.text ++ (if state.emptyBreaks.isEmpty then [' '] else []) ++ state.emptyBreaks
  else state.text ++ state.lineBreak ++ state.emptyBreaks

/-- Reads the lines of a block scalar that reach the column `indent`. Every round takes a line, so
`rounds` need not be more than the length of the text. -/
def blockLines? (folded : Bool) (indent : Nat) : Nat → BlockState → Cursor →
    Option (BlockState × Cursor)
  | 0, state, c => some (state, c)
  | rounds + 1, state, c =>
    if c.column ≠ indent || c.rest.isEmpty then some (state, c)
    else do
      let blank := c.next.any isBlank
      let (line, c) := c.span fun char => !isBreak char
      let (lineBreak, c) := c.readBreak
      let empty ← emptyLines? (some indent) c.rest.length 0 c
      blockLines? folded indent rounds
        { text := state.joined folded blank ++ line
          lineBreak
          emptyBreaks := empty.breaks
          blankBefore := blank }
        empty.after

/-- Reads a block scalar from its indicator on, within a block at the column `parent`, which is
below zero at the top. -/
def blockScalar? (folded : Bool) (parent : Int) (c : Cursor) : Option (List Char × Cursor) := do
  let (header, c) ← blockHeader? (c.advance 1)
  let given := header.increment.map fun n => parent.toNat + n
  let empty ← emptyLines? given (c.rest.length + 1) 0 c
  let indent := given.getD (max (max empty.widest (parent + 1).toNat) 1)
  let (state, c) ← blockLines? folded indent (c.rest.length + 1)
    { emptyBreaks := empty.breaks } empty.after
  let text := match header.chomping with
    | .strip => state.text
    | .clip => state.text ++ state.lineBreak
    | .keep => state.text ++ state.lineBreak ++ state.emptyBreaks
  return (text, c)

end TreeShell.Document.Yaml
