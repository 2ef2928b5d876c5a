/-!
# Lines

A line feed ends a line, and what follows the last line feed is a line only if it is not empty. A
script is read in this way as text. Input is read in this way as bytes: each of its lines loses a
carriage return before the line feed, and must be UTF-8 on its own.
-/

namespace TreeShell.Text

/-- The pieces that end in a line feed, without it, and what follows the last line feed. -/
def splitLines {α : Type} [BEq α] (lineFeed : α) (text : List α) : List (List α) × List α :=
  let pieces := text.splitOn lineFeed
  (pieces.dropLast, pieces.getLastD [])

/-- The lines of a text. -/
def lines (text : List Char) : List (List Char) :=
  match splitLines '\n' text with
  | (ended, []) => ended
  | (ended, rest) => ended ++ [rest]

/-- A line of bytes without the carriage return that ends it. -/
def dropCarriageReturn (line : List UInt8) : List UInt8 :=
  if line.getLast? = some 13 then line.dropLast else line

/-- The lines of an input, each `none` if it is not UTF-8. -/
def inputLines (input : List UInt8) : List (Option String) :=
  let (ended, rest) := splitLines 10 input
  let all := ended.map dropCarriageReturn ++ if rest.isEmpty then [] else [rest]
  all.map fun line => String.fromUTF8? ⟨line.toArray⟩

/-- A text with a line feed after it, unless it is empty or ends in one. -/
def endLine (text : String) : String :=
  if text = "" ∨ text.toList.getLast? = some '\n' then text else text ++ "\n"

end TreeShell.Text
