import TreeShell.Decimal.Digits
import TreeShell.Document.Yaml.Token

/-!
# Directives

A directive stands on a line of its own before a document. One kind gives the version of the format,
the other says what a tag handle stands for.
-/

namespace TreeShell.Document.Yaml

/-- Reads a part of a version number, of one to nine digits. -/
def versionPart? (c : Cursor) : Option (Nat × Cursor) :=
  let (digits, c) := c.span Char.isDigit
  if digits.isEmpty || 9 < digits.length then none
  else some (Decimal.ofDigits digits, c)

/-- Reads the value of the directive that gives the version. -/
def version? (c : Cursor) : Option (Token × Cursor) := do
  let (major, c) ← versionPart? (c.skip isBlank)
  if c.isAt '.' then
    let (minor, c) ← versionPart? (c.advance 1)
    return (.version major minor, c)
  else none

/-- Reads a tag handle: one exclamation mark, or a name between two. -/
def tagHandle? (c : Cursor) : Option (List Char × Cursor) :=
  if !c.isAt '!' then none
  else
    let (name, c) := (c.advance 1).span isNameChar
    if c.isAt '!' then some ('!' :: name ++ ['!'], c.advance 1)
    else if name.isEmpty then some (['!'], c)
    else none

/-- Reads the value of the directive that says what a tag handle stands for. -/
def handleMeaning? (c : Cursor) : Option (Token × Cursor) := do
  let (handle, c) ← tagHandle? (c.skip isBlank)
  if c.next.any isBlank then
    let (meaning, c) ← tagPart? isWholeTagChar (c.skip isBlank)
    if endsWord c.next then return (.tagHandle handle (untilZero meaning), c) else none
  else none

/-- Reads a directive from its percent sign on, with the end of its line. -/
def directive? (c : Cursor) : Option (Token × Cursor) := do
  let (name, c) := (c.advance 1).span isNameChar
  let (token, c) ←
    if !endsWord c.next then none
    else if name = "YAML".toList then version? c
    else if name = "TAG".toList then handleMeaning? c
    else none
  return (token, ← c.skipLineEnd?)

end TreeShell.Document.Yaml
