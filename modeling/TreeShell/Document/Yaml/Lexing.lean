import TreeShell.Document.Yaml.Block
import TreeShell.Document.Yaml.Directive
import TreeShell.Document.Yaml.Layout
import TreeShell.Document.Yaml.Plain
import TreeShell.Document.Yaml.Quoted

/-!
# Reading tokens

A text is cut into tokens from left to right. Tokens behind a place where a key may have started are
held back until it is known whether there is one, so a fault in between hides them.
-/

namespace TreeShell.Document.Yaml

/-- Skips blanks, comments and line breaks. A tab may not stand where a block could start. Outside
brackets and braces a new line may start a key. Every round but the last takes a line break, so
`rounds` need not be more than the length of the text. -/
def skipSpace : Nat → Layout → Cursor → Layout × Cursor
  | 0, layout, c => (layout, c)
  | rounds + 1, layout, c =>
    let c := if c.column = 0 && c.isAt '\uFEFF' then c.advance 1 else c
    let tabs := layout.inFlow || !layout.keyAllowed
    let c := c.skip fun char => char = ' ' || (tabs && char = '\t')
    let c := if c.isAt '#' then c.skip fun char => !isBreak char else c
    if c.atBreak then
      skipSpace rounds (layout.allowKey (layout.keyAllowed || !layout.inFlow)) c.skipBreak
    else (layout, c)

/-- Reads the end of the text, which counts as the start of a line. -/
def endOfText? (layout : Layout) (c : Cursor) : Option (Layout × Cursor) := do
  let layout ← (layout.closeBlocks (-1)).dropKey?
  let c := if c.column = 0 then c else { c with line := c.line + 1, column := 0 }
  return ((layout.allowKey false).push .streamEnd, c)

/-- Reads a directive. -/
def directiveToken? (layout : Layout) (c : Cursor) : Option (Layout × Cursor) := do
  let layout ← (layout.closeBlocks (-1)).dropKey?
  let (token, c) ← directive? c
  return ((layout.allowKey false).push token, c)

/-- Reads the mark before or behind a document. -/
def documentMark? (token : Token) (layout : Layout) (c : Cursor) : Option (Layout × Cursor) := do
  let layout ← (layout.closeBlocks (-1)).dropKey?
  return ((layout.allowKey false).push token, c.advance 3)

/-- Reads an opening bracket or brace. -/
def openFlow? (token : Token) (layout : Layout) (c : Cursor) : Option (Layout × Cursor) := do
  let layout ← layout.markKey? c
  return ((layout.enter.allowKey true).push token, c.advance 1)

/-- Reads a closing bracket or brace. -/
def closeFlow? (token : Token) (layout : Layout) (c : Cursor) : Option (Layout × Cursor) := do
  let layout ← layout.dropKey?
  return ((layout.leave.allowKey false).push token, c.advance 1)

/-- Reads a comma. -/
def comma? (layout : Layout) (c : Cursor) : Option (Layout × Cursor) := do
  let layout ← layout.dropKey?
  return ((layout.allowKey true).push .flowEntry, c.advance 1)

/-- Opens a block of a kind here. That is possible only where a key may start, and not at all
between brackets or braces. -/
def openBlockHere? (start : Token) (layout : Layout) (c : Cursor) : Option Layout :=
  if layout.inFlow then some layout
  else if layout.keyAllowed then some (layout.openBlock start c.column layout.tokens.size)
  else none

/-- Reads a dash before an item. -/
def dash? (layout : Layout) (c : Cursor) : Option (Layout × Cursor) := do
  let layout ← (← openBlockHere? .blockSequenceStart layout c).dropKey?
  return ((layout.allowKey true).push .blockEntry, c.advance 1)

/-- Reads a question mark before a key. -/
def questionMark? (layout : Layout) (c : Cursor) : Option (Layout × Cursor) := do
  let layout ← (← openBlockHere? .blockMappingStart layout c).dropKey?
  return ((layout.allowKey !layout.inFlow).push .key, c.advance 1)

/-- Reads a colon before a value. If a key may have started on the line, there is one. -/
def colon? (layout : Layout) (c : Cursor) : Option (Layout × Cursor) :=
  match layout.key with
  | some key =>
    let tokens := layout.tokens.insertIdxIfInBounds key.number .key
    let layout := { layout with tokens, key := none }.openBlock .blockMappingStart
      key.place.column key.number
    some ((layout.allowKey false).push .value, c.advance 1)
  | none => do
    let layout ← openBlockHere? .blockMappingStart layout c
    return ((layout.allowKey !layout.inFlow).push .value, c.advance 1)

/-- Whether a character may follow the name of an anchor. -/
def endsName (next : Option Char) : Bool :=
  endsWord next || next.any fun char => "?:,]\x7d%@`".toList.contains char

/-- Reads the name of an anchor, behind the character that tells whether it is defined or used. -/
def name? (token : List Char → Token) (layout : Layout) (c : Cursor) :
    Option (Layout × Cursor) := do
  let layout ← layout.markKey? c
  let (name, c) := (c.advance 1).span isNameChar
  if name.isEmpty || !endsName c.next then none
  else return ((layout.allowKey false).push (token name), c)

/-- Reads a tag. -/
def tag? (layout : Layout) (c : Cursor) : Option (Layout × Cursor) := do
  let layout ← layout.markKey? c
  let (text, c) ← tagText? layout.inFlow c
  return ((layout.allowKey false).push (.tag text), c)

/-- Reads a scalar in block style. -/
def block? (folded : Bool) (layout : Layout) (c : Cursor) : Option (Layout × Cursor) := do
  let layout ← layout.dropKey?
  let (text, c) ← blockScalar? folded layout.indent c
  return ((layout.allowKey true).push (.scalar text false), c)

/-- Reads a scalar in quotes. -/
def quoted? (single : Bool) (layout : Layout) (c : Cursor) : Option (Layout × Cursor) := do
  let layout ← layout.markKey? c
  let (text, c) ← quotedScalar? single c
  return ((layout.allowKey false).push (.scalar text false), c)

/-- Whether a plain scalar can start here. -/
def startsPlain (inFlow : Bool) (c : Cursor) : Bool :=
  match c.next with
  | none => false
  | some '-' => !(c.peek 1).any isBlank
  | some '?' | some ':' => !inFlow && !endsWord (c.peek 1)
  | some char => !endsWord (some char) && !",[]\x7b\x7d#&*!|>'\"%@`".toList.contains char

/-- Reads a plain scalar. A key may start behind it if a line break does. -/
def plain? (layout : Layout) (c : Cursor) : Option (Layout × Cursor) := do
  if !startsPlain layout.inFlow c then none
  else
    let layout ← layout.markKey? c
    let scalar ← plainScalar? layout.inFlow (layout.indent + 1).toNat c
    return ((layout.allowKey scalar.brokenOff).push (.scalar scalar.text true), scalar.after)

/-- Reads the token that starts with a character. -/
def tokenAt? (char : Char) (layout : Layout) (c : Cursor) : Option (Layout × Cursor) :=
  let endsHere := endsWord (c.peek 1)
  match char with
  | '[' => openFlow? .flowSequenceStart layout c
  | ']' => closeFlow? .flowSequenceEnd layout c
  | '{' => openFlow? .flowMappingStart layout c
  | '}' => closeFlow? .flowMappingEnd layout c
  | ',' => comma? layout c
  | '*' => name? .alias layout c
  | '&' => name? .anchor layout c
  | '!' => tag? layout c
  | '\'' => quoted? true layout c
  | '"' => quoted? false layout c
  | '-' => if endsHere then dash? layout c else plain? layout c
  | '?' => if layout.inFlow || endsHere then questionMark? layout c else plain? layout c
  | ':' => if layout.inFlow || endsHere then colon? layout c else plain? layout c
  | '|' => if layout.inFlow then none else block? false layout c
  | '>' => if layout.inFlow then none else block? true layout c
  | _ => plain? layout c

/-- Reads the next token. -/
def token? (layout : Layout) (c : Cursor) : Option (Layout × Cursor) := do
  let (layout, c) := skipSpace (c.rest.length + 1) layout c
  let layout := (← layout.dropStale? c).closeBlocks c.column
  match c.next with
  | none => endOfText? layout c
  | some char =>
    if c.column = 0 && char = '%' then directiveToken? layout c
    else if c.atMark ['-', '-', '-'] then documentMark? .documentStart layout c
    else if c.atMark ['.', '.', '.'] then documentMark? .documentEnd layout c
    else tokenAt? char layout c

/-- Reads tokens until the end of the text or the first fault in it. Gives the tokens that were not
held back; `settled` of them were not held back before. Every round but the last takes a character,
so `rounds` need not be more than the length of the text. -/
def tokensFrom : Nat → Nat → Layout → Cursor → List Token
  | 0, settled, layout, _ => layout.tokens.toList.take settled
  | rounds + 1, settled, layout, c =>
    match layout.dropStale? c with
    | none => layout.tokens.toList.take settled
    | some layout =>
      if layout.tokens.back? = some .streamEnd then layout.tokens.toList
      else
        match token? layout c with
        | none => layout.tokens.toList.take layout.settled
        | some (next, c) => tokensFrom rounds layout.settled next c

/-- The tokens of a text. Only if there is no fault in it, the last of them is its end. -/
def tokens (text : List Char) : List Token :=
  if text.all isPrintable then tokensFrom (text.length + 2) 0 {} { rest := text } else []

end TreeShell.Document.Yaml
