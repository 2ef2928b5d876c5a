import TreeShell.Document.Yaml.Folding

/-!
# Scalars without quotes

A plain scalar ends before a colon that ends a word, before a comment, before a line that is not
indented enough, and, between brackets or braces, before a comma, bracket or brace.
-/

namespace TreeShell.Document.Yaml

/-- Whether a character always has a meaning of its own between brackets or braces. -/
def isFlowIndicator (c : Char) : Bool := c = ',' || c = '[' || c = ']' || c = '{' || c = '}'

/-- Reads a word of a plain scalar. Between brackets or braces a colon must not be followed by a
character that has a meaning there. -/
def plainWord? (inFlow : Bool) : List Char → Option (List Char)
  | [] => some []
  | c :: cs =>
    let next := cs.head?
    if endsWord (some c) then some []
    else if inFlow && c = ':' && next.any fun n => isFlowIndicator n || n = '?' then none
    else if (c = ':' && endsWord next) || (inFlow && isFlowIndicator c) then some []
    else (plainWord? inFlow cs).map (c :: ·)

/-- A plain scalar that was read. -/
structure PlainScalar where
  /-- Its text. -/
  text : List Char
  /-- Whether a line break stands between its last word and the place behind it. -/
  brokenOff : Bool
  /-- The place behind it. -/
  after : Cursor

/-- Reads the words of a plain scalar, the first of them behind `gap`. Every round but the last
takes a blank or a break, so `rounds` need not be more than the length of the text. -/
def plainWords? (inFlow : Bool) (indent : Nat) : Nat → Gap → Cursor → Option PlainScalar
  | 0, gap, c => some ⟨[], !gap.breaks.isEmpty, c⟩
  | rounds + 1, gap, c =>
    if c.atDocumentMark || c.isAt '#' then some ⟨[], !gap.breaks.isEmpty, c⟩
    else do
      let word ← plainWord? inFlow c.rest
      let text := if word.isEmpty then [] else gap.text ++ word
      let pending := if word.isEmpty then gap else {}
      let c := c.advance word.length
      if c.rest.isEmpty || !endsWord c.next then return ⟨text, !pending.breaks.isEmpty, c⟩
      else
        let (gap, c) ← readGap? indent c
        if !inFlow && c.column < indent then return ⟨text, !gap.breaks.isEmpty, c⟩
        else
          let others ← plainWords? inFlow indent rounds gap c
          return { others with text := text ++ others.text }

/-- Reads a plain scalar, which must be indented to the column `indent` from its second line on. -/
def plainScalar? (inFlow : Bool) (indent : Nat) (c : Cursor) : Option PlainScalar :=
  plainWords? inFlow indent (c.rest.length + 1) {} c

end TreeShell.Document.Yaml
