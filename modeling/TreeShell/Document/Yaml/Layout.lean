import TreeShell.Document.Yaml.Token

/-!
# Layout

Outside brackets and braces, columns tell where sequences and mappings start and end. A key can be
recognised only by the colon behind it, so the places where a key may have started are remembered,
one for each level of brackets and braces. The colon must come on the same line, and not more than
1024 characters later.
-/

namespace TreeShell.Document.Yaml

/-- A place where a key may have started. -/
structure PossibleKey where
  /-- How many tokens come before the place. -/
  number : Nat
  /-- Whether nothing but a key can stand there. -/
  required : Bool
  /-- The place. -/
  place : Cursor

/-- How many characters a key may have that is recognised by its colon. -/
def keyLimit : Nat := 1024

/-- What is known of the part of a text that has been read. -/
structure Layout where
  /-- The tokens that were read. -/
  tokens : Array Token := #[]
  /-- Where a key may have started on the innermost level. -/
  key : Option PossibleKey := none
  /-- Where keys may have started on the outer levels, innermost first. -/
  outerKeys : List (Option PossibleKey) := []
  /-- The columns of the blocks that are open, innermost first. -/
  indents : List Nat := []
  /-- Whether a key may start here. -/
  keyAllowed : Bool := true

namespace Layout

/-- Whether the place is between brackets or braces. -/
def inFlow (layout : Layout) : Bool := !layout.outerKeys.isEmpty

/-- The column of the innermost block; it is below zero outside all blocks. -/
def indent (layout : Layout) : Int :=
  match layout.indents with
  | [] => -1
  | column :: _ => column

/-- The layout after a token. -/
def push (layout : Layout) (token : Token) : Layout :=
  { layout with tokens := layout.tokens.push token }

/-- The layout with the permission to start a key given or taken away. -/
def allowKey (layout : Layout) (allowed : Bool) : Layout := { layout with keyAllowed := allowed }

/-- Whether a key that started at a place can no longer be recognised here. -/
def isStale (key : PossibleKey) (c : Cursor) : Bool :=
  key.place.line < c.line || key.place.index + keyLimit < c.index

/-- A possible key, unless it is stale by now. There is no answer if it was required. -/
def dropStaleKey? (c : Cursor) : Option PossibleKey → Option (Option PossibleKey)
  | none => some none
  | some key => if !isStale key c then some (some key) else if key.required then none else some none

/-- Gives up all possible keys that are stale, which none of them may be if it is required. -/
def dropStale? (layout : Layout) (c : Cursor) : Option Layout := do
  let key ← dropStaleKey? c layout.key
  let outerKeys ← layout.outerKeys.mapM (dropStaleKey? c)
  return { layout with key, outerKeys }

/-- How many tokens no further token can be put in between. -/
def settled (layout : Layout) : Nat :=
  (layout.key :: layout.outerKeys).foldl
    (fun least key => (key.map fun key => min least key.number).getD least) layout.tokens.size

/-- Gives up the possible key of the innermost level, which it may not be if it is required. -/
def dropKey? (layout : Layout) : Option Layout :=
  if layout.key.any (·.required) then none else some { layout with key := none }

/-- Remembers that a key may start here, if that is allowed. A key is required at the column of the
innermost block. -/
def markKey? (layout : Layout) (c : Cursor) : Option Layout := do
  if !layout.keyAllowed then return layout
  else
    let layout ← layout.dropKey?
    let required := !layout.inFlow && layout.indent = c.column
    return { layout with key := some { number := layout.tokens.size, required, place := c } }

/-- Opens a block at a column, if it is further in than the innermost one. The token that tells so
is put behind the first `number` tokens. -/
def openBlock (layout : Layout) (token : Token) (column number : Nat) : Layout :=
  if layout.inFlow || column ≤ layout.indent then layout
  else
    { layout with
      indents := column :: layout.indents
      tokens := layout.tokens.insertIdxIfInBounds number token }

/-- Closes the blocks that are further in than a column. -/
def closeBlocks (layout : Layout) (column : Int) : Layout :=
  if layout.inFlow then layout
  else
    let isInner (indent : Nat) : Bool := column < indent
    let closed := layout.indents.takeWhile isInner
    { layout with
      indents := layout.indents.dropWhile isInner
      tokens := layout.tokens ++ Array.replicate closed.length Token.blockEnd }

/-- Enters brackets or braces. -/
def enter (layout : Layout) : Layout :=
  { layout with key := none, outerKeys := layout.key :: layout.outerKeys }

/-- Leaves brackets or braces, if the place is between any. -/
def leave (layout : Layout) : Layout :=
  match layout.outerKeys with
  | [] => layout
  | key :: outerKeys => { layout with key, outerKeys }

end Layout

end TreeShell.Document.Yaml
