import TreeShell.Document.Yaml.Tag

/-!
# Tokens of YAML

The words of a YAML text. Some tokens stand for characters; others stand for what the columns tell,
such as the start and the end of a block of lines.
-/

namespace TreeShell.Document.Yaml

/-- A token. -/
inductive Token where
  /-- The end of the text. -/
  | streamEnd
  /-- The directive that gives the version of the format. -/
  | version (major minor : Nat)
  /-- The directive that says what a tag handle stands for. -/
  | tagHandle (handle : List Char) (meaning : List UInt8)
  /-- The mark before a document. -/
  | documentStart
  /-- The mark behind a document. -/
  | documentEnd
  /-- The start of a sequence that is told by columns. -/
  | blockSequenceStart
  /-- The start of a mapping that is told by columns. -/
  | blockMappingStart
  /-- The end of a sequence or mapping that is told by columns. -/
  | blockEnd
  /-- An opening bracket. -/
  | flowSequenceStart
  /-- A closing bracket. -/
  | flowSequenceEnd
  /-- An opening brace. -/
  | flowMappingStart
  /-- A closing brace. -/
  | flowMappingEnd
  /-- A dash before an item. -/
  | blockEntry
  /-- A comma. -/
  | flowEntry
  /-- What tells that a key follows: a question mark, or a colon that comes later. -/
  | key
  /-- A colon before a value. -/
  | value
  /-- A reference to an anchored node. -/
  | alias (name : List Char)
  /-- The name that the node behind it can be referred to by. -/
  | anchor (name : List Char)
  /-- The tag of the node behind it. -/
  | tag (text : TagText)
  /-- A scalar, and whether it is written without quotes or block style. -/
  | scalar (text : List Char) (plain : Bool)
  deriving DecidableEq, Repr

end TreeShell.Document.Yaml
