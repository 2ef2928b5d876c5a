/-!
# Parts of a document

A document is a node, which may have further nodes as its parts. Written one after the other, the
parts tell where each sequence and mapping starts and ends. A node may have a name, its anchor, and
may then be referred to instead of being written again.
-/

namespace TreeShell.Document.Yaml

/-- What can be written before a node. -/
structure Properties where
  /-- The name that the node can be referred to by. -/
  anchor : Option (List Char) := none
  /-- The tag of the node, in bytes. -/
  tag : Option (List UInt8) := none
  deriving DecidableEq, Repr

/-- A part of a document. -/
inductive Part (Reference : Type) where
  /-- A node that stands elsewhere. -/
  | alias (node : Reference)
  /-- A scalar, and whether it is written without quotes or block style. -/
  | scalar (properties : Properties) (text : List Char) (plain : Bool)
  /-- The start of a sequence. -/
  | openSequence (properties : Properties)
  /-- The end of a sequence. -/
  | closeSequence
  /-- The start of a mapping. -/
  | openMapping (properties : Properties)
  /-- The end of a mapping. -/
  | closeMapping
  deriving DecidableEq, Repr

/-- A document, as far as it could be read. -/
structure Outline (Reference : Type) where
  /-- The parts that were read. -/
  parts : List (Part Reference)
  /-- Whether the text is exactly one document; otherwise reading failed after the parts. -/
  complete : Bool

end TreeShell.Document.Yaml
