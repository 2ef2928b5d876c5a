/-!
# What can be wrong with a document

A document is refused for the first fault that is found in it. Faults in what it says have a text;
a text that is no document at all, and a value of a kind that does not belong where it stands, have
none.
-/

namespace TreeShell.Document

/-- The fields of a node. -/
inductive Field where
  /-- Whether the node is a directory or a file. -/
  | type
  /-- The name of the node. -/
  | name
  /-- The children of a directory. -/
  | children
  /-- The content of a file. -/
  | content
  /-- How the content of a file is written. -/
  | encoding
  deriving DecidableEq, Repr

/-- The key of a field. -/
def Field.key : Field → String
  | .type => "type"
  | .name => "name"
  | .children => "children"
  | .content => "content"
  | .encoding => "encoding"

/-- The reason why a document is refused. -/
inductive Malformation where
  /-- A node has a name that cannot be part of a path. -/
  | invalidName (name directory : String)
  /-- The document is a file. -/
  | fileAtTop (name : String)
  /-- A node lacks a field. -/
  | missingField (field : Field)
  /-- A node has a field twice. -/
  | duplicateField (field : Field)
  /-- A node is neither a directory nor a file. -/
  | unknownType (label : String)
  /-- The content of a file is written in a way that is not known. -/
  | unknownEncoding (label : String)
  /-- The content of a file is a sequence. -/
  | sequenceAsContent
  /-- The content of a file is a mapping. -/
  | mappingAsContent
  /-- The text is no document, or a value does not belong where it stands. -/
  | unreadable
  deriving DecidableEq, Repr

/-- The text of a fault, for the faults that have one. -/
def Malformation.detail? : Malformation → Option String
  | .invalidName name directory =>
    some ("invalid node name '" ++ name ++ "' under '" ++ directory ++ "/'")
  | .fileAtTop name => some ("top-level node '" ++ name ++ "' must be a directory")
  | .missingField field => some ("missing field `" ++ field.key ++ "`")
  | .duplicateField field => some ("duplicate field `" ++ field.key ++ "`")
  | .unknownType label =>
    some ("unknown variant `" ++ label ++ "`, expected `directory` or `file`")
  | .unknownEncoding label =>
    some ("unknown variant `" ++ label ++ "`, expected `text` or `base64`")
  | .sequenceAsContent => some "invalid type: sequence, expected a string or scalar value"
  | .mappingAsContent => some "invalid type: map, expected a string or scalar value"
  | .unreadable => none

end TreeShell.Document
