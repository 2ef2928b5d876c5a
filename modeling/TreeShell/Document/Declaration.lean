import TreeShell.Decimal.Text
import TreeShell.Document.Malformation
import TreeShell.Document.Value
import TreeShell.Tree

/-!
# Declarations of nodes

A document declares a tree of nodes. A node is a mapping or a sequence. In a mapping the field
`type` says which other fields count, wherever it stands among them; further keys are passed over.
A key may also be the number of a field. In a sequence the type comes first and the other fields
follow in their order.

Fields are looked at in the order of the text, the type before all others. The fields of the
outermost node are looked at only after the whole node has been read.
-/

namespace TreeShell.Document

/-- How the content of a file is written. -/
inductive Encoding where
  /-- As it is. -/
  | text
  /-- In base64. -/
  | base64
  deriving DecidableEq, Repr

/-- A node as a document declares it. -/
inductive Declaration where
  /-- A directory with its children, which may share names. -/
  | directory (name : String) (children : List Declaration)
  /-- A file with its content as it is written. -/
  | file (name content : String) (encoding : Encoding)

/-- The kind of node that a label names. -/
def kindOfLabel (label : String) : Except Malformation Kind :=
  if label = "directory" then .ok .directory
  else if label = "file" then .ok .file
  else .error (.unknownType label)

/-- The kind of node that the value of the field `type` names, by its label or its number. -/
def kindOfValue : Value → Except Malformation Kind
  | .scalar (.string label) => kindOfLabel label
  | .scalar (.natural 0) => .ok .directory
  | .scalar (.natural 1) => .ok .file
  | _ => .error .unreadable

/-- Whether a key is that of the field `type`. -/
def isTypeKey : Value → Bool
  | .scalar (.string key) => key = Field.type.key
  | _ => false

/-- The kind of node that the entries of a mapping declare, `seen` being the kind that earlier
entries declare. -/
def kindOfEntries (seen : Option Kind) : List (Value × Value) → Except Malformation Kind
  | [] =>
    match seen with
    | some kind => .ok kind
    | none => .error (.missingField .type)
  | (key, value) :: entries =>
    if isTypeKey key then
      match seen with
      | some _ => .error (.duplicateField .type)
      | none => do kindOfEntries (some (← kindOfValue value)) entries
    else kindOfEntries seen entries

/-- The field that a key means among the given ones, `none` if the entry is passed over. -/
def fieldOfKey (fields : List Field) : Value → Except Malformation (Option Field)
  | .scalar (.string key) => .ok (fields.find? fun field => field.key == key)
  | .scalar (.natural number) => .ok fields[number]?
  | _ => .error .unreadable

/-- A name, which must be a text. -/
def nameOfValue : Value → Except Malformation String
  | .scalar (.string name) => .ok name
  | _ => .error .unreadable

/-- The content of a file. Any scalar is taken as the text that it is usually written as. -/
def contentOfValue : Value → Except Malformation String
  | .scalar .null => .ok ""
  | .scalar (.bool value) => .ok (if value then "true" else "false")
  | .scalar (.natural value) => .ok (toString value)
  | .scalar (.minus value) => .ok (toString (-(value : Int)))
  | .scalar (.float value) => .ok (Decimal.text value)
  | .scalar (.string value) => .ok value
  | .sequence _ => .error .sequenceAsContent
  | .mapping _ => .error .mappingAsContent

/-- The encoding that a label or a number names. -/
def encodingOfLabel : Value → Except Malformation Encoding
  | .scalar (.string label) =>
    if label = "text" then .ok .text
    else if label = "base64" then .ok .base64
    else .error (.unknownEncoding label)
  | .scalar (.natural 0) => .ok .text
  | .scalar (.natural 1) => .ok .base64
  | _ => .error .unreadable

/-- The encoding that a value names: a label, or a mapping of one label to nothing. -/
def encodingOfValue : Value → Except Malformation Encoding
  | .scalar (.string label) => encodingOfLabel (.scalar (.string label))
  | .mapping [(key, value)] => do
    let encoding ← encodingOfLabel key
    match value with
    | .scalar .null | .mapping [] => .ok encoding
    | _ => .error .unreadable
  | _ => .error .unreadable

/-! ## Files -/

/-- The fields of a file that have been read. -/
structure FileFields where
  /-- The name. -/
  name : Option String := none
  /-- The content. -/
  content : Option String := none
  /-- The encoding of the content. -/
  encoding : Option Encoding := none

/-- The file that a set of fields declares. The name is needed; content is empty text by default. -/
def FileFields.declaration (fields : FileFields) : Except Malformation Declaration :=
  match fields.name with
  | none => .error (.missingField .name)
  | some name => .ok (.file name (fields.content.getD "") (fields.encoding.getD .text))

/-- The file that the entries of a mapping declare. -/
def fileOfEntries (fields : FileFields) : List (Value × Value) → Except Malformation Declaration
  | [] => fields.declaration
  | (key, value) :: entries => do
    match ← fieldOfKey [.name, .content, .encoding] key with
    | some .name =>
      if fields.name.isSome then .error (.duplicateField .name)
      else fileOfEntries { fields with name := some (← nameOfValue value) } entries
    | some .content =>
      if fields.content.isSome then .error (.duplicateField .content)
      else fileOfEntries { fields with content := some (← contentOfValue value) } entries
    | some .encoding =>
      if fields.encoding.isSome then .error (.duplicateField .encoding)
      else fileOfEntries { fields with encoding := some (← encodingOfValue value) } entries
    | _ => fileOfEntries fields entries

/-- The file that the items of a sequence declare after its type. -/
def fileOfItems : List Value → Except Malformation Declaration
  | [] => .error .unreadable
  | [name] => do return .file (← nameOfValue name) "" .text
  | [name, content] => do return .file (← nameOfValue name) (← contentOfValue content) .text
  | name :: content :: encoding :: others => do
    let file := Declaration.file (← nameOfValue name) (← contentOfValue content)
      (← encodingOfValue encoding)
    if others.isEmpty then .ok file else .error .unreadable

/-! ## Directories -/

/-- The fields of a directory that have been read. -/
structure DirectoryFields where
  /-- The name. -/
  name : Option String := none
  /-- The children. -/
  children : Option (List Declaration) := none

/-- The directory that a set of fields declares. Without a name its name is empty; without children
it has none. -/
def DirectoryFields.declaration (fields : DirectoryFields) : Declaration :=
  .directory (fields.name.getD "") (fields.children.getD [])

mutual

/-- The node that a value declares. -/
def Value.declaration : Value → Except Malformation Declaration
  | .scalar _ => .error .unreadable
  | .sequence [] => .error (.missingField .type)
  | .sequence (type :: items) => do
    match ← kindOfValue type with
    | .file => fileOfItems items
    | .directory => directoryOfItems items
  | .mapping entries => do
    match ← kindOfEntries none entries with
    | .file => fileOfEntries {} entries
    | .directory => directoryOfEntries {} entries

/-- The children that a value declares. -/
def childrenOfValue : Value → Except Malformation (List Declaration)
  | .sequence items => declarations items
  | _ => .error .unreadable

/-- The nodes that values declare. -/
def declarations : List Value → Except Malformation (List Declaration)
  | [] => .ok []
  | value :: values => do return (← value.declaration) :: (← declarations values)

/-- The directory that the items of a sequence declare after its type. -/
def directoryOfItems : List Value → Except Malformation Declaration
  | [] => .ok (.directory "" [])
  | [name] => do return .directory (← nameOfValue name) []
  | name :: children :: others => do
    let directory := Declaration.directory (← nameOfValue name) (← childrenOfValue children)
    if others.isEmpty then .ok directory else .error .unreadable

/-- The directory that the entries of a mapping declare. -/
def directoryOfEntries (fields : DirectoryFields) :
    List (Value × Value) → Except Malformation Declaration
  | [] => .ok fields.declaration
  | (key, value) :: entries => do
    match ← fieldOfKey [.name, .children] key with
    | some .name =>
      if fields.name.isSome then .error (.duplicateField .name)
      else directoryOfEntries { fields with name := some (← nameOfValue value) } entries
    | some .children =>
      if fields.children.isSome then .error (.duplicateField .children)
      else directoryOfEntries { fields with children := some (← childrenOfValue value) } entries
    | _ => directoryOfEntries fields entries

end

/-! ## The outermost node -/

/-- Reads the items of a sequence up to its end. -/
def takeItems (items : List Value) : List Event → Option (List Value × List Event)
  | .closeSequence :: rest => some (items.reverse, rest)
  | events =>
    match _h : Value.take [] events with
    | some (item, rest) => takeItems (item :: items) rest
    | none => none
termination_by events => events.length
decreasing_by exact Value.length_of_take _h

/-- Reads the entries of the outermost mapping up to its end, and the type among them. The type is
given by a label: a fault in it is found where it stands. -/
def takeEntries (kind : Option Kind) (entries : List (Value × Value)) :
    List Event → Except Malformation (Kind × List (Value × Value) × List Event)
  | .closeMapping :: rest =>
    match kind with
    | some kind => .ok (kind, entries.reverse, rest)
    | none => .error (.missingField .type)
  | events =>
    match _hkey : Value.take [] events with
    | none => .error .unreadable
    | some (key, afterKey) =>
      if isTypeKey key then
        match kind, afterKey with
        | some _, _ => .error (.duplicateField .type)
        | none, .scalar _ (some label) :: rest => do
          takeEntries (some (← kindOfLabel label)) entries rest
        | none, _ => .error .unreadable
      else
        match _hvalue : Value.take [] afterKey with
        | none => .error .unreadable
        | some (value, afterValue) => takeEntries kind ((key, value) :: entries) afterValue
termination_by events => events.length
decreasing_by
  · have := Value.length_of_take _hkey
    simp only [List.length_cons] at this
    omega
  · have := Value.length_of_take _hkey
    have := Value.length_of_take _hvalue
    omega

/-- The node that a document declares, and the events behind it. -/
def takeDeclaration (events : List Event) : Except Malformation (Declaration × List Event) :=
  match events with
  | .openSequence :: .closeSequence :: _ => .error (.missingField .type)
  | .openSequence :: .scalar _ (some label) :: rest => do
    let kind ← kindOfLabel label
    match takeItems [] rest with
    | none => .error .unreadable
    | some (items, rest) =>
      match kind with
      | .file => return (← fileOfItems items, rest)
      | .directory => return (← directoryOfItems items, rest)
  | .openMapping :: rest => do
    let (kind, entries, rest) ← takeEntries none [] rest
    match kind with
    | .file => return (← fileOfEntries {} entries, rest)
    | .directory => return (← directoryOfEntries {} entries, rest)
  | _ => .error .unreadable

/-- The node that a whole document declares. A text that goes on behind the node, or that is damaged
there, is refused once the node itself has been found to be sound. -/
def Reading.declaration (reading : Reading) : Except Malformation Declaration := do
  let (declaration, rest) ← takeDeclaration reading.events
  if rest.isEmpty ∧ reading.complete then .ok declaration else .error .unreadable

end TreeShell.Document
