import TreeShell.Document.Yaml.Cursor

/-!
# Tags

A tag tells of what kind a node is. It is written as a whole in angle brackets, or as a handle,
which stands for the start of the tag, and the rest. Bytes that are no characters of a tag are
written with a percent sign and two hexadecimal digits.
-/

namespace TreeShell.Document.Yaml

/-- A tag as it is written: a handle that stands for the start of the tag, and the rest. -/
structure TagText where
  /-- The handle; it is empty when the rest is the whole tag. -/
  handle : List Char
  /-- The rest of the tag, in bytes. -/
  suffix : List UInt8
  deriving DecidableEq, Repr

/-- Whether a character may stand in a tag. -/
def isTagChar (c : Char) : Bool := isNameChar c || ";/?:@&=+$.%!~*'()".toList.contains c

/-- Whether a character may stand in a tag that is written as a whole. -/
def isWholeTagChar (c : Char) : Bool := isTagChar c || c = ',' || c = '[' || c = ']'

/-- Reads the byte that a percent sign and two digits stand for. -/
def escapedByte? (c : Cursor) : Option (UInt8 × Cursor) :=
  match c.rest with
  | '%' :: high :: low :: _ => (hexNumber? [high, low]).map fun n => (UInt8.ofNat n, c.advance 3)
  | _ => none

/-- How many bytes a character has whose first byte this is. -/
def escapeWidth? (byte : UInt8) : Option Nat :=
  if byte &&& 0x80 = 0x00 then some 1
  else if byte &&& 0xE0 = 0xC0 then some 2
  else if byte &&& 0xF0 = 0xE0 then some 3
  else if byte &&& 0xF8 = 0xF0 then some 4
  else none

/-- Reads the `count` escaped bytes that complete a character. -/
def escapedTail? : Nat → Cursor → Option (List UInt8 × Cursor)
  | 0, c => some ([], c)
  | count + 1, c => do
    let (byte, c) ← escapedByte? c
    if byte &&& 0xC0 ≠ 0x80 then none
    else
      let (others, c) ← escapedTail? count c
      return (byte :: others, c)

/-- Reads a character whose bytes are all escaped. -/
def escapedCharacter? (c : Cursor) : Option (List UInt8 × Cursor) := do
  let (byte, c) ← escapedByte? c
  let width ← escapeWidth? byte
  let (others, c) ← escapedTail? (width - 1) c
  return (byte :: others, c)

/-- Reads the characters of a kind that come next as bytes. Every round but the last takes a
character, so `rounds` need not be more than the length of the text. -/
def tagBytes? (kind : Char → Bool) : Nat → Cursor → Option (List UInt8 × Cursor)
  | 0, c => some ([], c)
  | rounds + 1, c =>
    if !c.next.any kind then some ([], c)
    else do
      let (bytes, c) ← match c.next with
        | some '%' => escapedCharacter? c
        | next => some (next.toList.map fun char => UInt8.ofNat char.toNat, c.advance 1)
      let (others, c) ← tagBytes? kind rounds c
      return (bytes ++ others, c)

/-- Reads the bytes of a part of a tag, of which there must be at least one. -/
def tagPart? (kind : Char → Bool) (c : Cursor) : Option (List UInt8 × Cursor) :=
  (tagBytes? kind c.rest.length c).filter fun (bytes, _) => !bytes.isEmpty

/-- A tag ends before the first zero byte in it. -/
def untilZero (bytes : List UInt8) : List UInt8 := bytes.takeWhile (· ≠ 0)

/-- Reads a tag in angle brackets. -/
def wholeTag? (c : Cursor) : Option (TagText × Cursor) := do
  let (bytes, c) ← tagPart? isWholeTagChar (c.advance 2)
  if c.isAt '>' then return (⟨[], untilZero bytes⟩, c.advance 1) else none

/-- Reads a tag that starts with a handle. A single exclamation mark is a handle too; alone, it is
a whole tag. -/
def handledTag? (c : Cursor) : Option (TagText × Cursor) :=
  let (name, c) := (c.advance 1).span isNameChar
  if c.isAt '!' then do
    let (bytes, c) ← tagPart? isTagChar (c.advance 1)
    return (⟨'!' :: name ++ ['!'], untilZero bytes⟩, c)
  else do
    let (bytes, c) ← tagBytes? isTagChar c.rest.length c
    let suffix := untilZero (name.map (fun char => UInt8.ofNat char.toNat) ++ bytes)
    return (if suffix.isEmpty then ⟨[], "!".toUTF8.toList⟩ else ⟨['!'], suffix⟩, c)

/-- Reads a tag from its exclamation mark on. Between brackets or braces a comma may follow it. -/
def tagText? (inFlow : Bool) (c : Cursor) : Option (TagText × Cursor) :=
  (if c.peek 1 = some '<' then wholeTag? c else handledTag? c).filter fun (_, c) =>
    endsWord c.next || (inFlow && c.isAt ',')

end TreeShell.Document.Yaml
