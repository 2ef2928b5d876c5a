/-!
# Events of a document

A document is a value: a scalar, a sequence of values, or a mapping of values to values. Whatever
notation it is written in, its text is read into one flat list of events. The events hold all that
was read before the text turned out to be damaged, so that a fault in what the document says is
found before a fault in the text behind it.
-/

namespace TreeShell.Document

/-- A value without parts. -/
inductive Scalar where
  /-- The absence of a value. -/
  | null
  /-- A truth value. -/
  | bool (value : Bool)
  /-- An integer written without a minus sign. -/
  | natural (value : Nat)
  /-- An integer written with a minus sign, which makes `value` negative. -/
  | minus (value : Nat)
  /-- A number that is not taken as an integer. -/
  | float (value : Float)
  /-- A text. -/
  | string (value : String)

/-- A step in the reading of a document. -/
inductive Event where
  /-- A scalar, `none` if the text is none of the kind it is marked to be. The label is the text by
  which the scalar can name something, if its notation allows that. -/
  | scalar (value : Option Scalar) (label : Option String)
  /-- The start of a sequence. -/
  | openSequence
  /-- The end of a sequence. -/
  | closeSequence
  /-- The start of a mapping, whose keys and values follow in turn. -/
  | openMapping
  /-- The end of a mapping. -/
  | closeMapping

/-- A text, as far as it could be read. -/
structure Reading where
  /-- The events that were read. -/
  events : List Event
  /-- Whether the text is exactly one document; otherwise reading failed after the events. -/
  complete : Bool

/-- A reading that fails at once. -/
def Reading.damaged : Reading := { events := [], complete := false }

/-- A reading with one more event at its start. -/
def Reading.after (event : Event) (reading : Reading) : Reading :=
  { reading with events := event :: reading.events }

end TreeShell.Document
