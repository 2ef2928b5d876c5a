import TreeShell.Document.Event

/-!
# Values of a document

A value is put together from its events. Reading one keeps the containers that are still open on a
stack, and ends with the event that completes the value.
-/

namespace TreeShell.Document

/-- A value of a document. -/
inductive Value where
  /-- A value without parts. -/
  | scalar (value : Scalar)
  /-- A sequence of values. -/
  | sequence (items : List Value)
  /-- A mapping, as its pairs of key and value in the order of the text. -/
  | mapping (entries : List (Value × Value))

/-- A container whose end has not been read yet. -/
inductive OpenContainer where
  /-- A sequence with its items so far, last one first. -/
  | sequence (items : List Value)
  /-- A mapping with its entries so far, last one first, and the key that still lacks its value. -/
  | mapping (entries : List (Value × Value)) (key : Option Value)

/-- Puts a value into an open container. -/
def OpenContainer.add (container : OpenContainer) (value : Value) : OpenContainer :=
  match container with
  | .sequence items => .sequence (value :: items)
  | .mapping entries none => .mapping entries (some value)
  | .mapping entries (some key) => .mapping ((key, value) :: entries) none

/-- Reads the value that starts with the first event, inside the containers that are open. Gives the
value and the events behind it, or `none` where the events end too soon or hold no readable
value. -/
def Value.take : List OpenContainer → List Event → Option (Value × List Event)
  | _, [] => none
  | stack, event :: events =>
    match event, stack with
    | .scalar none _, _ => none
    | .scalar (some value) _, [] => some (.scalar value, events)
    | .scalar (some value) _, container :: stack =>
      Value.take (container.add (.scalar value) :: stack) events
    | .openSequence, _ => Value.take (.sequence [] :: stack) events
    | .openMapping, _ => Value.take (.mapping [] none :: stack) events
    | .closeSequence, [.sequence items] => some (.sequence items.reverse, events)
    | .closeSequence, .sequence items :: container :: stack =>
      Value.take (container.add (.sequence items.reverse) :: stack) events
    | .closeMapping, [.mapping entries none] => some (.mapping entries.reverse, events)
    | .closeMapping, .mapping entries none :: container :: stack =>
      Value.take (container.add (.mapping entries.reverse) :: stack) events
    | _, _ => none

/-- A value that was read takes up at least one event. -/
theorem Value.length_of_take {stack : List OpenContainer} {events rest : List Event} {value : Value}
    (h : Value.take stack events = some (value, rest)) : rest.length < events.length := by
  fun_induction Value.take stack events <;> simp_all <;> omega

end TreeShell.Document
