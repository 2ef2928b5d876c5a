import TreeShell.Document.Json.Number
import TreeShell.Document.Json.Quoted

/-!
# Reading JSON

A text is read from left to right, with the containers that are open kept on a stack. White space
may stand between any two tokens. A comma must be followed by a further item or key. Containers may
be nested 127 deep.
-/

namespace TreeShell.Document.Json

/-- A container that is open. -/
inductive Container where
  /-- A sequence, in brackets. -/
  | sequence
  /-- A mapping, in braces. -/
  | mapping
  deriving DecidableEq, Repr

/-- What may come next. -/
inductive Expected where
  /-- A value. -/
  | value
  /-- The first item of a sequence, or its end. -/
  | firstItem
  /-- The first key of a mapping, or its end. -/
  | firstKey
  /-- A key. -/
  | key
  /-- The colon behind a key. -/
  | colon
  /-- What can stand behind a value: a comma, the end of a container, or the end of the text. -/
  | separator
  deriving DecidableEq, Repr

/-- Whether a character is white space between tokens. -/
def isSpace (c : Char) : Bool := c = ' ' || c = '\t' || c = '\n' || c = '\r'

/-- The most containers that may be open at once. -/
def depthLimit : Nat := 127

/-- The words that stand for a value. -/
def literals : List (List Char × Scalar) :=
  [("null".toList, .null), ("true".toList, .bool true), ("false".toList, .bool false)]

/-- The word that a text starts with, and the text behind it. -/
def literal? (cs : List Char) : Option (Scalar × List Char) :=
  literals.findSome? fun (word, value) =>
    if word.isPrefixOf cs then some (value, cs.drop word.length) else none

/-- The scalar without quotes that a text starts with, and the text behind it. -/
def bare? (cs : List Char) : Option (Scalar × List Char) :=
  match literal? cs with
  | some found => some found
  | none => (numberParts? cs).bind fun (parts, rest) => parts.scalar?.map fun value => (value, rest)

theorem length_of_literal {cs rest : List Char} {value : Scalar}
    (h : literal? cs = some (value, rest)) : rest.length < cs.length := by
  simp only [literal?, literals, List.findSome?_cons, List.findSome?_nil] at h
  repeat' split at h
  all_goals simp_all
  all_goals
    obtain ⟨hpre, -, rfl⟩ := ‹_ ∧ _›
    have := hpre.length_le
    simp_all
    omega

/-- A scalar without quotes takes up at least one character. -/
theorem length_of_bare {cs rest : List Char} {value : Scalar} (h : bare? cs = some (value, rest)) :
    rest.length < cs.length := by
  unfold bare? at h
  split at h
  · next found hfound =>
    simp only [Option.some.injEq] at h
    subst h
    exact length_of_literal hfound
  · simp only [Option.bind_eq_some_iff, Option.map_eq_some_iff, Prod.mk.injEq] at h
    obtain ⟨⟨parts, last⟩, hparts, _, -, -, rfl⟩ := h
    exact length_of_numberParts hparts

/-- Reads a text inside the containers that are open. -/
def readFrom (stack : List Container) (expected : Expected) : List Char → Reading
  | [] => { events := [], complete := stack.isEmpty && expected == .separator }
  | c :: cs =>
    if isSpace c then readFrom stack expected cs
    else
      let close (container : Container) (event : Event) : Reading :=
        match stack with
        | top :: below =>
          if top = container then .after event (readFrom below .separator cs) else .damaged
        | [] => .damaged
      match expected, c with
      | .firstItem, ']' => close .sequence .closeSequence
      | .separator, ']' => close .sequence .closeSequence
      | .firstKey, '}' => close .mapping .closeMapping
      | .separator, '}' => close .mapping .closeMapping
      | .separator, ',' =>
        match stack with
        | .sequence :: _ => readFrom stack .value cs
        | .mapping :: _ => readFrom stack .key cs
        | [] => .damaged
      | .separator, _ => .damaged
      | .colon, ':' => readFrom stack .value cs
      | .colon, _ => .damaged
      | expected, '"' =>
        match _h : quoted? cs with
        | none => .damaged
        | some (text, rest) =>
          let text := String.ofList text
          let next := match expected with
            | .firstKey | .key => .colon
            | _ => .separator
          .after (.scalar (some (.string text)) (some text)) (readFrom stack next rest)
      | .firstKey, _ => .damaged
      | .key, _ => .damaged
      | _, '[' =>
        if stack.length < depthLimit then
          .after .openSequence (readFrom (.sequence :: stack) .firstItem cs)
        else .damaged
      | _, '{' =>
        if stack.length < depthLimit then
          .after .openMapping (readFrom (.mapping :: stack) .firstKey cs)
        else .damaged
      | _, _ =>
        match _h : bare? (c :: cs) with
        | none => .damaged
        | some (value, rest) => .after (.scalar (some value) none) (readFrom stack .separator rest)
termination_by cs => cs.length
decreasing_by
  iterate 5 exact Nat.lt_succ_self _
  · exact Nat.lt_succ_of_lt (length_of_quoted _h)
  iterate 2 exact Nat.lt_succ_self _
  · exact length_of_bare _h

/-- Reads a text as JSON. -/
def read (text : String) : Reading := readFrom [] .value text.toList

end TreeShell.Document.Json
