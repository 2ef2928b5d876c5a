import TreeShell.Document.Yaml.Anchors
import TreeShell.Document.Yaml.Lexing
import TreeShell.Document.Yaml.Outline
import TreeShell.Document.Yaml.Schema

/-!
# Reading YAML

A text is cut into tokens, the tokens are read as the outline of a document, and the outline is read
as events. References are replaced by what they refer to. Containers may be nested 128 deep, and
at most a hundred references are followed for each part of the outline, so a document cannot grow
without bound.
-/

namespace TreeShell.Document.Yaml

/-- The most containers that may be open at once. -/
def depthLimit : Nat := 128

/-- How many references are followed at most for each part of a document. -/
def jumpsPerPart : Nat := 100

/-- What is read on behind a node that was referred to. -/
structure Return where
  /-- How many containers are open around the node. -/
  depth : Nat
  /-- The parts behind the reference. -/
  parts : List (Part Nat)

/-- What is read on after a node has ended inside `depth` containers. -/
def resume (depth : Nat) (returns : List Return) (parts : List (Part Nat)) :
    List Return × List (Part Nat) :=
  match returns with
  | [] => ([], parts)
  | back :: outer => if back.depth = depth then (outer, back.parts) else (returns, parts)

/-- How many parts there are behind references. -/
def partsBehind : List Return → Nat
  | [] => 0
  | back :: outer => back.parts.length + partsBehind outer

/-- How many parts are left to read, references not counted. -/
def partsLeft (returns : List Return) (parts : List (Part Nat)) : Nat :=
  parts.length + partsBehind returns

theorem partsLeft_resume (depth : Nat) (returns : List Return) (parts : List (Part Nat)) :
    partsLeft (resume depth returns parts).1 (resume depth returns parts).2 ≤
      partsLeft returns parts := by
  unfold resume
  split
  · simp
  · split
    · simp only [partsLeft, partsBehind]
      omega
    · simp

/-- Whether a container has a tag that only its writer knows. -/
def Properties.isForeign (properties : Properties) : Bool := properties.tag.any isLocal

/-- The event of a scalar. -/
def scalarEvent (properties : Properties) (text : List Char) (plain : Bool) : Event :=
  .scalar (scalarValue? properties.tag text plain) (some (String.ofList text))

/-- Reads parts of a document inside `depth` containers. At most `jumps` references are followed. -/
def LinkedOutline.eventsFrom (outline : LinkedOutline) (jumps depth : Nat) (returns : List Return)
    (parts : List (Part Nat)) : Reading :=
  match parts with
  | [] => { events := [], complete := outline.complete && returns.isEmpty }
  | .alias number :: parts =>
    match jumps with
    | 0 => .damaged
    | jumps + 1 =>
      outline.eventsFrom jumps depth (⟨depth, parts⟩ :: returns) (outline.target number)
  | .scalar properties text plain :: parts =>
    let next := resume depth returns parts
    .after (scalarEvent properties text plain) (outline.eventsFrom jumps depth next.1 next.2)
  | .openSequence properties :: parts =>
    if properties.isForeign || depthLimit ≤ depth then .damaged
    else .after .openSequence (outline.eventsFrom jumps (depth + 1) returns parts)
  | .openMapping properties :: parts =>
    if properties.isForeign || depthLimit ≤ depth then .damaged
    else .after .openMapping (outline.eventsFrom jumps (depth + 1) returns parts)
  | .closeSequence :: parts =>
    let next := resume (depth - 1) returns parts
    .after .closeSequence (outline.eventsFrom jumps (depth - 1) next.1 next.2)
  | .closeMapping :: parts =>
    let next := resume (depth - 1) returns parts
    .after .closeMapping (outline.eventsFrom jumps (depth - 1) next.1 next.2)
termination_by (jumps, partsLeft returns parts)
decreasing_by
  · exact Prod.Lex.left _ _ (Nat.lt_succ_self _)
  all_goals apply Prod.Lex.right
  · exact Nat.lt_of_le_of_lt (partsLeft_resume depth returns parts) (by simp [partsLeft])
  · simp [partsLeft]
  · simp [partsLeft]
  · exact Nat.lt_of_le_of_lt (partsLeft_resume (depth - 1) returns parts) (by simp [partsLeft])
  · exact Nat.lt_of_le_of_lt (partsLeft_resume (depth - 1) returns parts) (by simp [partsLeft])

/-- Reads a text as YAML. -/
def read (text : String) : Reading :=
  let outline := (outline (tokens text.toList)).link
  outline.eventsFrom (jumpsPerPart * outline.parts.length) 0 [] outline.parts

end TreeShell.Document.Yaml
