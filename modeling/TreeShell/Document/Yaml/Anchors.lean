import TreeShell.Document.Yaml.Part

/-!
# Anchors

An anchored node has a number, and references go by number. A new anchor gets the count of names
that are known as its number. A name that is anchored again gets a new number too, and since the
count does not grow then, the next new name shares that number. A number stands for the node that
got it last in the whole document.
-/

namespace TreeShell.Document.Yaml

/-- The anchors of a document. -/
structure Anchors where
  /-- The number of each name. -/
  numbers : List (List Char × Nat) := []
  /-- Where the nodes of the numbers start, latest first. -/
  places : List (Nat × Nat) := []

/-- The anchors after the node at a place is given a name. -/
def Anchors.define (anchors : Anchors) (name : List Char) (place : Nat) : Anchors :=
  let number := anchors.numbers.length
  { numbers := (name, number) :: anchors.numbers.filter (·.1 ≠ name)
    places := (number, place) :: anchors.places }

/-- The anchors after the node at a place, which may have a name. -/
def Anchors.note (anchors : Anchors) (properties : Properties) (place : Nat) : Anchors :=
  match properties.anchor with
  | some name => anchors.define name place
  | none => anchors

/-- Finds the numbers of all references. Gives the parts before the first one to a name that is not
known by then, whether that are all, and the anchors. -/
def number (anchors : Anchors) (place : Nat) :
    List (Part (List Char)) → Outline Nat × Anchors
  | [] => ({ parts := [], complete := true }, anchors)
  | part :: parts =>
    let further (part : Part Nat) (anchors : Anchors) : Outline Nat × Anchors :=
      let (outline, anchors) := number anchors (place + 1) parts
      ({ outline with parts := part :: outline.parts }, anchors)
    match part with
    | .alias name =>
      match anchors.numbers.lookup name with
      | some number => further (.alias number) anchors
      | none => ({ parts := [], complete := false }, anchors)
    | .scalar properties text plain =>
      further (.scalar properties text plain) (anchors.note properties place)
    | .openSequence properties => further (.openSequence properties) (anchors.note properties place)
    | .openMapping properties => further (.openMapping properties) (anchors.note properties place)
    | .closeSequence => further .closeSequence anchors
    | .closeMapping => further .closeMapping anchors

/-- A document whose references are numbers, with the parts that start at the node of a number. -/
structure LinkedOutline extends Outline Nat where
  /-- The parts from the node of a number on. -/
  target : Nat → List (Part Nat)

/-- Resolves the references of a document. -/
def Outline.link (outline : Outline (List Char)) : LinkedOutline :=
  let (numbered, anchors) := number {} 0 outline.parts
  { parts := numbered.parts
    complete := numbered.complete && outline.complete
    target := fun number => numbered.parts.drop ((anchors.places.lookup number).getD 0) }

end TreeShell.Document.Yaml
