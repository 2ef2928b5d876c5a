/-!
# Similarity of words

How much alike two words are, as a number from zero to one (the Jaro similarity). A character of one
word has a counterpart in the other if the same character stands there, not further away than half
of the longer word. Counterparts count for each word, and the part of them that stands in the same
order counts too.
-/

namespace TreeShell.Text

/-- How far apart the places of two characters may be that are counterparts. -/
def counterpartRange (a b : List Char) : Nat := max a.length b.length / 2 - 1

/-- The first place in `b` where the character `c` at the place `i` of another word can have its
counterpart, which must not be one of the places `taken`. -/
def counterpart? (range : Nat) (b : List Char) (c : Char) (i : Nat) (taken : List Nat) :
    Option Nat :=
  b.zipIdx.findSome? fun (d, j) =>
    if d = c ∧ i ≤ j + range ∧ j ≤ i + range ∧ j ∉ taken then some j else none

/-- The characters of a word that have a counterpart in `b`, from the place `i` on, with the places
of the counterparts. -/
def counterparts (range : Nat) (b : List Char) (i : Nat) (taken : List Nat) :
    List Char → List (Char × Nat)
  | [] => []
  | c :: cs =>
    match counterpart? range b c i taken with
    | some j => (c, j) :: counterparts range b (i + 1) (j :: taken) cs
    | none => counterparts range b (i + 1) taken cs

/-- The similarity of two words. -/
def similarity (a b : List Char) : Float :=
  let found := counterparts (counterpartRange a b) b 0 [] a
  let inA := found.map (·.1)
  let inB := (b.zipIdx.filter fun (_, j) => (found.map (·.2)).contains j).map (·.1)
  let moved := ((inA.zip inB).filter fun (c, d) => c ≠ d).length / 2
  let share (n m : Nat) : Float := n.toFloat / m.toFloat
  if a.isEmpty && b.isEmpty then 1
  else if found.isEmpty then 0
  else
    (share found.length a.length + share found.length b.length +
      share (found.length - moved) found.length) / 3

end TreeShell.Text
