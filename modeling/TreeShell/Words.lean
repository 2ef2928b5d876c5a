import TreeShell.Text.Blank
import TreeShell.Environment
import TreeShell.Expansion

/-!
# Words of a command line

A line is cut at every space that stands outside quotes. A quote of either kind opens a span that
only the same character closes; the other kind is an ordinary character inside it, and a span that
is never closed reaches the end of the line. The pieces lose the white space around them, empty
pieces vanish, and each remaining piece is expanded on its own: an expanded value is never cut
again, and quote characters stay in the word.
-/

namespace TreeShell.Words

/-- The quote that is open after the character `c`, given the one open before it. -/
def quoteAfter (quote : Option Char) (c : Char) : Option Char :=
  match quote with
  | none => if c = '"' || c = '\'' then some c else none
  | some q => if c = q then none else some q

/-- The pieces between the spaces outside quotes: the first one, and those after it. -/
def pieces (quote : Option Char) : List Char → List Char × List (List Char)
  | [] => ([], [])
  | c :: cs =>
    if quote = none ∧ c = ' ' then
      let (piece, others) := pieces none cs
      ([], piece :: others)
    else
      let (piece, others) := pieces (quoteAfter quote c) cs
      (c :: piece, others)

/-- The words of a line as they are written, before expansion. -/
def written (line : List Char) : List (List Char) :=
  let (piece, others) := pieces none line
  ((piece :: others).map Text.trim).filter fun word => !word.isEmpty

/-- The words of a line, each with its variables replaced by their values. -/
def ofLine (env : Environment) (line : String) : List String :=
  (written line.toList).map fun word => String.ofList (Expansion.expand env word)

end TreeShell.Words
