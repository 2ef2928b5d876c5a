import TreeShell.Text.Cluster

/-!
# Backspaces

A backspace in a line of input takes away the cluster before it, as if the line had been typed.
-/

namespace TreeShell.Text

/-- The backspace. -/
def backspace : Char := '\x08'

/-- The clusters that are left, last one first, after a further one. -/
def typeCluster (typed : List (List Char)) (cluster : List Char) : List (List Char) :=
  if cluster = [backspace] then typed.drop 1 else cluster :: typed

/-- What a line becomes. -/
def applyBackspaces (line : String) : String :=
  if backspace ∈ line.toList then
    String.ofList ((clusters line.toList).foldl typeCluster []).reverse.flatten
  else line

end TreeShell.Text
