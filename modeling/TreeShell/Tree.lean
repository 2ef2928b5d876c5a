/-!
# Trees of files and directories

A node is a file, which holds text, or a directory, which holds named nodes. The children of a
directory are kept in the order in which they were added, one for each name. That order is storage
only: listings sort the children, and every other question is asked by name.

A place in a tree is the list of names that leads to it from the root.
-/

namespace TreeShell

/-- A file with its content, or a directory with its named children. -/
inductive Node where
  /-- A file holding `content`. -/
  | file (content : String)
  /-- A directory whose children stand in the order in which they were added. -/
  | directory (children : List (String × Node))

/-- What a node is. The order is that of a listing, in which files come first. -/
inductive Kind where
  /-- A file. -/
  | file
  /-- A directory. -/
  | directory
  deriving DecidableEq, Repr

/-- Whether nodes of the first kind are listed before nodes of the second. -/
def Kind.before : Kind → Kind → Bool
  | .file, .directory => true
  | _, _ => false

/-- A line of a listing: a child's kind and its name. -/
structure Entry where
  /-- What the child is. -/
  kind : Kind
  /-- The child's name. -/
  name : String
  deriving DecidableEq, Repr

/-- Whether the first entry may stand before the second in a listing: files before directories, and
entries of one kind by name, in the order of their code points. -/
def Entry.le (a b : Entry) : Bool :=
  a.kind.before b.kind || (a.kind == b.kind && decide (a.name ≤ b.name))

/-- Entries in the order of a listing. -/
def Entry.sort (entries : List Entry) : List Entry := entries.mergeSort Entry.le

namespace Node

/-- The directory without children. -/
def empty : Node := .directory []

/-- Whether a node is a file or a directory. -/
def kind : Node → Kind
  | .file _ => .file
  | .directory _ => .directory

/-- Whether a node is a directory. -/
def isDirectory : Node → Bool
  | .file _ => false
  | .directory _ => true

/-- The children of a directory; a file has none to ask for. -/
def children? : Node → Option (List (String × Node))
  | .file _ => none
  | .directory children => some children

/-- The children of a directory after `node` is stored under `name`: in the place of the child of
that name, or last when there is none. -/
def store (name : String) (node : Node) : List (String × Node) → List (String × Node)
  | [] => [(name, node)]
  | child :: children =>
    if child.1 = name then (name, node) :: children else child :: store name node children

/-- The node that a list of names leads to. -/
def walk? (node : Node) : List String → Option Node
  | [] => some node
  | name :: names =>
    match node with
    | .file _ => none
    | .directory children => (children.lookup name).bind fun child => child.walk? names

/-- The tree after `new` is stored as `name` in the directory that a list of names leads to. -/
def storeAt? (node : Node) (name : String) (new : Node) : List String → Option Node
  | [] =>
    match node with
    | .file _ => none
    | .directory children => some (.directory (store name new children))
  | next :: names =>
    match node with
    | .file _ => none
    | .directory children =>
      (children.lookup next).bind fun child =>
        (child.storeAt? name new names).map fun changed =>
          .directory (store next changed children)

/-- The listing of a directory: one entry for each child, sorted. -/
def listing (children : List (String × Node)) : List Entry :=
  Entry.sort (children.map fun (name, node) => ⟨node.kind, name⟩)

end Node

end TreeShell
