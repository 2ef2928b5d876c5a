import TreeShell.FileSystem.Failure
import TreeShell.Path
import TreeShell.Tree

/-!
# The file system

A file system is a tree whose root is a directory, together with the document it was read from, if
there is one. Its operations are addressed by paths. A path means the list of its segments: here
`.` and `..` are names like any other, for paths are made canonical before they come this far.

Reading operations walk down from the root. The three creating operations add one new node to a
directory that is there; they never replace a node and never create a directory on the way.
-/

namespace TreeShell

/-- A tree and the document that it was read from. -/
structure FileSystem where
  /-- The tree. -/
  root : Node
  /-- The path of the document, on the host. -/
  source : Option String := none
  /-- The root of the tree is a directory. -/
  root_isDirectory : root.isDirectory = true := by rfl

namespace FileSystem

/-- The file system that holds nothing, read from no document. -/
def empty : FileSystem := { root := .empty }

/-- The file system with the given tree. A file cannot be a root, so an empty directory takes its
place. -/
def ofRoot (root : Node) (source : Option String) : FileSystem :=
  if h : root.isDirectory = true then { root, source, root_isDirectory := h }
  else { root := .empty, source }

/-- The children of the directory that a list of names leads to from the root. -/
def children? (fs : FileSystem) (names : List String) : Option (List (String × Node)) :=
  (fs.root.walk? names).bind Node.children?

/-- The node at a path: the root, or a child of the directory that the other segments lead to. -/
def node? (fs : FileSystem) (path : String) : Option Node :=
  match Path.splitParent path with
  | none => some fs.root
  | some (parent, leaf) => (fs.children? parent).bind (·.lookup leaf)

/-- Walks along the names, telling a file in the way from a name that is missing. -/
def descend (node : Node) : List String → Except Obstacle (List (String × Node))
  | [] =>
    match node with
    | .file _ => .error .notADirectory
    | .directory children => .ok children
  | name :: names =>
    match node with
    | .file _ => .error .notADirectory
    | .directory children =>
      match children.lookup name with
      | none => .error .notFound
      | some child => descend child names

/-- The children of the directory at a path. -/
def resolveDirectory (fs : FileSystem) (path : String)
    (operation : String := "resolve") : Except Failure (List (String × Node)) :=
  (descend fs.root (Path.segments path)).mapError fun obstacle => { obstacle, path, operation }

/-- Whether a directory is at a path. -/
def isDirectory (fs : FileSystem) (path : String) : Bool := (fs.resolveDirectory path).isOk

/-- Whether anything is at a path. -/
def exists? (fs : FileSystem) (path : String) : Bool := (fs.node? path).isSome

/-- The entries of the directory at a path: files, then directories, each sorted by name. -/
def list (fs : FileSystem) (path : String) : Except Failure (List Entry) :=
  (fs.resolveDirectory path "scandir").map Node.listing

/-- The content of the file at a path. -/
def read (fs : FileSystem) (path : String) : Except Failure String :=
  match Path.splitParent path with
  | none => .error { obstacle := .isADirectory, path, operation := "read" }
  | some (parent, leaf) =>
    match (fs.children? parent).bind (·.lookup leaf) with
    | some (.file content) => .ok content
    | some (.directory _) => .error { obstacle := .isADirectory, path, operation := "read" }
    | none => .error { obstacle := .notFound, path, operation := "open" }

/-- Adds a node at a path, which must be free in a directory that is there. -/
def add (fs : FileSystem) (path : String) (new : Node) (operation : String) :
    Except Failure FileSystem :=
  let fail obstacle := .error { obstacle, path, operation }
  match Path.splitParent path with
  | none => fail .alreadyExists
  | some (parent, leaf) =>
    match fs.children? parent with
    | none => fail .parentMissing
    | some children =>
      if (children.lookup leaf).isSome then fail .alreadyExists
      else
        match fs.root.storeAt? leaf new parent with
        | none => fail .parentMissing
        | some root => .ok (ofRoot root fs.source)

/-- Adds an empty directory. -/
def makeDirectory (fs : FileSystem) (path : String) : Except Failure FileSystem :=
  fs.add path .empty "mkdir"

/-- Adds a file. -/
def makeFile (fs : FileSystem) (path content : String) : Except Failure FileSystem :=
  fs.add path (.file content) "open"

/-- Adds a file with the content of the file at `source`. A source that cannot be read is reported
before the target is looked at. -/
def copyFile (fs : FileSystem) (source target : String) : Except Failure FileSystem :=
  match fs.read source with
  | .ok content => fs.add target (.file content) "copyfile"
  | .error failure =>
    let obstacle := if failure.obstacle = .isADirectory then .isADirectory else .sourceMissing
    .error { obstacle, path := source, operation := "copyfile" }

end FileSystem

end TreeShell
