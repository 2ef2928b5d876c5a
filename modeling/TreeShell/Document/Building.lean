import TreeShell.Document.Declaration
import TreeShell.Text.Base64
import TreeShell.Text.Blank
import TreeShell.Text.Utf8

/-!
# Building a tree

A tree is built from the nodes that a document declares. The name of every node below the top must
be one that a path can hold; the first name that is not, in the order of the document, is the fault
that is reported. Of several siblings with one name the last one counts, and nothing of the others
is kept.
-/

namespace TreeShell.Document

/-- Whether a node can be addressed under a name: the name is not empty, holds no slash, and is
neither `.` nor `..`. -/
def isNodeName (name : String) : Bool :=
  name ≠ "" && '/' ∉ name.toList && name ≠ "." && name ≠ ".."

/-- The content of a file. Content in base64 may hold white space anywhere; content that is not
base64 at all is taken as it is written. -/
def decodeContent (content : String) : Encoding → String
  | .text => content
  | .base64 =>
    match Text.Base64.decode (content.toList.filter fun c => !Text.isBlank c) with
    | some bytes => String.ofList (Text.decodeLossy bytes)
    | none => content

/-- Checks a name for a node in the directory at `path`. -/
def checkName (name path : String) : Except Malformation Unit :=
  if isNodeName name then .ok () else .error (.invalidName name path)

mutual

/-- The node that a declaration stands for in the directory at `path`, with its name. -/
def Declaration.build (path : String) : Declaration → Except Malformation (String × Node)
  | .directory name children => do
    checkName name path
    return (name, .directory (← buildChildren (path ++ "/" ++ name) [] children))
  | .file name content encoding => do
    checkName name path
    return (name, .file (decodeContent content encoding))

/-- The children of the directory at `path` after the declared nodes are added to `built`. -/
def buildChildren (path : String) (built : List (String × Node)) :
    List Declaration → Except Malformation (List (String × Node))
  | [] => .ok built
  | declaration :: declarations => do
    let (name, node) ← declaration.build path
    buildChildren path (Node.store name node built) declarations

end

/-- The tree that a document declares. Its outermost node must be a directory, whose name does not
matter. -/
def Declaration.tree : Declaration → Except Malformation Node
  | .directory _ children => do return .directory (← buildChildren "" [] children)
  | .file name _ _ => .error (.fileAtTop name)

end TreeShell.Document
