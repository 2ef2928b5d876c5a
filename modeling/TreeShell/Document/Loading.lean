import TreeShell.Document.Building
import TreeShell.Document.Format
import TreeShell.Document.Json.Reading
import TreeShell.Document.Yaml.Reading
import TreeShell.FileSystem
import TreeShell.Host
import TreeShell.Session

/-!
# Loading a file system

A file system is loaded from a document on the host. A session starts with an empty file system when
its document cannot be loaded, and keeps the document's path all the same.
-/

namespace TreeShell.Document

/-- Reads a text in a format. -/
def Format.read (format : Format) (text : String) : Reading :=
  match format with
  | .json => Json.read text
  | .yaml => Yaml.read text

/-- The tree that a text holds. -/
def parse (format : Format) (text : String) : Except Malformation Node := do
  (← (format.read text).declaration).tree

/-- Why a file system cannot be loaded. -/
inductive LoadFailure where
  /-- The document cannot be read. -/
  | unavailable (path : String) (failure : Host.ReadFailure)
  /-- The document is refused. -/
  | malformed (fault : Malformation)
  deriving DecidableEq, Repr

/-- The text of a failure; a fault without a text of its own has none. -/
def LoadFailure.message? : LoadFailure → Option String
  | .unavailable path failure =>
    some ("cannot read VFS document '" ++ path ++ "': " ++ failure.message)
  | .malformed fault => fault.detail?.map ("malformed VFS document: " ++ ·)

/-- Loads the document at a path. -/
def load (host : Host) (path : String) : Except LoadFailure FileSystem :=
  match host.readText path with
  | .error failure => .error (.unavailable path failure)
  | .ok text =>
    match parse (Format.ofPath path) text with
    | .error fault => .error (.malformed fault)
    | .ok root => .ok (FileSystem.ofRoot root (some path))

/-- Loads the document at a path, or else an empty file system. -/
def loadOrEmpty (host : Host) (path : String) : FileSystem :=
  match load host path with
  | .ok fs => fs
  | .error _ => { FileSystem.empty with source := some path }

end TreeShell.Document

namespace TreeShell

/-- The session that starts with a configuration, with the document loaded that it names. -/
def Session.start (host : Host) (config : Config) : Session where
  config := config
  fileSystem := config.documentPath.map (Document.loadOrEmpty host)

end TreeShell
