import TreeShell.Session

/-!
# Listing

`ls` prints a block for each operand that exists: the operand itself for a file; for a directory its
entries, one on a line, directories with a slash after the name. With several operands the entries
of a directory stand under a line that names it, and an empty line stands before that line unless it
belongs to the first operand. Without a file system, `ls` shows its operands as a quoted list.
-/

namespace TreeShell.Command

/-- The line that shows an entry. -/
def entryLine (entry : Entry) : String :=
  match entry.kind with
  | .directory => entry.name ++ "/\n"
  | .file => entry.name ++ "\n"

/-- The outcome for one operand. The heading is printed before the entries of a directory. -/
def listOperand (session : Session) (fs : FileSystem) (heading operand : String) : Outcome :=
  let path := session.resolve operand
  match fs.list path with
  | .ok entries => { stdout := heading ++ String.join (entries.map entryLine) }
  | .error _ =>
    match fs.read path with
    | .ok _ => { stdout := operand ++ "\n" }
    | .error _ =>
      { stderr := "ls: cannot access '" ++ operand ++ "': No such file or directory\n"
        status := 2 }

/-- The outcomes for several operands, each with the heading that names it. -/
def listOperands (session : Session) (fs : FileSystem) : List String → List Outcome
  | [] => []
  | first :: others =>
    listOperand session fs (first ++ ":\n") first ::
      others.map fun operand => listOperand session fs ("\n" ++ operand ++ ":\n") operand

/-- An item between quotes. Backslashes are doubled. The quotes are single ones, and a single quote
inside is escaped; an item that holds a single quote and no double one stands in double quotes. -/
def quoted (item : String) : String :=
  let escaped := item.toList.flatMap fun c => if c = '\\' then ['\\', '\\'] else [c]
  if '\'' ∈ escaped ∧ '"' ∉ escaped then "\"" ++ String.ofList escaped ++ "\""
  else
    "'" ++ String.ofList (escaped.flatMap fun c => if c = '\'' then ['\\', '\''] else [c]) ++ "'"

/-- A list of quoted items in brackets. -/
def quotedList (items : List String) : String :=
  "[" ++ ", ".intercalate (items.map quoted) ++ "]"

/-- What `ls` says without a file system. -/
def listStub (args : List String) : Outcome where
  stdout :=
    "ls: command called with arguments: " ++ quotedList args ++ "\n" ++
      if args.isEmpty then "ls: would list contents of current directory\n"
      else "ls: would list contents of: " ++ quotedList args ++ "\n"

/-- `ls`: lists the operands, or the directory at the cursor when there is none. -/
def ls (session : Session) (args : List String) : Outcome :=
  match session.fileSystem with
  | none => listStub args
  | some fs =>
    match args with
    | [] => listOperand session fs "" "."
    | [operand] => listOperand session fs "" operand
    | operands => Outcome.sequence (listOperands session fs operands)

end TreeShell.Command
