/-!
# Options of the program

The options that the program can be started with, and the texts about them.
-/

namespace TreeShell.CommandLine

/-- The name of the program. -/
def programName : String := "vfs-shell"

/-- The version of the program. -/
def programVersion : String := "0.1.0"

/-- An option of the program. -/
inductive Setting where
  /-- The document that the tree is read from. -/
  | documentPath
  /-- The script that is replayed first. -/
  | startupScript
  /-- Whether the configuration is reported. -/
  | debug
  /-- The one line that is executed. -/
  | line
  /-- The request for help. -/
  | help
  /-- The request for the version. -/
  | version
  deriving DecidableEq, Repr

namespace Setting

/-- All options, in the order in which they are listed. -/
def all : List Setting := [.documentPath, .startupScript, .debug, .line, .help, .version]

/-- The name of an option behind two dashes. -/
def long? : Setting → Option String
  | .documentPath => some "vfs-path"
  | .startupScript => some "startup-script"
  | .debug => some "debug"
  | .line => none
  | .help => some "help"
  | .version => some "version"

/-- The letter of an option behind one dash. -/
def short? : Setting → Option Char
  | .line => some 'c'
  | .help => some 'h'
  | .version => some 'V'
  | _ => none

/-- What the value of an option is called; an option without it has no value. -/
def valueName? : Setting → Option String
  | .documentPath => some "VFS_PATH"
  | .startupScript => some "STARTUP_SCRIPT"
  | .line => some "COMMAND"
  | _ => none

/-- What an option is for. -/
def purpose : Setting → String
  | .documentPath => "VFS document (JSON, or YAML with a .yaml/.yml extension)"
  | .startupScript => "Script replayed line by line before the interactive loop"
  | .debug => "Print the resolved configuration and enable debug logging"
  | .line => "Execute a single line (after any startup script) and exit with its status"
  | .help => "Print help"
  | .version => "Print version"

/-- Whether the value of an option is the path of a file, which cannot be empty. -/
def isPath : Setting → Bool
  | .documentPath | .startupScript => true
  | _ => false

/-- Whether an option tells how the program is to run, rather than asking for a text about it. -/
def isForRun : Setting → Bool
  | .help | .version => false
  | _ => true

/-- The option behind two dashes. -/
def ofLong? (name : String) : Option Setting := all.find? fun setting => setting.long? == some name

/-- The option behind one dash. -/
def ofShort? (letter : Char) : Option Setting :=
  all.find? fun setting => setting.short? == some letter

/-- The value of an option, as it is shown behind its name. -/
def valueText (setting : Setting) : String :=
  match setting.valueName? with
  | some name => " <" ++ name ++ ">"
  | none => ""

/-- An option as it is written, by its name if it has one, or else by its letter. -/
def text (setting : Setting) : String :=
  match setting.long?, setting.short? with
  | some name, _ => "--" ++ name ++ setting.valueText
  | none, some letter => "-" ++ letter.toString ++ setting.valueText
  | none, none => ""

/-- The heading of an option in the help, with its letter and its name. -/
def heading (setting : Setting) : String :=
  match setting.short?, setting.long? with
  | some letter, some name => "-" ++ letter.toString ++ ", --" ++ name ++ setting.valueText
  | some _, none => setting.text
  | none, _ => "    " ++ setting.text

end Setting

/-- The line that says how the program is called, with the words that stand for options. -/
def usage (words : List String) : String :=
  "Usage: " ++ " ".intercalate (programName :: words)

/-- The words that stand for all options. -/
def anyOptions : List String := ["[OPTIONS]"]

/-- The help. -/
def helpText : String :=
  "A UNIX-like shell prompt over a virtual filesystem\n\n" ++ usage anyOptions ++
    "\n\nOptions:\n" ++
    String.join (Setting.all.map fun setting =>
      "  " ++ setting.heading ++ "\n          " ++ setting.purpose ++ "\n")

/-- The version, as it is printed. -/
def versionText : String := programName ++ " " ++ programVersion ++ "\n"

end TreeShell.CommandLine
