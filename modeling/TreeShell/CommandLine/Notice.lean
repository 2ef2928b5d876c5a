import TreeShell.CommandLine.Setting

/-!
# Notices

What is written instead of a run: the help or the version if they are asked for, or what is wrong
with the arguments.
-/

namespace TreeShell.CommandLine

/-- What is wrong with the arguments. -/
inductive Fault where
  /-- An argument means nothing. It may be similar to the name of an option. -/
  | unexpected (argument : String) (similar : Option Setting)
  /-- An option that has no value is given one. -/
  | unexpectedValue (setting : Setting) (value : String)
  /-- An option lacks its value. -/
  | missingValue (setting : Setting)
  /-- An option is given twice. -/
  | repeated (setting : Setting)
  deriving DecidableEq, Repr

/-- What is written instead of a run. -/
inductive Notice where
  /-- The help. -/
  | help
  /-- The version. -/
  | version
  /-- What is wrong with the arguments, with the words for options in the line on usage. -/
  | fault (cause : Fault) (words : List String)
  deriving DecidableEq, Repr

/-- The words for options in the usage when `shown` are the ones to be pointed out, and `given`
tells whether an option for the run has been taken. In that case, and if one of those shown is for
the run, all options for the run are listed as alternatives. -/
def usageWords (given : Bool) (shown : List Setting) : List String :=
  let listed := given || shown.any (·.isForRun)
  let alternatives := (Setting.all.filter (·.isForRun)).map (·.text)
  let words := (shown.filter fun setting => !setting.isForRun).map (·.text) ++
    if listed then ["<" ++ "|".intercalate alternatives ++ ">"] else []
  if words.isEmpty then anyOptions else words

/-- The text of a fault, without the line on usage. -/
def Fault.message : Fault → String
  | .unexpected argument similar =>
    "unexpected argument '" ++ argument ++ "' found" ++
      match similar.bind Setting.long? with
      | some name => "\n\n  tip: a similar argument exists: '--" ++ name ++ "'"
      | none => ""
  | .unexpectedValue setting value =>
    "unexpected value '" ++ value ++ "' for '" ++ setting.text ++
      "' found; no more were expected"
  | .missingValue setting =>
    "a value is required for '" ++ setting.text ++ "' but none was supplied"
  | .repeated setting => "the argument '" ++ setting.text ++ "' cannot be used multiple times"

/-- The text of a notice. -/
def Notice.text : Notice → String
  | .help => helpText
  | .version => versionText
  | .fault cause words =>
    "error: " ++ cause.message ++ (if words.isEmpty then "" else "\n\n" ++ usage words) ++
      "\n\nFor more information, try '--help'.\n"

/-- Whether a notice is what was asked for. It is written to the standard output then, and else to
the standard error. -/
def Notice.isWanted : Notice → Bool
  | .help | .version => true
  | .fault _ _ => false

/-- The status that the program ends with after a notice. -/
def Notice.status (notice : Notice) : Nat := if notice.isWanted then 0 else 2

end TreeShell.CommandLine
