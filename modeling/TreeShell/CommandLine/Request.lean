import TreeShell.CommandLine.Notice
import TreeShell.Text.Similarity

/-!
# Requests

The arguments of the program are read from left to right. An option may be given once. Its value
follows an equals sign, or is the next argument unless that starts with a dash and something else;
the value may also follow a letter at once. Whether a value fits is looked at only when the next
option that is known has been read, or the end. Behind two dashes nothing is an option any more, and
an argument that is neither an option nor a value is a fault.
-/

namespace TreeShell.CommandLine

/-- What a run of the program is asked to do. -/
structure Request where
  /-- The document that the tree is read from. -/
  documentPath : Option String := none
  /-- The script that is replayed first. -/
  startupScript : Option String := none
  /-- Whether the configuration is reported. -/
  debug : Bool := false
  /-- The one line that is executed; without it lines are read from the input. -/
  line : Option String := none
  deriving DecidableEq, Repr

/-- The arguments that were read. -/
structure Arguments where
  /-- The options that were taken, with their values, in the order in which they were given. -/
  taken : List (Setting × String) := []
  /-- The option whose value is still open or has not been looked at, and the value. -/
  pending : Option (Setting × Option String) := none
  deriving DecidableEq, Repr

namespace Arguments

/-- The value of an option that was taken. -/
def value? (arguments : Arguments) (setting : Setting) : Option String :=
  arguments.taken.lookup setting

/-- Whether the value of some option is known. -/
def isStarted (arguments : Arguments) : Bool :=
  !arguments.taken.isEmpty || arguments.pending.any (·.2.isSome)

/-- Takes an option with its value. -/
def take (arguments : Arguments) (setting : Setting) (value : String) : Except Notice Arguments :=
  if (arguments.value? setting).isSome then .error (.fault (.repeated setting) anyOptions)
  else if setting.isPath && value.isEmpty then .error (.fault (.missingValue setting) [])
  else .ok { arguments with taken := arguments.taken ++ [(setting, value)] }

/-- Takes the option whose value has not been looked at. -/
def settle (arguments : Arguments) : Except Notice Arguments :=
  match arguments.pending with
  | none => .ok arguments
  | some (setting, none) => .error (.fault (.missingValue setting) [])
  | some (setting, some value) => { arguments with pending := none }.take setting value

/-- Reads an option with a value, which is `none` if it may follow. -/
def option (arguments : Arguments) (setting : Setting) (value : Option String) :
    Except Notice Arguments := do
  let arguments ← arguments.settle
  match value with
  | some value => arguments.take setting value
  | none => return { arguments with pending := some (setting, none) }

/-- Reads an option without a value. -/
def flag (arguments : Arguments) (setting : Setting) : Except Notice Arguments := do
  let arguments ← arguments.settle
  match setting with
  | .help => .error .help
  | .version => .error .version
  | setting => arguments.take setting "true"

/-- The option whose name is most similar to a word, if it is similar enough; of several the first
one. -/
def similar? (word : String) : Option Setting :=
  let rated := Setting.all.filterMap fun setting =>
    setting.long?.map fun name => (setting, Text.similarity word.toList name.toList)
  let best := rated.foldl (fun best next =>
    match best with
    | some found => if next.2 > found.2 then some next else best
    | none => if next.2 > 0.7 then some next else none) none
  best.map (·.1)

/-- Reads an argument behind its two dashes. -/
def long (arguments : Arguments) (word : List Char) : Except Notice Arguments :=
  let name := String.ofList (word.takeWhile (· ≠ '='))
  let value := match word.dropWhile (· ≠ '=') with
    | _ :: value => some (String.ofList value)
    | [] => none
  match Setting.ofLong? name with
  | none =>
    let similar := similar? name
    let words := usageWords arguments.isStarted similar.toList
    .error (.fault (.unexpected ("--" ++ name) similar) words)
  | some setting =>
    if setting.valueName?.isSome then arguments.option setting value
    else
      match value with
      | none => arguments.flag setting
      | some value =>
        let words :=
          if arguments.taken.isEmpty then [setting.text] else usageWords true [setting]
        .error (.fault (.unexpectedValue setting value) words)

/-- The value that follows a letter at once. -/
def attached? : List Char → Option String
  | [] => none
  | '=' :: value => some (String.ofList value)
  | value => some (String.ofList value)

/-- Reads an argument behind its one dash, letter by letter. -/
def letters (arguments : Arguments) : List Char → Except Notice Arguments
  | [] => .ok arguments
  | letter :: others =>
    match Setting.ofShort? letter with
    | none => .error (.fault (.unexpected ("-" ++ letter.toString) none) anyOptions)
    | some setting =>
      if setting.valueName?.isSome then arguments.option setting (attached? others)
      else (arguments.flag setting).bind fun arguments => arguments.letters others

/-- Reads an argument that is no option. -/
def word (arguments : Arguments) (word : String) : Except Notice Arguments :=
  match arguments.pending with
  | some (setting, none) => .ok { arguments with pending := some (setting, some word) }
  | _ => .error (.fault (.unexpected word none) anyOptions)

/-- Reads all arguments. -/
def readFrom (arguments : Arguments) : List String → Except Notice Arguments
  | [] => arguments.settle
  | "--" :: [] => arguments.settle
  | "--" :: argument :: _ => .error (.fault (.unexpected argument none) anyOptions)
  | argument :: others => do
    let arguments ← match argument.toList with
      | '-' :: '-' :: word => arguments.long word
      | '-' :: letter :: more => arguments.letters (letter :: more)
      | _ => arguments.word argument
    arguments.readFrom others

end Arguments

/-- The request that arguments make, or the notice they call for. -/
def Request.ofArguments (arguments : List String) : Except Notice Request := do
  let arguments ← ({} : Arguments).readFrom arguments
  return {
    documentPath := arguments.value? .documentPath
    startupScript := arguments.value? .startupScript
    debug := (arguments.value? .debug).isSome
    line := arguments.value? .line }

end TreeShell.CommandLine
