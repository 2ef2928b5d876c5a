import TreeShell.Builtin
import TreeShell.Words

/-!
# Executing a line

The first word of a line names a command, and the others are its arguments. A line without words
does nothing. Every line that is not the end of the session leaves its status in the session.
-/

namespace TreeShell

/-- What comes of a command called by a word. -/
def Session.call (session : Session) (name : String) (args : List String) : Turn :=
  match Builtin.ofName name with
  | .ok builtin => builtin.dispatch session args
  | .error failure => { reply := .done failure.outcome, session }

/-- Executes one line. -/
def Session.execute (session : Session) (line : String) : Turn :=
  match Words.ofLine session.config.env line with
  | [] => { reply := .done {}, session }
  | name :: args =>
    let turn := session.call name args
    match turn.reply with
    | .exit _ => turn
    | .done outcome =>
      { turn with session := { turn.session with lastStatus := outcome.status }.ensureCursor }

end TreeShell
