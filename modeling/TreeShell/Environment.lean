/-!
# The environment

The variables a command line may refer to, as pairs of a name and a value. A name is any text, for
`${…}` may enclose any text but a closing brace.
-/

namespace TreeShell

/-- The variables with their values; of two pairs with one name the first counts. -/
abbrev Environment := List (String × String)

namespace Environment

/-- The value of a variable, `none` when it is not set. -/
def value? (env : Environment) (name : String) : Option String := env.lookup name

/-- The environment in which `name` has the value `value` and all else is as before. -/
def set (env : Environment) (name value : String) : Environment :=
  (name, value) :: env.filter fun entry => entry.1 != name

end Environment

end TreeShell
