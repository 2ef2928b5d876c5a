import TreeShell.Environment

/-!
# Variable expansion

A text may refer to a variable as `${NAME}`, where the name is anything up to the closing brace, or
as `$NAME`, where the name is a longest run of ASCII letters, digits and underscores that does not
start with a digit. Expansion replaces each reference to a variable that is set by its value and
leaves every other reference as it is written.

The braced references are replaced first, over the whole text, and the bare ones afterwards: a value
brought in by a braced reference is read once more for bare references, and never for braced ones.
-/

namespace TreeShell.Expansion

/-- Whether a bare name may start with this character. -/
def isNameStart (c : Char) : Bool := c.isAlpha || c = '_'

/-- Whether a bare name may go on with this character. -/
def isNamePart (c : Char) : Bool := c.isAlphanum || c = '_'

/-- What stands for a reference to `name` that is written as `reference`. -/
def substitute (env : Environment) (name reference : List Char) : List Char :=
  match env.value? (String.ofList name) with
  | some value => value.toList
  | none => reference

/-- Splits the text after `${` into the name and what follows the closing brace. There is no name
when no brace closes it, and an empty pair of braces encloses none. -/
def bracedName (cs : List Char) : Option (List Char × List Char) :=
  match cs.takeWhile (· != '}'), cs.dropWhile (· != '}') with
  | c :: name, _ :: rest => some (c :: name, rest)
  | _, _ => none

/-- Splits the text after `$` into a bare name and what follows it. -/
def bareName (cs : List Char) : Option (List Char × List Char) :=
  match cs with
  | c :: _ =>
    if isNameStart c then some (cs.takeWhile isNamePart, cs.dropWhile isNamePart) else none
  | [] => none

theorem length_dropWhile_le (p : Char → Bool) (cs : List Char) :
    (cs.dropWhile p).length ≤ cs.length :=
  (List.dropWhile_sublist p).length_le

theorem length_of_bracedName {cs name rest : List Char}
    (h : bracedName cs = some (name, rest)) : rest.length < cs.length := by
  unfold bracedName at h
  split at h
  · next c tail drop hdrop =>
    have hle := length_dropWhile_le (· != '}') cs
    simp only [Option.some.injEq, Prod.mk.injEq] at h
    obtain ⟨-, rfl⟩ := h
    rw [hdrop, List.length_cons] at hle
    omega
  · simp at h

theorem length_of_bareName {cs name rest : List Char}
    (h : bareName cs = some (name, rest)) : rest.length ≤ cs.length := by
  unfold bareName at h
  split at h
  · split at h
    · simp only [Option.some.injEq, Prod.mk.injEq] at h
      obtain ⟨-, rfl⟩ := h
      exact length_dropWhile_le _ _
    · simp at h
  · simp at h

/-- Replaces the references that are written with braces. -/
def expandBraced (env : Environment) : List Char → List Char
  | [] => []
  | '$' :: '{' :: cs =>
    match _h : bracedName cs with
    | some (name, rest) =>
      substitute env name ('$' :: '{' :: name ++ ['}']) ++ expandBraced env rest
    | none => '$' :: expandBraced env ('{' :: cs)
  | c :: cs => c :: expandBraced env cs
termination_by cs => cs.length
decreasing_by
  · have := length_of_bracedName _h
    simp only [List.length_cons]
    omega
  · simp
  · simp

/-- Replaces the references that are written without braces. -/
def expandBare (env : Environment) : List Char → List Char
  | [] => []
  | '$' :: cs =>
    match _h : bareName cs with
    | some (name, rest) => substitute env name ('$' :: name) ++ expandBare env rest
    | none => '$' :: expandBare env cs
  | c :: cs => c :: expandBare env cs
termination_by cs => cs.length
decreasing_by
  · have := length_of_bareName _h
    simp only [List.length_cons]
    omega
  · simp
  · simp

/-- Replaces every reference to a variable that is set. -/
def expand (env : Environment) (text : List Char) : List Char :=
  expandBare env (expandBraced env text)

end TreeShell.Expansion
