import TreeShell.Decimal.Digits
import TreeShell.Decimal.Nearest
import TreeShell.Document.Event
import TreeShell.Document.Yaml.Cursor

/-!
# What scalars stand for

The text of a plain scalar without a tag tells what kind of value it is: nothing, a truth value, an
integer, a double, or else a text. Integers are decimal, or hexadecimal, octal or binary behind
`0x`, `0o` and `0b`. An integer with superfluous zeros is a text.
-/

namespace TreeShell.Document.Yaml

/-- Whether a text is one of the words for no value. -/
def isNull (cs : List Char) : Bool :=
  ["null", "Null", "NULL", "~"].any fun word => word.toList == cs

/-- The truth value that a text is a word for. -/
def bool? (cs : List Char) : Option Bool :=
  if ["true", "True", "TRUE"].any fun word => word.toList == cs then some true
  else if ["false", "False", "FALSE"].any fun word => word.toList == cs then some false
  else none

/-! ## Integers -/

/-- The number that digits of a base denote, of which there must be at least one. -/
def digits? (base : Nat) (cs : List Char) : Option Nat :=
  let add (n : Nat) (c : Char) : Option Nat :=
    ((hexValue? c).filter (· < base)).map (n * base + ·)
  if cs.isEmpty then none else cs.foldlM add 0

/-- The digits behind the mark of a base other than ten, with the base. -/
def marked? : List Char → Option (Nat × List Char)
  | '0' :: 'x' :: digits => some (16, digits)
  | '0' :: 'o' :: digits => some (8, digits)
  | '0' :: 'b' :: digits => some (2, digits)
  | _ => none

/-- A text without the sign that it starts with. -/
def dropSign : List Char → List Char
  | '+' :: cs | '-' :: cs => cs
  | cs => cs

/-- Whether a text, its sign apart, consists of digits only, the first of which is superfluous. -/
def hasLeadingZero (cs : List Char) : Bool :=
  match dropSign cs with
  | '0' :: c :: cs => (c :: cs).all Char.isDigit
  | _ => false

/-- The natural number that a text denotes behind its sign; the whole text must have no superfluous
zeros unless a base is marked. -/
def magnitude? (whole cs : List Char) : Option Nat :=
  match marked? cs with
  | some (base, digits) => digits? base digits
  | none => if hasLeadingZero whole then none else digits? 10 cs

/-- The integer that a text denotes: whether it has a minus sign, and its magnitude. -/
def integer? (cs : List Char) : Option (Bool × Nat) :=
  match cs with
  | '-' :: digits => (magnitude? cs digits).map fun n => (true, n)
  | '+' :: digits => (magnitude? cs digits).map fun n => (false, n)
  | _ => (magnitude? cs cs).map fun n => (false, n)

/-- What an integer is read as: integers of 64 bits are read, larger ones of up to 128 bits are
refused, which is told by an inner `none`, and still larger ones are no integers. -/
def integerValue? (negative : Bool) (n : Nat) : Option (Option Scalar) :=
  let bits := if negative then 1 else 0
  if n ≤ Nat.pow 2 (64 - bits) - (1 - bits) then
    some (some (if negative then .minus n else .natural n))
  else if n ≤ Nat.pow 2 (128 - bits) - (1 - bits) then some none
  else none

/-! ## Doubles -/

/-- The exponent that a text consists of. An empty text is the exponent zero. -/
def exponent? : List Char → Option Int
  | [] => some 0
  | c :: cs =>
    if c ≠ 'e' ∧ c ≠ 'E' then none
    else
      match cs with
      | '-' :: digits => (digits? 10 digits).map fun n => -(n : Int)
      | '+' :: digits => (digits? 10 digits).map fun n => (n : Int)
      | digits => (digits? 10 digits).map fun n => (n : Int)

/-- The double nearest to the number that a text without a sign denotes. There may be a point, and
there must be a digit before or behind it. -/
def unsignedFloat? (cs : List Char) : Option Float := do
  let (whole, rest) := Decimal.spanDigits cs
  let (fraction, rest) := match rest with
    | '.' :: rest => Decimal.spanDigits rest
    | rest => ([], rest)
  let significand ← digits? 10 (whole ++ fraction)
  let exponent ← exponent? rest
  return Decimal.nearest significand (exponent - fraction.length)

/-- The double that a text denotes. The words for infinity may have a sign; a number must not be too
large. -/
def float? (cs : List Char) : Option Float :=
  let unsigned := if cs.head? = some '+' then cs.drop 1 else cs
  let isWord (words : List String) (cs : List Char) : Bool :=
    words.any fun word => word.toList == cs
  let finite (f : Float) : Option Float := if f.isFinite then some f else none
  if isWord [".inf", ".Inf", ".INF"] unsigned then some (1 / 0)
  else if isWord ["-.inf", "-.Inf", "-.INF"] cs then some (-1 / 0)
  else if isWord [".nan", ".NaN", ".NAN"] cs then some (0 / 0)
  else
    match cs, unsigned with
    | '-' :: digits, _ => (unsignedFloat? digits).bind finite |>.map fun f => -f
    | _, digits => (unsignedFloat? digits).bind finite

/-! ## Scalars -/

/-- What a plain scalar without a tag stands for; `none` if that is refused. -/
def plainValue? (cs : List Char) : Option Scalar :=
  if cs.isEmpty || isNull cs then some .null
  else
    match bool? cs, (integer? cs).bind fun (negative, n) => integerValue? negative n with
    | some value, _ => some (.bool value)
    | none, some value => value
    | none, none =>
      match if hasLeadingZero cs then none else float? cs with
      | some value => some (.float value)
      | none => some (.string (String.ofList cs))

/-- The tags for kinds of scalars that have a form of their own. -/
def standardTag (name : String) : List UInt8 := ("tag:yaml.org,2002:" ++ name).toUTF8.toList

/-- Whether a tag has a meaning only for the one who wrote it. -/
def isLocal (tag : List UInt8) : Bool :=
  match tag with
  | 0x21 :: rest => rest.isEmpty || ByteArray.validateUTF8 ⟨rest.toArray⟩
  | _ => false

/-- What a scalar with a tag stands for; `none` if that is refused. -/
def taggedValue? (tag : List UInt8) (cs : List Char) (plain : Bool) : Option Scalar :=
  if isLocal tag then none
  else if tag = standardTag "bool" then (bool? cs).map .bool
  else if tag = standardTag "int" then
    (integer? cs).bind fun (negative, n) => (integerValue? negative n).join
  else if tag = standardTag "float" then (float? cs).map .float
  else if tag = standardTag "null" then if isNull cs then some .null else none
  else if plain && tag.head? = some 0x21 then plainValue? cs
  else some (.string (String.ofList cs))

/-- What a scalar stands for; `none` if that is refused. -/
def scalarValue? (tag : Option (List UInt8)) (cs : List Char) (plain : Bool) : Option Scalar :=
  match tag with
  | some tag => taggedValue? tag cs plain
  | none => if plain then plainValue? cs else some (.string (String.ofList cs))

end TreeShell.Document.Yaml
