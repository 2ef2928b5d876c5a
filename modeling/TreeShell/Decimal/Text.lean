import TreeShell.Decimal.Shortest

/-!
# The text of a double

A double is written in positional notation, however large or small it is: never with an exponent,
and with a point only before digits that are not all zero. Zero keeps its sign.
-/

namespace TreeShell.Decimal

/-- The number `digits * 10 ^ exponent` in positional notation. -/
def positional (digits : Nat) (exponent : Int) : String :=
  let text := (Nat.toDigits 10 digits)
  if exponent ≥ 0 then String.ofList (text ++ List.replicate exponent.toNat '0')
  else
    let places := (-exponent).toNat
    let padded := List.replicate (places + 1 - text.length) '0' ++ text
    let whole := padded.length - places
    String.ofList (padded.take whole ++ '.' :: padded.drop whole)

/-- The shortest text that reads back as the double `x`. -/
def text (x : Float) : String :=
  let bits := x.toBits.toNat
  let sign := if bits ≥ Nat.pow 2 63 then "-" else ""
  let exponent : Nat := bits / Nat.pow 2 52 % 2048
  let fraction : Nat := bits % Nat.pow 2 52
  if exponent = 2047 then if fraction = 0 then sign ++ "inf" else "NaN"
  else if exponent = 0 ∧ fraction = 0 then sign ++ "0"
  else
    let (digits, power) :=
      if exponent = 0 then shortest fraction (-1074)
      else shortest (Nat.pow 2 52 + fraction) ((exponent : Int) - 1075)
    sign ++ positional digits power

end TreeShell.Decimal
