/-!
# The nearest double

A decimal number denotes the double that is nearest to it; of two that are equally near, the one
with the even significand. The significand is found by exact division of natural numbers, so nothing
is rounded twice. A number beyond the largest double denotes infinity.
-/

namespace TreeShell.Decimal

/-- The quotient of two natural numbers, rounded to the nearest; a half goes to the even
neighbour. -/
def roundHalfEven (num den : Nat) : Nat :=
  let quotient := num / den
  let twice := 2 * (num % den)
  if twice > den ∨ (twice = den ∧ quotient % 2 = 1) then quotient + 1 else quotient

/-- The fraction `num / den` divided by the power `2 ^ q`. -/
def scaleDown (num den : Nat) (q : Int) : Nat × Nat :=
  if q ≥ 0 then (num, den * Nat.pow 2 q.toNat) else (num * Nat.pow 2 (-q).toNat, den)

/-- The bits of the double nearest to `num / den`. A significand of 53 bits is taken at the exponent
that makes it fit, or at the least exponent a double can have; the bits of exponent and significand
then add up, for a significand that rounds up to 54 bits carries into the exponent. -/
def nearestBits (num den : Nat) : Nat :=
  if num = 0 then 0
  else
    let least : Int := -1074
    let guess : Int := max ((num.log2 : Int) - den.log2 - 53) least
    let significand (q : Int) := let (n, d) := scaleDown num den q; roundHalfEven n d
    let fits (q : Int) : Bool := let (n, d) := scaleDown num den q; n / d < Nat.pow 2 53
    let q := if fits guess then guess else guess + 1
    let bits := (q - least).toNat * Nat.pow 2 52 + significand q
    min bits (2047 * Nat.pow 2 52)

/-- The double nearest to `significand * 10 ^ exponent`. -/
def nearest (significand : Nat) (exponent : Int) : Float :=
  let digits : Int := (significand.log2 : Int) * 30103 / 100000
  if significand = 0 ∨ digits + exponent < -330 then 0
  else if digits + exponent > 310 then Float.ofBits (UInt64.ofNat (2047 * Nat.pow 2 52))
  else
    let (num, den) :=
      if exponent ≥ 0 then (significand * Nat.pow 10 exponent.toNat, 1)
      else (significand, Nat.pow 10 (-exponent).toNat)
    Float.ofBits (UInt64.ofNat (nearestBits num den))

end TreeShell.Decimal
